import BehaviorTree.Session.Request
import Mathlib.Tactic.SplitIfs

/-!
The acts of a session. Whatever a request that does not go to the store asks for, by whatever name and with whatever arguments, comes
down to one act of the session or to nothing at all. What the acts do is then all there is to know of requests. Two acts are asked for
by one name only: making a node and updating the viewport.
-/

set_option autoImplicit false

namespace BehaviorTree.Session

variable {s : Session} {asked : String}

/-- An act of a session, what it may have been asked for, and the session after it, whether it succeeds or not. -/
inductive Act (s : Session) (asked : String) : Session → Prop
  | nothing : Act s asked s
  | addCustomType (definition : Value) : Act s asked (s.addCustomType definition).2
  | removeCustomType (type : String) : Act s asked (s.removeCustomType type).2
  | toggleCollapsed (category : String) : Act s asked (s.toggleCollapsed category).2
  | createNode (type category x y name : Value) (h : asked = "create_node") : Act s asked (s.createNode type category x y name).2
  | deleteNode (id : String) : Act s asked (s.deleteNode id).2
  | deleteNodes (ids : List String) : Act s asked (s.deleteNodes ids).2
  | deleteSelectedNodes : Act s asked s.deleteSelectedNodes.2
  | cloneNode (id : String) (offsetX offsetY : Value) : Act s asked (s.cloneNode id offsetX offsetY).2
  /-- Some of the ids to clone cannot be used, so that the connections are not reached. -/
  | cloneEach (ids : List String) (offsetX offsetY : Value) : Act s asked (s.cloneEach offsetX offsetY [] ids).2
  | cloneNodes (ids : List String) (offsetX offsetY : Value) : Act s asked (s.cloneNodes ids offsetX offsetY).2
  | updateNodeProperties (id : String) (properties : Value) : Act s asked (s.updateNodeProperties id properties).2
  | renameNode (id : String) (name : Value) : Act s asked (s.renameNode id name).2
  | moveNode (id : String) (x y : Value) : Act s asked (s.moveNode id x y).2
  | alignSelectedNodes (how : String) : Act s asked (s.alignSelectedNodes how).2
  | createConnection (source target : String) : Act s asked (s.createConnection source target).2
  | deleteConnection (id : String) : Act s asked (s.deleteConnection id).2
  | selectConnection (id : String) : Act s asked (s.selectConnection id).2
  | deselectConnection : Act s asked s.deselectConnection
  | startPending (node side : String) : Act s asked (s.startPending node side).2
  | completePending (node side : String) : Act s asked (s.completePending node side).2
  /-- The second click is on something that is no node. -/
  | dropPending : Act s asked { s with pending := none }
  | cancelPending : Act s asked s.cancelPending
  | selectNode (id : String) (add : Bool) : Act s asked (s.selectNode id add).2
  | selectNodes (ids : List String) : Act s asked (s.selectNodes ids)
  | deselectNode (id : String) : Act s asked (s.deselectNode id)
  | clearSelection : Act s asked s.clearSelection
  | startBox (x y : Value) : Act s asked (s.startBox x y)
  | updateBox (x y : Value) : Act s asked (s.updateBox x y)
  | endBox (add : Bool) : Act s asked (s.endBox add).2
  | updateGrid (updates : Table Value) : Act s asked (s.updateGrid updates).2
  | updateViewport (updates : Table Value) (h : asked = "update_viewport") : Act s asked (s.updateViewport updates).2
  | autoLayout : Act s asked s.autoLayout.2
  | reset : Act s asked s.reset
  | report (message : Value) (answer : Value) : Act s asked (s.onMonitor (s.monitor.apply s.store message) answer).2
  | clearReports (answer : Value) : Act s asked (s.onMonitor (s.monitor.clear s.store) answer).2

variable {a b c : Value} {absent : Except Fault Value}

theorem act_withId {act : String → Outcome Value} (h : ∀ id, Act s asked (act id).2) : Act s asked (s.withId a absent act).2 := by
  unfold withId
  split
  · exact h _
  · exact .nothing
  · exact .nothing

theorem act_withIds {act : String → String → Outcome Value} (h : ∀ x y, Act s asked (act x y).2) :
    Act s asked (s.withIds a b absent act).2 := by
  unfold withIds
  split
  · exact h _ _
  · exact .nothing
  · exact .nothing
  · exact .nothing

theorem act_withEach {act : List String → Outcome Value} (h : ∀ ids, Act s asked (act ids).2) : Act s asked (s.withEach a act).2 := by
  unfold withEach
  split
  · exact .nothing
  · exact h _
  · rename_i ids _
    have hact := h ids
    split
    · rename_i hr
      rw [hr] at hact
      exact hact
    · exact hact

theorem act_withAll {act : List String → Outcome Value} (h : ∀ ids, Act s asked (act ids).2) : Act s asked (s.withAll a act).2 := by
  unfold withAll
  split
  · exact h _
  · exact .nothing

theorem act_withSettings {act : Table Value → Outcome Value} (h : ∀ ms, Act s asked (act ms).2) :
    Act s asked (s.withSettings a act).2 := by
  unfold withSettings
  split
  · split_ifs
    · exact .nothing
    · exact h _
  · exact .nothing

theorem act_cloneNodesWith : Act s asked (s.cloneNodesWith a b c).2 := by
  unfold cloneNodesWith
  split
  · exact .nothing
  · exact .cloneNodes _ _ _
  · rename_i ids _
    have heach : Act s asked (s.cloneEach b c [] ids).2 := .cloneEach ids b c
    split
    · rename_i hr
      rw [hr] at heach
      exact heach
    · rename_i hr
      rw [hr] at heach
      exact heach

theorem act_updatePropertiesWith : Act s asked (s.updatePropertiesWith a b absent).2 := by
  unfold updatePropertiesWith
  split
  · exact .nothing
  · exact act_withId fun _ => .updateNodeProperties _ _

theorem act_moveNodeWith : Act s asked (s.moveNodeWith a b c absent).2 := by
  unfold moveNodeWith
  split
  · exact .nothing
  · exact act_withId fun _ => .moveNode _ _ _

theorem act_startPendingWith : Act s asked (s.startPendingWith a b absent).2 := by
  unfold startPendingWith
  split_ifs
  · exact act_withId fun _ => .startPending _ _
  · exact .nothing

theorem act_completePendingWith : Act s asked (s.completePendingWith a b).2 := by
  unfold completePendingWith
  split
  · exact .completePending _ _
  · exact .nothing
  · dsimp only
    split_ifs
    · exact .dropPending
    · unfold withId
      split
      · exact .dropPending
      · exact .dropPending
      · exact .dropPending

theorem act_removeCustomTypeWith : Act s asked ((a.text?.map s.removeCustomType).getD (false, s)).2 := by
  cases a.text? with
  | none => exact .nothing
  | some type => exact .removeCustomType type

theorem act_toggleCollapsedWith :
    Act s asked ((a.text?.map fun category => (Except.ok (Value.bool (s.toggleCollapsed category).1), (s.toggleCollapsed category).2)).getD
      s.refused).2 := by
  cases a.text? with
  | none => exact .nothing
  | some category => exact .toggleCollapsed category

theorem act_deselectNodeWith : Act s asked ((a.text?.map s.deselectNode).getD s) := by
  cases a.text? with
  | none => exact .nothing
  | some id => exact .deselectNode id

theorem act_perform (s : Session) (name : String) (a b c : Value) (more : List Value) : Act s name (s.perform name a b c more).2 := by
  unfold perform
  dsimp only
  split
  · exact .nothing
  · exact .nothing
  · exact .addCustomType a
  · exact act_removeCustomTypeWith
  · exact act_toggleCollapsedWith
  · exact .createNode _ _ _ _ _ rfl
  · exact act_withId fun _ => .deleteNode _
  · exact act_withEach fun _ => .deleteNodes _
  · exact .deleteSelectedNodes
  · exact act_withId fun _ => .cloneNode _ _ _
  · exact act_cloneNodesWith
  · exact .cloneNodes _ _ _
  · exact act_updatePropertiesWith
  · exact act_withId fun _ => .renameNode _ _
  · exact act_moveNodeWith
  · exact .alignSelectedNodes _
  · exact act_withIds fun _ _ => .nothing
  · exact act_withIds fun _ _ => .createConnection _ _
  · exact act_withId fun _ => .deleteConnection _
  · exact act_withId fun _ => .selectConnection _
  · exact .deselectConnection
  · exact act_startPendingWith
  · exact act_completePendingWith
  · exact .cancelPending
  · exact act_withId fun _ => .selectNode _ _
  · exact act_withAll fun _ => .selectNodes _
  · exact .selectNodes _
  · exact act_deselectNodeWith
  · exact .clearSelection
  · exact .startBox _ _
  · exact .updateBox _ _
  · exact .endBox _
  · exact act_withSettings fun _ => .updateGrid _
  · exact act_withSettings fun _ => .updateViewport _ rfl
  · exact .nothing
  · exact .nothing
  · exact .nothing
  · exact .autoLayout
  · exact .nothing
  · exact .nothing
  · exact .reset
  · exact .report _ _
  · exact act_withId fun _ => .nothing
  · exact .clearReports _
  · exact .nothing

theorem act_request (s : Session) {name : String} (arguments : List Value) (h : name.startsWith storeMark = false) :
    Act s name (s.request name arguments).2 := by
  unfold request
  rw [h]
  simp only [Bool.false_eq_true, ↓reduceIte]
  split_ifs
  · exact act_perform _ _ _ _ _ _
  · exact .nothing

end BehaviorTree.Session
