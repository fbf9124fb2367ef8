import BehaviorTree.Proofs.Session.Acts
import BehaviorTree.Proofs.Session.Cloning
import BehaviorTree.Proofs.Session.Nodes

/-!
Requests are editing. Every act of a session changes the core in steps of editing only, whether it fails or not, and so does every
request that does not go to the store directly.
-/

set_option autoImplicit false

namespace BehaviorTree.Session

open Relation

variable {s t : Session} {id source target : String}

theorem edited_createConnection (s : Session) (source target : String) : Edited s (s.createConnection source target).2 := by
  unfold createConnection
  split
  · exact edited_refl s
  · rename_i hvalid
    split
    · rename_i hissue
      exact edited_issueConnectionId hissue
    · rename_i id t hissue
      have hw := connectionIds_writable hissue
      obtain ⟨rfl, rfl⟩ := issueConnectionId_eq_ok hissue
      dsimp only
      rcases Store.content_addConnection s.store.issueConnectionId.2 ⟨s.store.connectionIds.issue.1, source, target⟩ with
        ⟨f, hadd⟩ | ⟨hfresh, store, hadd, hcontent⟩
      · rw [hadd]
        exact edited_of_step fun _ => .connectionIssued s.store.content
      · rw [hadd]
        have hstep : Content.Step s.definition? s.store.content store.content := by
          rw [hcontent]
          exact .connected s.store.content source target hfresh hvalid hw
        exact edited_of_step fun _ => hstep

theorem edited_deleteConnection (s : Session) (id : String) : Edited s (s.deleteConnection id).2 := by
  have hstep : Edited s { s with store := (s.store.removeConnection id).2 } := edited_of_step Store.step_removeConnection
  refine hstep.then_core_eq ?_
  unfold deleteConnection
  dsimp only
  split_ifs <;> rfl

theorem edited_completePending (s : Session) (node side : String) : Edited s (s.completePending node side).2 := by
  unfold completePending
  split
  · exact edited_refl s
  · rename_i p _
    have hcleared : Edited s { s with pending := none } := edited_of_core_eq rfl
    dsimp only
    split_ifs
    · exact hcleared
    · exact hcleared
    · exact hcleared.trans (edited_createConnection _ _ _)
    · exact hcleared.trans (edited_createConnection _ _ _)

theorem sparesKind_placements {g : GridSettings} {ps : List (Layout.Position Float)} {updates : List (Table Value)}
    (h : placements g ps = .ok updates) : ∀ u ∈ updates, SparesKind (Table.erase u "id") := by
  induction ps generalizing updates with
  | nil =>
    obtain rfl := Except.ok.inj h
    simp
  | cons p r ih =>
    obtain ⟨x, _, h⟩ := bind_eq_ok.1 h
    obtain ⟨y, _, h⟩ := bind_eq_ok.1 h
    obtain ⟨rest, hrest, h⟩ := bind_eq_ok.1 h
    obtain rfl := Except.ok.inj h
    intro u hu
    rcases List.mem_cons.1 hu with rfl | hu
    · simp [Table.erase, SparesKind, Table.keys]
    · exact ih hrest u hu

theorem edited_autoLayout (s : Session) : Edited s s.autoLayout.2 := by
  unfold autoLayout
  split
  · exact edited_refl s
  · rename_i updates h
    exact edited_of_step fun _ => Store.step_updateNodes (sparesKind_placements h)

theorem core_resetTransient (s : Session) : s.resetTransient.core = s.core := by
  unfold resetTransient Monitor.clear
  cases s.monitor.states <;> rfl

theorem edited_reset (s : Session) : Edited s s.reset := by
  have hstep : Edited s { s with store := s.store.clear false } := edited_of_step fun _ => .cleared s.store.content
  exact hstep.then_core_eq (core_resetTransient _)

theorem core_toggleCollapsed (category : String) : (s.toggleCollapsed category).2.core = s.core := rfl

theorem core_selectConnection : (s.selectConnection id).2.core = s.core := by
  unfold selectConnection
  split <;> rfl

theorem core_deselectConnection : s.deselectConnection.core = s.core := by
  unfold deselectConnection
  split <;> rfl

theorem core_startPending (side : String) : (s.startPending id side).2.core = s.core := by
  unfold startPending
  split_ifs <;> rfl

theorem core_cancelPending : s.cancelPending.core = s.core := by
  unfold cancelPending
  split <;> rfl

theorem core_selectNode (add : Bool) : (s.selectNode id add).2.core = s.core := by
  unfold selectNode
  split_ifs <;> rfl

theorem core_deselectNode : (s.deselectNode id).core = s.core := by
  unfold deselectNode
  split_ifs <;> rfl

theorem core_updateBox (x y : Value) : (s.updateBox x y).core = s.core := by
  unfold updateBox
  split_ifs <;> rfl

theorem core_endBox (add : Bool) : (s.endBox add).2.core = s.core := by
  unfold endBox
  split
  · rfl
  · dsimp only
    split <;> rfl

theorem edited_updateGrid (ms : Table Value) : Edited s (s.updateGrid ms).2 := by
  unfold updateGrid
  split
  · exact edited_refl s
  · rename_i g hg
    exact fun _ => .single (.gridChanged s.core g ⟨_, Schema.Checked.report_eq_ok.1 hg⟩)

theorem core_updateViewport (ms : Table Value) : (s.updateViewport ms).2.core = s.core := by
  unfold updateViewport
  split
  · rfl
  · split_ifs <;> rfl

theorem edited_deleteSelectedNodes (s : Session) : Edited s s.deleteSelectedNodes.2 := by
  unfold deleteSelectedNodes
  split
  · exact edited_refl s
  · exact (edited_deleteNodes s.selection.nodes).then_core_eq rfl

theorem edited_report (report answer : Value) : Edited s (s.onMonitor (s.monitor.apply s.store report) answer).2 :=
  edited_of_core_eq rfl

theorem core_clearReports (answer : Value) : (s.onMonitor (s.monitor.clear s.store) answer).2.core = s.core := by
  unfold onMonitor Monitor.clear
  cases s.monitor.states <;> rfl

theorem edited_act {asked : String} (h : Act s asked t) : Edited s t := by
  cases h with
  | nothing => exact edited_refl s
  | addCustomType definition => exact edited_addCustomType definition
  | removeCustomType type => exact edited_removeCustomType type
  | toggleCollapsed category => exact edited_of_core_eq (core_toggleCollapsed category)
  | createNode => exact edited_createNode
  | deleteNode => exact edited_deleteNode
  | deleteNodes ids => exact edited_deleteNodes ids
  | deleteSelectedNodes => exact edited_deleteSelectedNodes s
  | cloneNode => exact edited_cloneNode
  | cloneEach ids => exact edited_cloneEach ids
  | cloneNodes ids => exact edited_cloneNodes ids
  | updateNodeProperties => exact edited_updateNodeProperties
  | renameNode => exact edited_renameNode
  | moveNode => exact edited_moveNode
  | alignSelectedNodes how => exact edited_alignSelectedNodes how
  | createConnection source target => exact edited_createConnection s source target
  | deleteConnection id => exact edited_deleteConnection s id
  | selectConnection => exact edited_of_core_eq core_selectConnection
  | deselectConnection => exact edited_of_core_eq core_deselectConnection
  | startPending node side => exact edited_of_core_eq (core_startPending side)
  | completePending node side => exact edited_completePending s node side
  | dropPending => exact edited_of_core_eq rfl
  | cancelPending => exact edited_of_core_eq core_cancelPending
  | selectNode id add => exact edited_of_core_eq (core_selectNode add)
  | selectNodes => exact edited_of_core_eq rfl
  | deselectNode => exact edited_of_core_eq core_deselectNode
  | clearSelection => exact edited_of_core_eq rfl
  | startBox => exact edited_of_core_eq rfl
  | updateBox x y => exact edited_of_core_eq (core_updateBox x y)
  | endBox add => exact edited_of_core_eq (core_endBox add)
  | updateGrid updates => exact edited_updateGrid updates
  | updateViewport updates => exact edited_of_core_eq (core_updateViewport updates)
  | autoLayout => exact edited_autoLayout s
  | reset => exact edited_reset s
  | report message answer => exact edited_report message answer
  | clearReports answer => exact edited_of_core_eq (core_clearReports answer)

theorem edited_request (s : Session) {name : String} (arguments : List Value) (h : name.startsWith storeMark = false) :
    Edited s (s.request name arguments).2 :=
  edited_act (act_request s arguments h)

end BehaviorTree.Session
