import BehaviorTree.Proofs.Session.Core
import BehaviorTree.Proofs.Store.Growth
import BehaviorTree.Session.Connections
import BehaviorTree.Session.Document
import BehaviorTree.Session.Selecting
import BehaviorTree.Session.View

/-!
Acts of a session that take nothing away. They leave the selection, the pending connection and the reported statuses as they are, and
all nodes and connections stay where they were.
-/

set_option autoImplicit false

namespace BehaviorTree.Session

open Relation

variable {s t u : Session}

structure Undisturbed (s t : Session) : Prop where
  graph : s.graph.Grows t.graph
  selection : t.selection = s.selection
  pending : t.pending = s.pending
  monitor : t.monitor = s.monitor

theorem Undisturbed.refl (s : Session) : Undisturbed s s := ⟨.refl _, rfl, rfl, rfl⟩

theorem Undisturbed.trans (h : Undisturbed s t) (h' : Undisturbed t u) : Undisturbed s u :=
  ⟨h.graph.trans h'.graph, h'.selection.trans h.selection, h'.pending.trans h.pending, h'.monitor.trans h.monitor⟩

theorem undisturbed_onStore {α : Type} {r : Store.Outcome α} (h : s.graph.Grows r.2.graph) : Undisturbed s (s.onStore r).2 :=
  ⟨h, rfl, rfl, rfl⟩

inductive AddStep (s : Session) : Session → Prop
  | nodeIssued : AddStep s (s.onStore s.store.issueNodeId).2
  | connectionIssued : AddStep s (s.onStore s.store.issueConnectionId).2
  | nodeAdded (n : Node) : AddStep s (s.onStore (s.store.addNode n)).2
  | connectionAdded (c : Connection) : AddStep s (s.onStore (s.store.addConnection c)).2

abbrev Adds : Session → Session → Prop := ReflTransGen AddStep

theorem AddStep.undisturbed (h : AddStep s t) : Undisturbed s t := by
  cases h with
  | nodeIssued => exact undisturbed_onStore (.refl _)
  | connectionIssued => exact undisturbed_onStore (.refl _)
  | nodeAdded n => exact undisturbed_onStore (Store.grows_addNode n)
  | connectionAdded c => exact undisturbed_onStore (Store.grows_addConnection c)

theorem undisturbed_of_adds (h : Adds s t) : Undisturbed s t := by
  induction h with
  | refl => exact .refl s
  | tail _ hstep ih => exact ih.trans hstep.undisturbed

theorem adds_issueNodeId {r : Except Fault String} (h : s.onStore s.store.issueNodeId = (r, t)) : Adds s t := by
  obtain ⟨_, rfl⟩ := Prod.mk.inj h
  exact .single .nodeIssued

theorem adds_issueConnectionId {r : Except Fault String} (h : s.onStore s.store.issueConnectionId = (r, t)) : Adds s t := by
  obtain ⟨_, rfl⟩ := Prod.mk.inj h
  exact .single .connectionIssued

theorem adds_createNode (s : Session) (type category x y name : Value) : Adds s (s.createNode type category x y name).2 := by
  unfold createNode
  split
  · exact .refl
  · exact .refl
  · split
    · rename_i hissue
      exact adds_issueNodeId hissue
    · rename_i hissue
      split
      · exact adds_issueNodeId hissue
      · exact (adds_issueNodeId hissue).tail (.nodeAdded _)

theorem adds_cloneNode (s : Session) (id : String) (offsetX offsetY : Value) : Adds s (s.cloneNode id offsetX offsetY).2 := by
  unfold cloneNode
  split
  · exact .refl
  · split
    · rename_i hissue
      exact adds_issueNodeId hissue
    · rename_i hissue
      split
      · exact adds_issueNodeId hissue
      · exact (adds_issueNodeId hissue).tail (.nodeAdded _)

theorem adds_cloneEach (s : Session) (ids : List String) (offsetX offsetY : Value) (clones : Table String) :
    Adds s (s.cloneEach offsetX offsetY clones ids).2 := by
  induction ids generalizing s clones with
  | nil => exact .refl
  | cons id r ih =>
    have hone : Adds s (s.cloneNode id offsetX offsetY).2 := adds_cloneNode s id offsetX offsetY
    unfold cloneEach
    split
    · rename_i hr
      rw [hr] at hone
      exact hone
    · rename_i hr
      rw [hr] at hone
      exact hone.trans (ih _ _)
    · rename_i hr
      rw [hr] at hone
      exact hone.trans (ih _ _)

theorem adds_cloneConnections (s : Session) (clones : Table String) (cs : List Connection) :
    Adds s (s.cloneConnections clones cs).2 := by
  induction cs generalizing s with
  | nil => exact .refl
  | cons c r ih =>
    unfold cloneConnections
    split
    · rename_i source target _ _
      split
      · rename_i hissue
        exact adds_issueConnectionId hissue
      · rename_i id t hissue
        have hadded : Adds s (t.onStore (t.store.addConnection ⟨id, source, target⟩)).2 :=
          (adds_issueConnectionId hissue).tail (.connectionAdded _)
        split
        · rename_i hr
          rw [hr] at hadded
          exact hadded
        · rename_i hr
          rw [hr] at hadded
          exact hadded.trans (ih _)
    · exact ih s

theorem adds_cloneNodes_connections (s : Session) (ids : List String) (offsetX offsetY : Value) :
    Adds (s.cloneEach offsetX offsetY [] ids).2 (s.cloneNodes ids offsetX offsetY).2 := by
  unfold cloneNodes
  split
  · rename_i hr
    rw [hr]
  · rename_i clones t hr
    rw [hr]
    have hconnections : Adds t (t.cloneConnections clones t.graph.connectionList).2 := adds_cloneConnections t _ _
    split
    · rename_i hr'
      rw [hr'] at hconnections
      exact hconnections
    · rename_i hr'
      rw [hr'] at hconnections
      exact hconnections

theorem adds_cloneNodes (s : Session) (ids : List String) (offsetX offsetY : Value) :
    Adds s (s.cloneNodes ids offsetX offsetY).2 :=
  (adds_cloneEach s ids offsetX offsetY []).trans (adds_cloneNodes_connections s ids offsetX offsetY)

theorem adds_createConnection (s : Session) (source target : String) : Adds s (s.createConnection source target).2 := by
  unfold createConnection
  split
  · exact .refl
  · split
    · rename_i hissue
      exact adds_issueConnectionId hissue
    · rename_i hissue
      exact (adds_issueConnectionId hissue).tail (.connectionAdded _)

theorem undisturbed_updateNodeProperties (id : String) (properties : Value) :
    Undisturbed s (s.updateNodeProperties id properties).2 := by
  unfold updateNodeProperties
  split
  · exact .refl s
  · exact undisturbed_onStore (Store.grows_updateNode _ _)

theorem undisturbed_renameNode (id : String) (name : Value) : Undisturbed s (s.renameNode id name).2 :=
  undisturbed_onStore (Store.grows_updateNode _ _)

theorem undisturbed_moveNode (id : String) (x y : Value) : Undisturbed s (s.moveNode id x y).2 := by
  unfold moveNode
  split
  · exact .refl s
  · exact undisturbed_onStore (Store.grows_moveNode _ _ _)

theorem undisturbed_alignSelectedNodes (how : String) : Undisturbed s (s.alignSelectedNodes how).2 := by
  unfold alignSelectedNodes align
  dsimp only
  split_ifs
  · exact .refl s
  · split
    · exact .refl s
    · split
      · exact .refl s
      · exact undisturbed_onStore (Store.grows_updateNodes _)

theorem undisturbed_autoLayout (s : Session) : Undisturbed s s.autoLayout.2 := by
  unfold autoLayout
  split
  · exact .refl s
  · exact undisturbed_onStore (Store.grows_updateNodes _)

theorem undisturbed_addCustomType (definition : Value) : Undisturbed s (s.addCustomType definition).2 := by
  unfold addCustomType
  split
  · exact .refl s
  · split_ifs
    · exact .refl s
    · exact .refl s
    · exact ⟨.refl _, rfl, rfl, rfl⟩

theorem undisturbed_updateGrid (updates : Table Value) : Undisturbed s (s.updateGrid updates).2 := by
  unfold updateGrid
  split
  · exact .refl s
  · exact ⟨.refl _, rfl, rfl, rfl⟩

theorem undisturbed_updateViewport (updates : Table Value) : Undisturbed s (s.updateViewport updates).2 := by
  unfold updateViewport
  split
  · exact ⟨.refl _, rfl, rfl, rfl⟩
  · split_ifs <;> exact ⟨.refl _, rfl, rfl, rfl⟩

theorem undisturbed_updateBox (x y : Value) : Undisturbed s (s.updateBox x y) := by
  unfold updateBox
  split_ifs
  · exact ⟨.refl _, rfl, rfl, rfl⟩
  · exact .refl s

end BehaviorTree.Session
