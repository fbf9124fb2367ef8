import BehaviorTree.Proofs.Session.Calls
import BehaviorTree.Proofs.Store.Integrity

/-!
Sound sessions. The graph of a session stays sound whatever it is asked: by what the session does itself, by what goes to its store
directly, and by every document that it takes over. What its store has told of before has no part in that.
-/

set_option autoImplicit false

namespace BehaviorTree

namespace Store

variable {s t : Store}

/-- The store as if nothing had been told of it yet. -/
def silent (s : Store) : Store := { s with journal := {}, outbox := [] }

theorem hasIntegrity_silent (h : s.graph.IsSound) : s.silent.HasIntegrity :=
  ⟨h, fun _ hn => absurd hn List.not_mem_nil, fun _ => rfl⟩

theorem graph_silent (s : Store) : s.silent.graph = s.graph := rfl

theorem graph_addNode_silent (s : Store) (n : Node) : (s.silent.addNode n).2.graph = (s.addNode n).2.graph := by
  unfold addNode
  rw [graph_silent]
  split_ifs <;> rfl

theorem graph_updateNode_silent (s : Store) (id : String) (updates : Table Value) :
    (s.silent.updateNode id updates).2.graph = (s.updateNode id updates).2.graph := by
  unfold updateNode
  rw [graph_silent]
  split
  · rfl
  · split <;> rfl

theorem graph_updateNodeWith_silent (s : Store) (id : String) (updates : Value) :
    (s.silent.updateNodeWith id updates).2.graph = (s.updateNodeWith id updates).2.graph := by
  unfold updateNodeWith
  rw [graph_silent]
  split
  · rfl
  · split
    · rfl
    · exact graph_updateNode_silent s id _

theorem graph_moveNode_silent (s : Store) (id : String) (x y : Value) :
    (s.silent.moveNode id x y).2.graph = (s.moveNode id x y).2.graph := by
  unfold moveNode
  rw [graph_silent]
  split
  · rfl
  · split <;> rfl

theorem graph_updateNodes_silent (s : Store) (updates : List (Table Value)) :
    (s.silent.updateNodes updates).2.graph = (s.updateNodes updates).2.graph := by
  unfold updateNodes
  rw [graph_silent]
  split <;> rfl

theorem graph_updateNodesWith_silent (s : Store) (updates : Value) :
    (s.silent.updateNodesWith updates).2.graph = (s.updateNodesWith updates).2.graph := by
  unfold updateNodesWith
  split
  · rfl
  · exact graph_updateNodes_silent s _
  · rfl

theorem graph_addConnection_silent (s : Store) (c : Connection) :
    (s.silent.addConnection c).2.graph = (s.addConnection c).2.graph := by
  unfold addConnection
  rw [graph_silent]
  split_ifs
  · rfl
  · split <;> rfl

theorem graph_removeConnection (h : s.graph.IsSound) (id : String) :
    (s.removeConnection id).2.graph = s.graph.withoutConnection id := by
  have hcontent := congrArg Content.graph (content_removeConnection s id)
  rwa [graph_content, graph_content, Table.erase_eq_filter h.connections.nodup] at hcontent

theorem Act.isSound (h : Act s t) (hs : s.graph.IsSound) : t.graph.IsSound := by
  have hsilent := hasIntegrity_silent hs
  cases h with
  | nothing => exact hs
  | issueNodeId => exact hs
  | issueConnectionId => exact hs
  | addNode n => exact graph_addNode_silent s n ▸ (hsilent.addNode n).graph
  | removeNode id => exact graph_removeNode hs id ▸ hs.without
  | updateNode id updates => exact graph_updateNodeWith_silent s id updates ▸ (hsilent.updateNodeWith id updates).graph
  | moveNode id x y => exact graph_moveNode_silent s id x y ▸ (hsilent.moveNode id x y).graph
  | updateNodes updates => exact graph_updateNodesWith_silent s updates ▸ (hsilent.updateNodesWith updates).graph
  | addConnection c => exact graph_addConnection_silent s c ▸ (hsilent.addConnection c).graph
  | removeConnection id => exact graph_removeConnection hs id ▸ hs.withoutConnection

theorem WholeAct.isSound (h : WholeAct s t) (hs : s.graph.IsSound) : t.graph.IsSound := by
  cases h with
  | load nodes connections nextNode nextConnection notify =>
    unfold Store.load
    split
    · exact hs
    · rename_i g hg
      cases notify <;> exact (graphOf_eq_ok hg).1
  | clear notify => cases notify <;> exact Graph.isForest_empty.toIsSound

theorem isSound_request (hs : s.graph.IsSound) (name : String) (arguments : List Value) :
    (s.request name arguments).2.graph.IsSound := by
  rcases act_request s name arguments with hact | ⟨_, hwhole⟩
  · exact hact.isSound hs
  · exact hwhole.isSound hs

end Store

namespace Session

variable {s : Session}

theorem isSound_apply (hs : s.graph.IsSound) (l : Loaded) : (s.apply l).2.graph.IsSound := by
  rcases apply_cases s l with ⟨f, happly⟩ | ⟨g, t, hg, happly, hcore⟩
  · rw [happly]
    exact hs
  · have hgraph : t.graph = g := congrArg (fun c => c.content.graph) hcore
    rw [happly, hgraph]
    exact (Store.graphOf_eq_ok hg).1

theorem isSound_afterAll (hs : s.graph.IsSound) (cs : List Call) : (s.afterAll cs).graph.IsSound :=
  kept_by_any_calls (P := fun s => s.graph.IsSound) (fun _ _ _ hst hs => (edited_act hst).isSound hs) (fun _ l hs => isSound_apply hs l)
    (fun _ name arguments hs => Store.isSound_request hs name arguments) hs cs

end Session

end BehaviorTree
