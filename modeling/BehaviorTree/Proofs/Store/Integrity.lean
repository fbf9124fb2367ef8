import BehaviorTree.Proofs.Events.Journal
import BehaviorTree.Proofs.Store.Acts
import BehaviorTree.Proofs.Store.Loading
import BehaviorTree.Proofs.Store.Operations

/-!
Runs of the store. A store is asked one thing after the other and goes on from where it is, whether it was refused or not. Its graph
stays sound all the time, and so it is in every notification, also in those that are sent while a node is being removed.
-/

set_option autoImplicit false

namespace BehaviorTree

namespace Store

/-- The graph is sound, it was so whenever a notification was sent, and the notifications are those that the journal counts. -/
structure HasIntegrity (s : Store) : Prop where
  graph : s.graph.IsSound
  seen : ∀ n ∈ s.outbox, n.seen.IsSound
  counted : ∀ topic, s.journal.count topic = s.outbox.countP fun n => n.change.topic = topic

variable {s : Store} {g : Graph} {n m : Node} {nodes : Table Node} {id : String}

theorem HasIntegrity.withGraph (h : s.HasIntegrity) (hg : g.IsSound) : HasIntegrity { s with graph := g } :=
  ⟨hg, h.seen, h.counted⟩

theorem HasIntegrity.withIds (h : s.HasIntegrity) (nodeIds connectionIds : IdSequence) :
    HasIntegrity { s with nodeIds := nodeIds, connectionIds := connectionIds } :=
  ⟨h.graph, h.seen, h.counted⟩

theorem HasIntegrity.emit (h : s.HasIntegrity) (c : Change) : (s.emit c).HasIntegrity where
  graph := h.graph
  seen n hn := by
    rcases List.mem_append.1 hn with hn | hn
    · exact h.seen n hn
    · obtain rfl := List.mem_singleton.1 hn
      exact h.graph
  counted topic := by
    have hcount := Journal.count_record s.journal c.event topic
    rw [h.counted topic] at hcount
    rw [Store.emit, hcount, List.countP_append]
    by_cases ht : c.topic = topic <;> simp [ht, Change.event]

theorem HasIntegrity.rewritten (h : s.HasIntegrity)
    (hids : Table.mapValues Node.id nodes = Table.mapValues Node.id s.graph.nodes) : (s.withNodes nodes).HasIntegrity :=
  h.withGraph (h.graph.of_same_ids hids)

theorem HasIntegrity.updateNode (h : s.HasIntegrity) (id : String) (updates : Table Value) :
    (s.updateNode id updates).2.HasIntegrity := by
  unfold Store.updateNode
  split
  · exact h
  · rename_i n hn
    split
    · exact h
    · rename_i m hm
      exact (h.rewritten (alike_insert hn (Merge.node_id hm))).emit _

theorem HasIntegrity.updateNodeWith (h : s.HasIntegrity) (id : String) (updates : Value) :
    (s.updateNodeWith id updates).2.HasIntegrity := by
  unfold Store.updateNodeWith
  split
  · exact h
  · split
    · exact h
    · exact h.updateNode id _

theorem HasIntegrity.moveNode (h : s.HasIntegrity) (id : String) (x y : Value) : (s.moveNode id x y).2.HasIntegrity := by
  unfold Store.moveNode
  split
  · exact h
  · rename_i n hn
    split
    · exact h
    · rename_i m hm
      exact (h.rewritten (alike_insert hn (congrArg Node.Kind.id (kind_placed hm)))).emit _

theorem HasIntegrity.updateNodes (h : s.HasIntegrity) (updates : List (Table Value)) :
    (s.updateNodes updates).2.HasIntegrity := by
  unfold Store.updateNodes
  split
  · exact h
  · exact h
  · rename_i staged _ hstaged
    have hstands : Stands Node.id s.graph staged :=
      stands_of_stage (fun _ _ _ _ hm => Merge.node_id hm) (fun r hr => absurd hr List.not_mem_nil) hstaged
    exact (h.rewritten (alike_overlay hstands)).emit _

theorem HasIntegrity.updateNodesWith (h : s.HasIntegrity) (updates : Value) :
    (s.updateNodesWith updates).2.HasIntegrity := by
  unfold Store.updateNodesWith
  split
  · exact h
  · exact h.updateNodes _
  · exact h

theorem HasIntegrity.addNode (h : s.HasIntegrity) (n : Node) : (s.addNode n).2.HasIntegrity := by
  unfold Store.addNode
  split_ifs with hthere
  · exact h
  · have hfresh : n.id ∉ Table.keys s.graph.nodes := fun hmem => hthere (Table.holds_iff.2 hmem)
    rw [Table.insert_fresh hfresh]
    exact (h.withGraph (h.graph.addNode hfresh)).emit _

theorem HasIntegrity.addConnection (h : s.HasIntegrity) (c : Connection) : (s.addConnection c).2.HasIntegrity := by
  unfold Store.addConnection
  split_ifs with hthere
  · exact h
  · split
    · rename_i hends
      have hfresh : c.id ∉ Table.keys s.graph.connections := fun hmem => hthere (Table.holds_iff.2 hmem)
      have hboth : c.source ∈ s.graph.ids ∧ c.target ∈ s.graph.ids := by
        rw [h.graph.ids_eq_keys]
        simpa [List.filter_eq_nil_iff, Graph.hasNode, Table.holds_iff] using hends
      have hadded : (s.graph.addConnections [c]).IsSound :=
        h.graph.addConnections (by simp) (by simpa using hfresh) (by simpa using hboth)
      rw [Table.insert_fresh hfresh]
      exact (h.withGraph hadded).emit _
    · exact h

theorem HasIntegrity.removeConnection (h : s.HasIntegrity) (id : String) : (s.removeConnection id).2.HasIntegrity := by
  unfold Store.removeConnection
  split
  · exact h
  · rw [Table.erase_eq_filter h.graph.connections.nodup]
    exact (h.withGraph h.graph.withoutConnection).emit _

theorem HasIntegrity.removeConnections (h : s.HasIntegrity) (ids : List String) : (s.removeConnections ids).HasIntegrity := by
  induction ids generalizing s with
  | nil => exact h
  | cons id r ih => exact ih (h.removeConnection id)

theorem HasIntegrity.removeNode (h : s.HasIntegrity) (id : String) : (s.removeNode id).2.HasIntegrity := by
  have hcontent : (s.removeNode id).2.graph = s.graph.without id := graph_removeNode h.graph id
  unfold Store.removeNode at hcontent ⊢
  split
  · exact h
  · rename_i n hn
    rw [hn] at hcontent
    have hless := h.removeConnections ((s.graph.touching id).map Connection.id)
    generalize s.removeConnections _ = t at hless hcontent ⊢
    have hgraph : (⟨Table.erase t.graph.nodes id, t.graph.connections⟩ : Graph) = s.graph.without id := hcontent
    exact (hless.withGraph (hgraph ▸ h.graph.without)).emit _

theorem HasIntegrity.load (h : s.HasIntegrity) (nodes : List Node) (connections : List Connection)
    (nextNode nextConnection : Int) (notify : Bool) :
    (s.load nodes connections nextNode nextConnection notify).2.HasIntegrity := by
  unfold Store.load
  split
  · exact h
  · rename_i g hg
    have hloaded := (h.withGraph (graphOf_eq_ok hg).1).withIds { s.nodeIds with next := nextNode }
      { s.connectionIds with next := nextConnection }
    dsimp only
    split_ifs
    · exact hloaded.emit _
    · exact hloaded

theorem HasIntegrity.clear (h : s.HasIntegrity) (notify : Bool) : (s.clear notify).HasIntegrity := by
  have hcleared := (h.withGraph Graph.isForest_empty.toIsSound).withIds { s.nodeIds with next := 0 }
    { s.connectionIds with next := 0 }
  unfold Store.clear
  dsimp only
  split_ifs
  · exact hcleared.emit _
  · exact hcleared

theorem HasIntegrity.act {t : Store} (h : s.HasIntegrity) (hst : Act s t) : t.HasIntegrity := by
  cases hst with
  | nothing => exact h
  | issueNodeId => exact h.withIds s.nodeIds.issue.2 s.connectionIds
  | issueConnectionId => exact h.withIds s.nodeIds s.connectionIds.issue.2
  | addNode n => exact h.addNode n
  | removeNode id => exact h.removeNode id
  | updateNode id updates => exact h.updateNodeWith id updates
  | moveNode id x y => exact h.moveNode id x y
  | updateNodes updates => exact h.updateNodesWith updates
  | addConnection c => exact h.addConnection c
  | removeConnection id => exact h.removeConnection id

theorem HasIntegrity.wholeAct {t : Store} (h : s.HasIntegrity) (hst : WholeAct s t) : t.HasIntegrity := by
  cases hst with
  | load nodes connections nextNode nextConnection notify => exact h.load _ _ _ _ _
  | clear notify => exact h.clear notify

theorem HasIntegrity.request (h : s.HasIntegrity) (name : String) (arguments : List Value) :
    (s.request name arguments).2.HasIntegrity := by
  rcases act_request s name arguments with hact | ⟨_, hwhole⟩
  · exact h.act hact
  · exact h.wholeAct hwhole

/-- What a store may be asked: an operation of its own with what it takes, or anything by name. -/
inductive Call where
  | addNode (n : Node)
  | removeNode (id : String)
  | updateNode (id : String) (updates : Value)
  | moveNode (id : String) (x y : Value)
  | updateNodes (updates : Value)
  | addConnection (c : Connection)
  | removeConnection (id : String)
  | load (nodes : List Node) (connections : List Connection) (nextNode nextConnection : Int) (notify : Bool)
  | clear (notify : Bool)
  | request (name : String) (arguments : List Value)

def after (s : Store) : Call → Store
  | .addNode n => (s.addNode n).2
  | .removeNode id => (s.removeNode id).2
  | .updateNode id updates => (s.updateNodeWith id updates).2
  | .moveNode id x y => (s.moveNode id x y).2
  | .updateNodes updates => (s.updateNodesWith updates).2
  | .addConnection c => (s.addConnection c).2
  | .removeConnection id => (s.removeConnection id).2
  | .load nodes connections nextNode nextConnection notify =>
    (s.load nodes connections nextNode nextConnection notify).2
  | .clear notify => s.clear notify
  | .request name arguments => (s.request name arguments).2

def afterAll (s : Store) (cs : List Call) : Store := cs.foldl after s

theorem HasIntegrity.after (h : s.HasIntegrity) (c : Call) : (s.after c).HasIntegrity := by
  cases c with
  | addNode n => exact h.addNode n
  | removeNode id => exact h.removeNode id
  | updateNode id updates => exact h.updateNodeWith id updates
  | moveNode id x y => exact h.moveNode id x y
  | updateNodes updates => exact h.updateNodesWith updates
  | addConnection c => exact h.addConnection c
  | removeConnection id => exact h.removeConnection id
  | load nodes connections nextNode nextConnection notify => exact h.load _ _ _ _ _
  | clear notify => exact h.clear notify
  | request name arguments => exact h.request name arguments

theorem HasIntegrity.afterAll (h : s.HasIntegrity) (cs : List Call) : (s.afterAll cs).HasIntegrity := by
  induction cs generalizing s with
  | nil => exact h
  | cons c r ih => exact ih (h.after c)

/-- A store that holds nothing and has told nobody anything. -/
def empty (capacity : Option Nat) : Store := { journal := { capacity := capacity } }

theorem hasIntegrity_empty (capacity : Option Nat) : (empty capacity).HasIntegrity :=
  ⟨Graph.isForest_empty.toIsSound, fun _ hn => absurd hn List.not_mem_nil, fun _ => rfl⟩

/-- After any run from an empty store every node and every connection stands under its own id, the ids differ, and no connection lacks
an end. The graph that the receivers of any notification saw was such a graph too, and none of the notifications is missing. -/
theorem runs_keep_integrity (capacity : Option Nat) (cs : List Call) :
    let s := (empty capacity).afterAll cs
    s.graph.IsSound ∧ (∀ n ∈ s.outbox, n.seen.IsSound) ∧
      ∀ topic, s.journal.count topic = s.outbox.countP fun n => n.change.topic = topic := by
  have h := (hasIntegrity_empty capacity).afterAll cs
  exact ⟨h.graph, h.seen, h.counted⟩

end Store

end BehaviorTree
