import BehaviorTree.Proofs.Store.Graph
import BehaviorTree.Proofs.Store.Merge
import BehaviorTree.Proofs.Tree.EdgeRules
import BehaviorTree.Store.Mutate

/-!
The steps of editing. Whatever an editing session does to its store comes down to these steps on the graph and the two sequences
of ids. Each of them keeps the graph sound, and each of them keeps it a forest.
-/

set_option autoImplicit false

namespace BehaviorTree

/-- What a store holds, without its journal and its outbox. -/
structure Content where
  graph : Graph
  nodeIds : IdSequence
  connectionIds : IdSequence

def Store.content (s : Store) : Content := ⟨s.graph, s.nodeIds, s.connectionIds⟩

/-- Does a sequence issue these ids, one after the other, all of which can be written, and become the other sequence? -/
def IdSequence.Issues (s : IdSequence) : List String → IdSequence → Prop
  | [], t => t = s
  | id :: r, t => (id = s.issue.1 ∧ s.isExhausted = false) ∧ s.issue.2.Issues r t

namespace Content

def withNodes (k : Content) (nodes : Table Node) : Content := { k with graph := { k.graph with nodes := nodes } }

def withConnections (k : Content) (connections : Table Connection) : Content :=
  { k with graph := { k.graph with connections := connections } }

theorem nodes_withConnections (k : Content) (connections : Table Connection) :
    (k.withConnections connections).graph.nodes = k.graph.nodes := rfl

def Twins (g : Graph) (a x : String) : Prop :=
  ∃ n ∈ g.nodeList, ∃ m ∈ g.nodeList, n.id = a ∧ m.id = x ∧ n.type = m.type ∧ n.category = m.category

inductive Step (lookup : String → String → Option NodeType) : Content → Content → Prop
  | nodeIssued (k : Content) : Step lookup k { k with nodeIds := k.nodeIds.issue.2 }
  | connectionIssued (k : Content) : Step lookup k { k with connectionIds := k.connectionIds.issue.2 }
  /-- The type of a new node is known, or there is a node like it. -/
  | nodeAdded (k : Content) (n : Node) (issued : n.id = k.nodeIds.issue.1) (fresh : n.id ∉ Table.keys k.graph.nodes)
      (typed : (lookup n.type n.category).isSome ∨ ∃ m ∈ k.graph.nodeList, m.type = n.type ∧ m.category = n.category)
      (writable : k.nodeIds.isExhausted = false) :
      Step lookup k { k with graph := k.graph.addNode n, nodeIds := k.nodeIds.issue.2 }
  | nodesChanged (k : Content) (nodes : Table Node)
      (alike : Table.mapValues Node.kind nodes = Table.mapValues Node.kind k.graph.nodes) :
      Step lookup k (k.withNodes nodes)
  | nodeRemoved (k : Content) (id : String) : Step lookup k { k with graph := k.graph.without id }
  | connectionRemoved (k : Content) (id : String) : Step lookup k { k with graph := k.graph.withoutConnection id }
  | connected (k : Content) (source target : String) (fresh : k.connectionIds.issue.1 ∉ Table.keys k.graph.connections)
      (accepted : EdgeRules.check k.graph.nodeList k.graph.connectionList lookup source target = .ok ())
      (writable : k.connectionIds.isExhausted = false) :
      Step lookup k { k with
        graph := k.graph.addConnections [⟨k.connectionIds.issue.1, source, target⟩]
        connectionIds := k.connectionIds.issue.2 }
  /-- Connections are repeated between twins of their ends. -/
  | copied (k : Content) (copy : String → Option String) (ds : List Connection) (connectionIds : IdSequence)
      (copying : IsCopying k.graph.connectionList copy) (twins : ∀ a x, copy a = some x → Twins k.graph a x)
      (copies : CopiedFrom copy k.graph.connectionList ds) (issued : k.connectionIds.Issues (ds.map Connection.id) connectionIds)
      (distinct : (ds.map Connection.id).Nodup) (fresh : ∀ d ∈ ds, d.id ∉ Table.keys k.graph.connections) :
      Step lookup k { k with graph := k.graph.addConnections ds, connectionIds := connectionIds }
  | cleared (k : Content) :
      Step lookup k ⟨{}, { k.nodeIds with next := 0 }, { k.connectionIds with next := 0 }⟩

variable {lookup : String → String → Option NodeType} {k l : Content} {g : Graph} {copy : String → Option String}
  {ds : List Connection}

theorem twins_mem (h : ∀ a x, copy a = some x → Twins g a x) {a x : String} (hx : copy a = some x) : a ∈ g.ids ∧ x ∈ g.ids := by
  obtain ⟨n, hn, m, hm, rfl, rfl, _⟩ := h a x hx
  exact ⟨List.mem_map_of_mem hn, List.mem_map_of_mem hm⟩

theorem kinds_of_alike {nodes : Table Node} (alike : Table.mapValues Node.kind nodes = Table.mapValues Node.kind g.nodes) :
    (Table.values nodes).map Node.kind = (Table.values g.nodes).map Node.kind := by
  rw [← Table.values_mapValues, ← Table.values_mapValues, alike]

theorem ids_of_alike {nodes : Table Node} (alike : Table.mapValues Node.kind nodes = Table.mapValues Node.kind g.nodes) :
    Table.mapValues Node.id nodes = Table.mapValues Node.id g.nodes := by
  have hids := congrArg (Table.mapValues Node.Kind.id) alike
  rwa [Table.mapValues_mapValues, Table.mapValues_mapValues] at hids

theorem Step.isSound (h : Step lookup k l) (hs : k.graph.IsSound) : l.graph.IsSound := by
  cases h with
  | nodeIssued => exact hs
  | connectionIssued => exact hs
  | nodeAdded n issued fresh typed => exact hs.addNode fresh
  | nodesChanged nodes alike => exact hs.of_same_ids (ids_of_alike alike)
  | nodeRemoved id => exact hs.without
  | connectionRemoved id => exact hs.withoutConnection
  | connected source target fresh accepted =>
    obtain ⟨hsource, htarget, _⟩ := (EdgeRules.check_eq_ok hs.ids_nodup).1 accepted
    exact hs.addConnections (by simp) (by simpa using fresh) (by simpa using ⟨hsource, htarget⟩)
  | copied copy ds ids copying twins copies issued distinct fresh =>
    refine hs.addConnections distinct fresh fun d hd => ?_
    obtain ⟨c, _, hsource, htarget⟩ := copies.exists_original hd
    exact ⟨(twins_mem twins hsource).2, (twins_mem twins htarget).2⟩
  | cleared => exact Graph.isForest_empty.toIsSound

/-- Cycles and second parents could come in with new connections only. One that is accepted brings none, and neither do copies. -/
theorem Step.isForest (h : Step lookup k l) (hf : k.graph.IsForest) : l.graph.IsForest := by
  have hl := h.isSound hf.toIsSound
  cases h with
  | nodeIssued => exact hf
  | connectionIssued => exact hf
  | nodeAdded n issued fresh typed => exact hf.of_sublist hl (List.Sublist.refl _)
  | nodesChanged nodes alike => exact hf.of_sublist hl (List.Sublist.refl _)
  | nodeRemoved id =>
    refine hf.of_sublist hl ?_
    rw [Graph.connectionList_without]
    exact List.filter_sublist
  | connectionRemoved id => exact hf.of_sublist hl Graph.connectionList_withoutConnection
  | connected source target fresh accepted =>
    have hconnections := (Graph.isForest_iff.1 hf).2
    have hmore := (EdgeRules.check_eq_ok_of_forest hf.ids_nodup hconnections k.connectionIds.issue.1).1 accepted
    refine Graph.isForest_iff.2 ⟨hl, ?_⟩
    simpa [Graph.ids] using hmore.1
  | copied copy ds ids copying twins copies issued distinct fresh =>
    have hconnections := (Graph.isForest_iff.1 hf).2
    have hmore := hconnections.append_copies copying copies fun a x hx => (twins_mem twins hx).2
    refine Graph.isForest_iff.2 ⟨hl, ?_⟩
    simpa using hmore
  | cleared => exact Graph.isForest_empty

end Content

end BehaviorTree
