import BehaviorTree.Proofs.Store.Step

/-!
What the operations of the store do to its content. Each one that a session uses is a step of editing, whether it fails or not.
-/

set_option autoImplicit false

namespace BehaviorTree.Store

open Content

variable {lookup : String → String → Option NodeType} {s : Store} {n m : Node} {id : String} {β : Type} {f : Node → β}

@[simp] theorem graph_content : s.content.graph = s.graph := rfl

theorem idle (k : Content) : Step lookup k k := .nodesChanged k k.graph.nodes rfl

theorem alike_insert {nodes : Table Node} (h : Table.lookup nodes id = some n) (hf : f m = f n) :
    Table.mapValues f (Table.insert nodes id m) = Table.mapValues f nodes := by
  rw [Table.mapValues_insert, hf]
  exact Table.insert_same (by rw [Table.lookup_mapValues, h, Option.map_some])

theorem step_rewritten (h : s.graph.node? id = some n) (hk : m.kind = n.kind) :
    Step lookup s.content (s.withNodes (Table.insert s.graph.nodes id m)).content :=
  .nodesChanged s.content _ (alike_insert h hk)

theorem step_updateNode {updates : Table Value} (hu : SparesKind updates) :
    Step lookup s.content (s.updateNode id updates).2.content := by
  unfold updateNode
  split
  · exact idle _
  · rename_i n hn
    split
    · exact idle _
    · rename_i m hm
      exact step_rewritten hn (Merge.node_kind hm hu)

theorem kind_placed {x y : Value} (h : placed n x y = .ok m) : m.kind = n.kind := by
  obtain ⟨a, _, h⟩ := bind_eq_ok.1 h
  obtain ⟨b, _, h⟩ := bind_eq_ok.1 h
  obtain rfl := Except.ok.inj h
  rfl

theorem step_moveNode {x y : Value} : Step lookup s.content (s.moveNode id x y).2.content := by
  unfold moveNode
  split
  · exact idle _
  · rename_i n hn
    split
    · exact idle _
    · rename_i m hm
      exact step_rewritten hn (kind_placed hm)

def Stands (f : Node → β) (g : Graph) (staged : Table Node) : Prop :=
  ∀ r ∈ staged, Table.lookup (Table.mapValues f g.nodes) r.1 = some (f r.2)

theorem lookup_of_base {g : Graph} {staged : Table Node} (h : Stands f g staged) (hn : base? g staged id = some n) :
    Table.lookup (Table.mapValues f g.nodes) id = some (f n) := by
  unfold base? at hn
  cases hl : Table.lookup staged id with
  | some m =>
    rw [hl, Option.some_or] at hn
    exact Option.some.inj hn ▸ h _ (Table.mem_of_lookup hl)
  | none =>
    rw [hl, Option.none_or] at hn
    rw [Table.lookup_mapValues]
    exact congrArg (Option.map f) hn

theorem stands_of_stage {g : Graph} {us : List (Table Value)} {staged result : Table Node}
    (hu : ∀ u ∈ us, ∀ n m, Merge.node n (Table.erase u "id") = .ok m → f m = f n) (h : Stands f g staged)
    (hr : stage g staged us = .ok result) : Stands f g result := by
  induction us generalizing staged with
  | nil => exact Except.ok.inj hr ▸ h
  | cons u us ih =>
    have hus := fun v hv => hu v (List.mem_cons_of_mem _ hv)
    unfold stage at hr
    split at hr
    · rename_i id hid
      split at hr
      · exact ih hus h hr
      · rename_i n hn
        split at hr
        · cases hr
        · rename_i m hm
          refine ih hus (fun r hmem => ?_) hr
          rcases Table.mem_of_mem_insert hmem with hmem | rfl
          · exact h r hmem
          · rw [lookup_of_base h hn, hu u List.mem_cons_self n m hm]
    · split at hr
      · exact ih hus h hr
      · cases hr

theorem alike_overlay {g : Graph} {staged : Table Node} (h : Stands f g staged) :
    Table.mapValues f (Table.overlay g.nodes staged) = Table.mapValues f g.nodes := by
  rw [Table.mapValues_overlay]
  refine Table.overlay_same fun r hr => ?_
  obtain ⟨q, hq, rfl⟩ := List.mem_map.1 hr
  exact h q hq

theorem step_updateNodes {us : List (Table Value)} (hu : ∀ u ∈ us, SparesKind (Table.erase u "id")) :
    Step lookup s.content (s.updateNodes us).2.content := by
  unfold updateNodes
  split
  · exact idle _
  · exact idle _
  · rename_i staged hstaged
    have hkinds := fun u hmem n m (hm : Merge.node n (Table.erase u "id") = .ok m) => Merge.node_kind hm (hu u hmem)
    have hstands := stands_of_stage hkinds (fun r hr => absurd hr List.not_mem_nil) hstaged
    exact .nodesChanged s.content _ (alike_overlay hstands)

theorem issued_eq_ok {ids : IdSequence} (h : issued ids = .ok id) : id = ids.issue.1 := by
  unfold issued at h
  split_ifs at h
  exact (Except.ok.inj h).symm

theorem not_isExhausted_of_issued {ids : IdSequence} (h : issued ids = .ok id) : ids.isExhausted = false := by
  unfold issued at h
  split_ifs at h with hexhausted
  exact Bool.not_eq_true _ ▸ hexhausted

theorem content_addNode (s : Store) (n : Node) :
    (∃ f, s.addNode n = (.error f, s)) ∨
      n.id ∉ Table.keys s.graph.nodes ∧
        ∃ s', s.addNode n = (.ok n.id, s') ∧ s'.content = { s.content with graph := s.graph.addNode n } := by
  unfold addNode
  split_ifs with hthere
  · exact .inl ⟨_, rfl⟩
  · have hfresh : n.id ∉ Table.keys s.graph.nodes := fun hmem => hthere (Table.holds_iff.2 hmem)
    refine .inr ⟨hfresh, _, rfl, ?_⟩
    rw [Table.insert_fresh hfresh]
    rfl

theorem step_addNode (hid : n.id = s.nodeIds.issue.1) (hw : s.nodeIds.isExhausted = false)
    (ht : (lookup n.type n.category).isSome ∨ ∃ m ∈ s.graph.nodeList, m.type = n.type ∧ m.category = n.category) :
    Step lookup s.content (s.issueNodeId.2.addNode n).2.content := by
  rcases content_addNode s.issueNodeId.2 n with ⟨f, h⟩ | ⟨hfresh, s', h, hcontent⟩
  · rw [h]
    exact .nodeIssued s.content
  · rw [h, hcontent]
    exact .nodeAdded s.content n hid hfresh ht hw

theorem content_addConnection (s : Store) (c : Connection) :
    (∃ f, s.addConnection c = (.error f, s)) ∨
      c.id ∉ Table.keys s.graph.connections ∧
        ∃ s', s.addConnection c = (.ok c.id, s') ∧ s'.content = { s.content with graph := s.graph.addConnections [c] } := by
  unfold addConnection
  split_ifs with hthere
  · exact .inl ⟨_, rfl⟩
  · have hfresh : c.id ∉ Table.keys s.graph.connections := fun hmem => hthere (Table.holds_iff.2 hmem)
    split
    · refine .inr ⟨hfresh, _, rfl, ?_⟩
      rw [Table.insert_fresh hfresh]
      rfl
    · exact .inl ⟨_, rfl⟩

theorem content_removeConnection (s : Store) (id : String) :
    (s.removeConnection id).2.content = Content.withConnections s.content (Table.erase s.content.graph.connections id) := by
  unfold removeConnection
  split
  · rename_i hnone
    have hmem : id ∉ Table.keys s.content.graph.connections := Table.lookup_eq_none.1 hnone
    rw [Table.erase_of_notMem hmem]
    rfl
  · rfl

theorem step_removeConnection (hs : s.graph.IsSound) : Step lookup s.content (s.removeConnection id).2.content := by
  rw [content_removeConnection, graph_content, Table.erase_eq_filter hs.connections.nodup]
  exact .connectionRemoved s.content id

theorem content_removeConnections (doomed : List String) (hn : (Table.keys s.content.graph.connections).Nodup) :
    (s.removeConnections doomed).content =
      Content.withConnections s.content (s.content.graph.connections.filter fun r => r.1 ∉ doomed) := by
  induction doomed generalizing s with
  | nil =>
    have hall : (s.content.graph.connections.filter fun r => r.1 ∉ ([] : List String)) = s.content.graph.connections := by simp
    rw [hall]
    rfl
  | cons id r ih =>
    have hone := content_removeConnection s id
    rw [Table.erase_eq_filter hn] at hone
    have hless : (Table.keys (s.removeConnection id).2.content.graph.connections).Nodup := by
      rw [hone]
      exact hn.sublist (List.filter_sublist.map _)
    rw [removeConnections, ih hless, hone]
    simp only [Content.withConnections, List.filter_filter]
    congr 2
    exact List.filter_congr fun q _ => by simp [Bool.and_comm]

theorem filter_touching (hs : s.graph.IsSound) :
    (s.graph.connections.filter fun r => r.1 ∉ (s.graph.touching id).map Connection.id) =
      s.graph.connections.filter fun r => !(r.2.source = id || r.2.target = id) := by
  refine List.filter_congr fun r hr => ?_
  have hmem : r.1 ∈ (s.graph.touching id).map Connection.id ↔ (r.2.source = id ∨ r.2.target = id) := by
    constructor
    · intro h
      obtain ⟨c, hc, hid⟩ := List.mem_map.1 h
      obtain ⟨hc, ht⟩ := List.mem_filter.1 hc
      have hr' := hs.connections.own r hr
      have hsame := List.inj_on_of_nodup_map hs.connections.values_nodup hc (List.mem_map_of_mem hr) (hid.trans hr'.symm)
      rw [← hsame]
      simpa using ht
    · intro h
      rw [← hs.connections.own r hr]
      exact List.mem_map_of_mem (List.mem_filter.2 ⟨List.mem_map_of_mem hr, by simpa using h⟩)
  simp [hmem]

theorem content_removeNode (hs : s.graph.IsSound) :
    (s.removeNode id).2.content = { s.content with graph := s.graph.without id } := by
  unfold removeNode
  split
  · rename_i hnone
    rw [hs.without_of_notMem (Table.lookup_eq_none.1 hnone)]
    rfl
  · rename_i n _
    have hconnections := content_removeConnections ((s.graph.touching id).map Connection.id) hs.connections.nodup
    rw [graph_content, filter_touching hs] at hconnections
    generalize s.removeConnections _ = t at hconnections ⊢
    have ht : ((t.withNodes (Table.erase t.graph.nodes id)).emit (.nodeDeleted n)).content =
        Content.withNodes t.content (Table.erase t.content.graph.nodes id) := rfl
    rw [ht, hconnections, nodes_withConnections, graph_content, Table.erase_eq_filter hs.nodes.nodup]
    rfl

theorem graph_removeNode (hs : s.graph.IsSound) (id : String) : (s.removeNode id).2.graph = s.graph.without id :=
  congrArg Content.graph (content_removeNode hs)

theorem step_removeNode (hs : s.graph.IsSound) : Step lookup s.content (s.removeNode id).2.content := by
  rw [content_removeNode hs]
  exact .nodeRemoved s.content id

end BehaviorTree.Store
