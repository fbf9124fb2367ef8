import BehaviorTree.Proofs.Store.Graph
import BehaviorTree.Proofs.Tree.Moves
import BehaviorTree.Store.Mutate

/-!
Nodes that are moved together. The updates of a batch name each node once, and after it every node of the graph is where it was to be
moved to, with everything else as it was.
-/

set_option autoImplicit false

namespace BehaviorTree

namespace Table

variable {α : Type} {t u : Table α} {a : α} {as : List α} {id : α → String} {k : String}

theorem isKeyed_under (hn : (as.map id).Nodup) : IsKeyed id (under id as) := isKeyed_nil.append_under hn (by simp [keys])

theorem lookup_under (hn : (as.map id).Nodup) : lookup (under id as) k = some a ↔ a ∈ as ∧ id a = k := by
  rw [(isKeyed_under hn).lookup_eq_some, values_under]

theorem keys_overlay_of_subset (h : keys u ⊆ keys t) : keys (overlay t u) = keys t := by
  induction u generalizing t with
  | nil => rfl
  | cons r u ih =>
    rw [keys, List.map_cons, List.cons_subset] at h
    have hkeys : keys (insert t r.1 r.2) = keys t := by rw [keys_insert, if_pos h.1]
    rw [overlay, List.foldl_cons, ← overlay, ih (hkeys ▸ h.2), hkeys]

theorem ext_lookup (hk : keys t = keys u) (hn : (keys t).Nodup) (h : ∀ k, lookup t k = lookup u k) : t = u := by
  induction t generalizing u with
  | nil => exact (List.map_eq_nil_iff.1 hk.symm).symm
  | cons r t ih =>
    obtain ⟨i, a⟩ := r
    cases u with
    | nil => cases hk
    | cons q u =>
      obtain ⟨j, b⟩ := q
      obtain ⟨rfl, hrest⟩ := List.cons.inj hk
      rw [keys, List.map_cons, List.nodup_cons] at hn
      have hfirst := h i
      rw [lookup, lookup, if_pos rfl, if_pos rfl] at hfirst
      obtain rfl := Option.some.inj hfirst
      refine congrArg _ (ih hrest hn.2 fun k => ?_)
      by_cases hik : i = k
      · have hu : i ∉ keys u := fun hmem => hn.1 (hrest.symm ▸ hmem)
        rw [← hik, lookup_eq_none.2 hn.1, lookup_eq_none.2 hu]
      · have hk := h k
        rwa [lookup, lookup, if_neg hik, if_neg hik] at hk

end Table

namespace Store

variable {f : Node → Node} {n : Node} {ns : List Node} {g : Graph} {s : Store} {update : Node → Table Value}

structure LeadsTo (update : Node → Table Value) (f : Node → Node) (n : Node) : Prop where
  names : Value.member (update n) "id" = .text n.id
  merges : Merge.node n (Table.erase (update n) "id") = .ok (f n)

def moveUpdate (f : Node → Node) (n : Node) : Table Value :=
  [("id", .text n.id), ("x", .float (f n).x), ("y", .float (f n).y)]

theorem leadsTo_moveUpdate (hf : IsMove f) (n : Node) : LeadsTo (moveUpdate f) f n where
  names := rfl
  merges := by
    rw [hf.eq n]
    rfl

theorem keys_moved (hf : IsMove f) (ns : List Node) : Table.keys (Table.under Node.id (ns.map f)) = ns.map Node.id := by
  rw [Table.keys_under, hf.map_ids]

theorem stage_moves (hf : IsMove f) (hg : g.IsSound) (hns : ns ⊆ g.nodeList) (hn : (ns.map Node.id).Nodup)
    (hu : ∀ n ∈ ns, LeadsTo update f n) {staged : Table Node} (hnew : ∀ n ∈ ns, n.id ∉ Table.keys staged) :
    stage g staged (ns.map update) = .ok (staged ++ Table.under Node.id (ns.map f)) := by
  induction ns generalizing staged with
  | nil => rw [List.map_nil, List.map_nil, Table.under, List.map_nil, List.append_nil, stage]
  | cons n r ih =>
    rw [List.cons_subset] at hns
    rw [List.map_cons, List.nodup_cons] at hn
    have hfresh : n.id ∉ Table.keys staged := hnew n List.mem_cons_self
    have hbase : base? g staged n.id = some n := by
      rw [base?, Table.lookup_eq_none.2 hfresh, Option.none_or]
      exact hg.node?_eq_some.2 ⟨hns.1, rfl⟩
    have hnext : ∀ m ∈ r, m.id ∉ Table.keys (staged ++ [(n.id, f n)]) := by
      intro m hm hmem
      rw [Table.keys_append, List.mem_append] at hmem
      rcases hmem with hmem | hmem
      · exact hnew m (List.mem_cons_of_mem _ hm) hmem
      · have hid : m.id = n.id := List.mem_singleton.1 hmem
        exact hn.1 (hid ▸ List.mem_map_of_mem hm)
    obtain ⟨hupdate, hrest⟩ := List.forall_mem_cons.1 hu
    rw [List.map_cons, stage]
    simp only [hupdate.names, hbase, hupdate.merges]
    rw [Table.insert_fresh hfresh, ih hns.2 hn.2 hrest hnext, List.append_assoc, List.map_cons, Table.under, Table.under, List.map_cons,
      hf.id]
    rfl

theorem overlay_moves (hf : IsMove f) (hg : g.IsSound) (hns : ns ⊆ g.nodeList) (hn : (ns.map Node.id).Nodup)
    (hrest : ∀ n ∈ g.nodeList, n.id ∉ ns.map Node.id → f n = n) :
    Table.overlay g.nodes (Table.under Node.id (ns.map f)) = Table.mapValues f g.nodes := by
  have hsub : ns.map Node.id ⊆ Table.keys g.nodes := by
    rw [← hg.ids_eq_keys]
    exact List.map_subset _ hns
  have hsame : Table.keys (Table.overlay g.nodes (Table.under Node.id (ns.map f))) = Table.keys g.nodes :=
    Table.keys_overlay_of_subset (keys_moved hf ns ▸ hsub)
  refine Table.ext_lookup (hsame.trans Table.keys_mapValues.symm) (hsame ▸ hg.nodes.nodup) fun k => ?_
  rw [Table.lookup_overlay (keys_moved hf ns ▸ hn), Table.lookup_mapValues]
  by_cases hk : k ∈ ns.map Node.id
  · obtain ⟨n, hmem, rfl⟩ := List.mem_map.1 hk
    have hold : Table.lookup g.nodes n.id = some n := hg.node?_eq_some.2 ⟨hns hmem, rfl⟩
    have hnew : Table.lookup (Table.under Node.id (ns.map f)) n.id = some (f n) :=
      (Table.lookup_under (hf.map_ids ns ▸ hn)).2 ⟨List.mem_map_of_mem hmem, hf.id n⟩
    rw [hold, hnew]
    rfl
  · rw [Table.lookup_eq_none.2 (keys_moved hf ns ▸ hk), Option.none_or]
    cases hold : Table.lookup g.nodes k with
    | none => rfl
    | some n =>
      obtain ⟨hmem, rfl⟩ := hg.node?_eq_some.1 hold
      rw [Option.map_some, hrest n hmem hk]

/-- A batch that moves some nodes succeeds. It moves them, and all other nodes and the connections stay. -/
theorem updateNodes_moves (hf : IsMove f) (hs : s.graph.IsSound) (hns : ns ⊆ s.graph.nodeList) (hn : (ns.map Node.id).Nodup)
    (hu : ∀ n ∈ ns, LeadsTo update f n) (hrest : ∀ n ∈ s.graph.nodeList, n.id ∉ ns.map Node.id → f n = n) :
    (s.updateNodes (ns.map update)).1 = .ok (ns.map Node.id) ∧
      (s.updateNodes (ns.map update)).2.graph = { s.graph with nodes := Table.mapValues f s.graph.nodes } := by
  have hstage : stage s.graph [] (ns.map update) = .ok (Table.under Node.id (ns.map f)) :=
    stage_moves hf hs hns hn hu (by simp [Table.keys])
  have hoverlay := overlay_moves hf hs hns hn hrest
  unfold updateNodes
  rw [hstage]
  cases ns with
  | nil =>
    refine ⟨rfl, ?_⟩
    rw [← hoverlay]
    rfl
  | cons n r => exact ⟨congrArg Except.ok (keys_moved hf (n :: r)), congrArg (fun nodes => { s.graph with nodes := nodes }) hoverlay⟩

end Store

end BehaviorTree
