import BehaviorTree.Proofs.Tree.Lossless
import BehaviorTree.Proofs.Value.FloatOrder

/-!
The trees of a forest. They show the graph as it is: each root has its tree, each node has one place, and below a node stand the
targets of all its connections, from left to right and, at equal x, in the order of the connections.
-/

set_option autoImplicit false

namespace BehaviorTree

variable {nodes : List Node} {cs : List Connection} {n m : Node} {a : String}

namespace Tree

mutual

def parts : Tree → List Tree
  | .branch n cs => .branch n cs :: partsAll cs

def partsAll : List Tree → List Tree
  | [] => []
  | t :: r => t.parts ++ partsAll r

end

mutual

theorem parts_node (t : Tree) : t.parts.map node = t.walk := by
  cases t with
  | branch n cs => rw [parts, walk, List.map_cons, node, partsAll_node cs]

theorem partsAll_node (ts : List Tree) : (partsAll ts).map node = walkAll ts := by
  cases ts with
  | nil => rfl
  | cons t r => rw [partsAll, walkAll, List.map_append, parts_node t, partsAll_node r]

end

theorem partsAll_cons (t : Tree) (ts : List Tree) : partsAll (t :: ts) = t :: (partsAll t.children ++ partsAll ts) := by
  obtain ⟨n, cs⟩ := t
  rw [partsAll, parts, children, List.cons_append]

theorem length_walkAll (ts : List Tree) : (walkAll ts).length = (ts.map count).sum := by
  induction ts with
  | nil => rfl
  | cons t r ih => rw [walkAll, List.length_append, ih, List.map_cons, List.sum_cons, count]

mutual

theorem exists_part_of_edges (t : Tree) {e : String × String} (h : e ∈ t.edges) :
    ∃ p ∈ t.parts, ∃ c ∈ p.children, e = (p.node.id, c.node.id) := by
  obtain ⟨n, cs⟩ := t
  rw [edges, mem_edgesBelow] at h
  rcases h with ⟨c, hc, rfl⟩ | h
  · exact ⟨.branch n cs, List.mem_cons_self, c, hc, rfl⟩
  · obtain ⟨p, hp, hc⟩ := exists_part_of_edgesAll cs h
    exact ⟨p, List.mem_cons_of_mem _ hp, hc⟩

theorem exists_part_of_edgesAll (ts : List Tree) {e : String × String} (h : e ∈ edgesAll ts) :
    ∃ p ∈ partsAll ts, ∃ c ∈ p.children, e = (p.node.id, c.node.id) := by
  cases ts with
  | nil => simp at h
  | cons t r =>
    rw [edgesAll_cons, List.mem_append] at h
    rcases h with h | h
    · obtain ⟨p, hp, hc⟩ := exists_part_of_edges t h
      exact ⟨p, List.mem_append_left _ hp, hc⟩
    · obtain ⟨p, hp, hc⟩ := exists_part_of_edgesAll r h
      exact ⟨p, List.mem_append_right _ hp, hc⟩

end

end Tree

namespace Hierarchy

open BehaviorTree.Tree

variable {successors : String → List Node} {placed after : List String} {own rest : List Node} {ts : List Tree} {t u v : Tree}

theorem claim_sublist : (claim placed rest).1.Sublist rest := by
  induction rest generalizing placed with
  | nil => simp [claim]
  | cons n r ih =>
    rw [claim]
    split_ifs
    · exact ih.cons n
    · exact ih.cons_cons n

theorem Grown.children_sublist (h : Grown successors own placed ts after) (ht : t ∈ partsAll ts) :
    (t.children.map Tree.node).Sublist (successors t.node.id) := by
  induction h with
  | nil => simp [partsAll] at ht
  | @cons n own placed before after kids ts rest below ih ih' =>
    rw [partsAll_cons, List.mem_cons, List.mem_append] at ht
    rcases ht with rfl | ht | ht
    · rw [Tree.children, below.nodes]
      exact claim_sublist
    · exact ih' ht
    · exact ih ht

theorem GrownAll.children_sublist (h : GrownAll successors own placed ts) (ht : t ∈ partsAll ts) :
    (t.children.map Tree.node).Sublist (successors t.node.id) := by
  induction h with
  | nil => simp [partsAll] at ht
  | @cons n r placed after t' ts fresh tree rest ih =>
    rw [partsAll, List.mem_append] at ht
    rcases ht with ht | ht
    · exact tree.children_sublist (by simpa [partsAll] using ht)
    · exact ih ht

def targets (nodes : List Node) (cs : List Connection) (a : String) : List Node :=
  cs.filterMap fun c => if c.source = a then find? nodes c.target else none

theorem successors_eq (nodes : List Node) (cs : List Connection) (a : String) :
    Hierarchy.successors nodes cs a = (targets nodes cs a).mergeSort fun n m => decide (n.x ≤ m.x) := rfl

theorem targets_id (he : ∀ c ∈ cs, c.target ∈ nodes.map Node.id) :
    (targets nodes cs a).map Node.id = (outgoing cs a).map Connection.target := by
  induction cs with
  | nil => rfl
  | cons c r ih =>
    obtain ⟨n, hn⟩ := Option.isSome_iff_exists.1 ((find?_isSome nodes c.target).2 (he c List.mem_cons_self))
    have hid := (find?_mem hn).2
    have hr := ih fun d hd => he d (List.mem_cons_of_mem _ hd)
    unfold targets outgoing at hr ⊢
    by_cases hs : c.source = a
    · simp only [List.filterMap_cons, List.filter_cons, hs, if_true, hn, List.map_cons, hid, hr, decide_true]
    · simp only [List.filterMap_cons, List.filter_cons, hs, if_false, hr, decide_false, Bool.false_eq_true]

theorem mem_of_mem_targets (h : n ∈ targets nodes cs a) : n ∈ nodes := by
  obtain ⟨c, -, hc⟩ := List.mem_filterMap.1 h
  split_ifs at hc
  exact (find?_mem hc).1

theorem mem_of_mem_successors (h : n ∈ Hierarchy.successors nodes cs a) : n ∈ nodes :=
  mem_of_mem_targets (List.mem_mergeSort.1 h)

def isLeftOf (n m : Node) : Bool := decide (floatRank n.x.toModel.unpack ≤ floatRank m.x.toModel.unpack)

theorem isLeftOf_trans (n m k : Node) (hnm : isLeftOf n m) (hmk : isLeftOf m k) : isLeftOf n k :=
  decide_eq_true ((of_decide_eq_true hnm).trans (of_decide_eq_true hmk))

theorem isLeftOf_total (n m : Node) : isLeftOf n m || isLeftOf m n := by
  rw [Bool.or_eq_true, isLeftOf, isLeftOf, decide_eq_true_iff, decide_eq_true_iff]
  exact le_total _ _

theorem isLeftOf_iff (hn : n.x.isNaN = false) (hm : m.x.isNaN = false) : isLeftOf n m ↔ n.x ≤ m.x := by
  rw [float_le_iff hn hm]
  exact decide_eq_true_iff

theorem successors_eq_sorted (hx : ∀ n ∈ nodes, n.x.isNaN = false) :
    Hierarchy.successors nodes cs a = (targets nodes cs a).mergeSort isLeftOf := by
  have hsame := List.map_mergeSort (f := id) (l := targets nodes cs a) (r := fun n m => decide (n.x ≤ m.x)) (s := isLeftOf)
    fun n hn m hm => by
      rw [Bool.eq_iff_iff, decide_eq_true_iff]
      exact (isLeftOf_iff (hx n (mem_of_mem_targets hn)) (hx m (mem_of_mem_targets hm))).symm
  rwa [List.map_id, List.map_id] at hsame

theorem successors_sorted (hx : ∀ n ∈ nodes, n.x.isNaN = false) :
    (Hierarchy.successors nodes cs a).Pairwise fun n m => n.x ≤ m.x := by
  have hleft : (Hierarchy.successors nodes cs a).Pairwise fun n m => isLeftOf n m := by
    rw [successors_eq_sorted hx]
    exact List.pairwise_mergeSort isLeftOf_trans isLeftOf_total _
  exact hleft.imp_of_mem fun hn hm h =>
    (isLeftOf_iff (hx _ (mem_of_mem_successors hn)) (hx _ (mem_of_mem_successors hm))).1 h

theorem successors_stable (hx : ∀ n ∈ nodes, n.x.isNaN = false) (h : [n, m].Sublist (targets nodes cs a)) (hle : n.x ≤ m.x) :
    [n, m].Sublist (Hierarchy.successors nodes cs a) := by
  have hn : n ∈ targets nodes cs a := h.subset List.mem_cons_self
  have hm : m ∈ targets nodes cs a := h.subset (List.mem_cons_of_mem _ List.mem_cons_self)
  rw [successors_eq_sorted hx]
  have hleft := (isLeftOf_iff (hx n (mem_of_mem_targets hn)) (hx m (mem_of_mem_targets hm))).2 hle
  exact List.pair_sublist_mergeSort isLeftOf_trans isLeftOf_total hleft h

theorem sublist_targets (hn : (nodes.map Node.id).Nodup) (he : ∀ c ∈ cs, c.target ∈ nodes.map Node.id) (hmn : n ∈ nodes)
    (hmm : m ∈ nodes) (h : [n.id, m.id].Sublist ((outgoing cs a).map Connection.target)) :
    [n, m].Sublist (targets nodes cs a) := by
  rw [← targets_id he] at h
  obtain ⟨l, hl, hids⟩ := List.sublist_map_iff.1 h
  obtain ⟨n', l, rfl, hn', htail⟩ := List.map_eq_cons_iff.1 hids.symm
  obtain ⟨m', l, rfl, hm', hnil⟩ := List.map_eq_cons_iff.1 htail
  obtain rfl := List.map_eq_nil_iff.1 hnil
  have hmem : ∀ k ∈ [n', m'], k ∈ nodes := fun k hk => mem_of_mem_targets (hl.subset hk)
  obtain rfl := List.inj_on_of_nodup_map hn (hmem n' (by simp)) hmn hn'
  obtain rfl := List.inj_on_of_nodup_map hn (hmem m' (by simp)) hmm hm'
  exact hl

variable {t : Tree}

theorem noted_eq (ha : a ∈ nodes.map Node.id) : noted nodes cs a = Hierarchy.successors nodes cs a := by
  have hrows : ((sources nodes cs).map fun n => (n.id, Hierarchy.successors nodes cs n.id)) =
      ((sources nodes cs).map Node.id).map fun k => (k, Hierarchy.successors nodes cs k) := by
    rw [List.map_map]
    rfl
  rw [noted, hrows, Table.lookup_map_key]
  split_ifs with hs
  · rfl
  · have hnone : targets nodes cs a = [] := List.filterMap_eq_nil_iff.2 fun c hc =>
      if_neg fun hca => hs (mem_sources.2 ⟨ha, c, hc, hca⟩)
    rw [successors_eq, hnone, List.mergeSort_nil, Option.getD_none]

/-- Below a node of a forest stand all its successors, since each of them has its place and has it there. -/
theorem children_eq (hn : (nodes.map Node.id).Nodup) (hf : IsForest (nodes.map Node.id) cs)
    (ht : t ∈ partsAll (forest nodes cs)) : t.children.map Tree.node = Hierarchy.successors nodes cs t.node.id := by
  have hspans : Spans nodes cs (forest nodes cs) := forest_spans hn
  have hplaced := placed_of_acyclic hn (fun c hc => (hf.ends c hc).1) hf.acyclic
  have hsource : OneSource cs := fun c hc d hd h => by rw [List.inj_on_of_nodup_map hf.oneParent hc hd h]
  have hids : ((partsAll (forest nodes cs)).map fun p => p.node.id).Nodup := by
    have hnodup := hspans.nodup
    rwa [← partsAll_node, List.map_map] at hnodup
  have hnode : t.node ∈ nodes := hspans.mem (partsAll_node _ ▸ List.mem_map_of_mem ht)
  have hsub := (forest_grown hn).children_sublist ht
  rw [noted_eq (List.mem_map_of_mem hnode)] at hsub
  have hnodup : (Hierarchy.successors nodes cs t.node.id).Nodup := by
    have htargets : ((targets nodes cs t.node.id).map Node.id).Nodup := by
      rw [targets_id fun c hc => (hf.ends c hc).2]
      exact hf.oneParent.sublist (List.filter_sublist.map _)
    exact (List.mergeSort_perm _ _).nodup_iff.2 htargets.of_map
  -- No successor is missing: it stands below the source of some connection to it, and there is only one such node.
  refine hsub.eq_of_length_le (hnodup.subperm fun m hm => ?_).length_le
  obtain ⟨hmem, c, hc, hcs, hct⟩ := (mem_successors hn).1 hm
  have hedge := mem_edges_of_placed hn hsource hc (hplaced _ (hf.ends c hc).2)
  obtain ⟨p, hp, u, hu, he⟩ := exists_part_of_edgesAll _ hedge
  obtain ⟨hps, hut⟩ := Prod.mk.inj he
  have hpt : p = t := List.inj_on_of_nodup_map hids hp ht (hps.symm.trans hcs)
  subst hpt
  have hun : u.node ∈ p.children.map Tree.node := List.mem_map_of_mem hu
  rwa [List.inj_on_of_nodup_map hn (mem_of_mem_successors (hsub.subset hun)) hmem (hut.symm.trans hct)] at hun

/-- Do trees show a graph as it is? Each node that is no target is the root of a tree, each node has one place, and the children of a
node are the targets of its connections, by ascending x. Two children that are connected in an order that x does not forbid, as at
equal x, keep that order. -/
structure Shows (nodes : List Node) (cs : List Connection) (ts : List Tree) : Prop where
  roots : ts.map Tree.node = nodes.filter fun n => ∀ c ∈ cs, c.target ≠ n.id
  once : (walkAll ts).Perm nodes
  children : ∀ t ∈ partsAll ts, (t.children.map fun u => u.node.id).Perm ((outgoing cs t.node.id).map Connection.target)
  sorted : ∀ t ∈ partsAll ts, t.children.Pairwise fun u v => u.node.x ≤ v.node.x
  stable : ∀ t ∈ partsAll ts, ∀ n ∈ nodes, ∀ m ∈ nodes, n.x ≤ m.x →
    [n.id, m.id].Sublist ((outgoing cs t.node.id).map Connection.target) → [n, m].Sublist (t.children.map Tree.node)

theorem forest_shows_graph (hn : (nodes.map Node.id).Nodup) (hx : ∀ n ∈ nodes, n.x.isNaN = false)
    (hf : IsForest (nodes.map Node.id) cs) : Shows nodes cs (forest nodes cs) := by
  have hspans : Spans nodes cs (forest nodes cs) := forest_spans hn
  have htarget : ∀ c ∈ cs, c.target ∈ nodes.map Node.id := fun c hc => (hf.ends c hc).2
  refine ⟨hspans.roots.trans (roots_eq_filter nodes cs), ?_, fun t ht => ?_, fun t ht => ?_, fun t ht n hmn m hmm hle h => ?_⟩
  · exact walkAll_perm_of_placed hn (placed_of_acyclic hn (fun c hc => (hf.ends c hc).1) hf.acyclic)
  · have hperm : (t.children.map Tree.node).Perm (targets nodes cs t.node.id) :=
      children_eq hn hf ht ▸ List.mergeSort_perm _ _
    have hids := hperm.map Node.id
    rwa [List.map_map, targets_id htarget] at hids
  · rw [← List.pairwise_map (f := Tree.node) (R := fun n m => n.x ≤ m.x), children_eq hn hf ht]
    exact successors_sorted hx
  · rw [children_eq hn hf ht]
    exact successors_stable hx (sublist_targets hn htarget hmn hmm h) hle

/-- The trees of a forest show it as it is. Their counts add up to the number of nodes, and with a single root there is a single tree,
with all nodes. -/
theorem forest_exact (hn : (nodes.map Node.id).Nodup) (hx : ∀ n ∈ nodes, n.x.isNaN = false)
    (hf : IsForest (nodes.map Node.id) cs) :
    Shows nodes cs (forest nodes cs) ∧ ((forest nodes cs).map Tree.count).sum = nodes.length ∧
      ∀ root, Hierarchy.roots nodes cs = [root] →
        ∃ t, forest nodes cs = [t] ∧ t.node = root ∧ t.walk.Perm nodes := by
  have hshows : Shows nodes cs (forest nodes cs) := forest_shows_graph hn hx hf
  refine ⟨hshows, ?_, fun root hroot => ?_⟩
  · rw [← length_walkAll, hshows.once.length_eq]
  · have hone : (forest nodes cs).map Tree.node = [root] := (forest_spans hn).roots.trans hroot
    obtain ⟨t, ht, hnode⟩ := List.map_eq_singleton_iff.1 hone
    have hwalk := hshows.once
    rw [ht, walkAll, walkAll, List.append_nil] at hwalk
    exact ⟨t, ht, hnode, hwalk⟩

def fanNodes : List Node :=
  [⟨"b", "AlwaysSuccess", "action", "", 5.0, 0.0, []⟩, ⟨"r", "Sequence", "composite", "", 0.0, 0.0, []⟩,
    ⟨"a", "AlwaysSuccess", "action", "", 5.0, 0.0, []⟩, ⟨"c", "AlwaysSuccess", "action", "", -1.5, 0.0, []⟩]

def fanConnections : List Connection := [⟨"c1", "r", "a"⟩, ⟨"c2", "r", "b"⟩, ⟨"c3", "r", "c"⟩]

theorem fan_successors : (Hierarchy.successors fanNodes fanConnections "r").map Node.id = ["c", "a", "b"] := by
  have htargets : targets fanNodes fanConnections "r" = [fanNodes[2], fanNodes[0], fanNodes[3]] := rfl
  have hab : fanNodes[2].x ≤ fanNodes[0].x := by decide
  have hac : ¬ fanNodes[2].x ≤ fanNodes[3].x := by decide
  rw [successors_eq, htargets]
  simpa [List.mergeSort, hab, hac] using (⟨rfl, rfl, rfl⟩ : fanNodes[3].id = "c" ∧ fanNodes[2].id = "a" ∧ fanNodes[0].id = "b")

/-- The child that is furthest left comes first, and the two at the same x come in the order of their connections. -/
theorem fan_exact : (fanNodes.map Node.id).Nodup ∧ (∀ n ∈ fanNodes, n.x.isNaN = false) ∧
    IsForest (fanNodes.map Node.id) fanConnections ∧ Shows fanNodes fanConnections (forest fanNodes fanConnections) ∧
    ∃ t, forest fanNodes fanConnections = [t] ∧ t.walk.Perm fanNodes ∧
      t.children.map (fun u => u.node.id) = ["c", "a", "b"] := by
  have hn : (fanNodes.map Node.id).Nodup := by decide
  have hx : ∀ n ∈ fanNodes, n.x.isNaN = false := by decide +kernel
  have hf : IsForest (fanNodes.map Node.id) fanConnections :=
    ⟨by decide, by decide, Acyclic.of_rank (["r", "a", "b", "c"].idxOf ·) (by decide)⟩
  obtain ⟨hshows, -, hsingle⟩ := forest_exact hn hx hf
  obtain ⟨t, ht, hnode, hwalk⟩ := hsingle fanNodes[1] rfl
  have hchildren := children_eq hn hf (t := t) (by rw [ht, partsAll_cons]; exact List.mem_cons_self)
  have hids := congrArg (List.map Node.id) hchildren
  rw [List.map_map, hnode] at hids
  exact ⟨hn, hx, hf, hshows, t, ht, hwalk, hids.trans fan_successors⟩

end Hierarchy

end BehaviorTree
