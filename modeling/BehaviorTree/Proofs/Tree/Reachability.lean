import BehaviorTree.Proofs.Tree.Extraction

/-!
The nodes that the trees of a graph hold. Whatever the connections are, cycles, second parents and loose ends included, they are the
nodes that ways along connections lead to from the roots. A search with one stack finds the trees, and it comes to an end.
-/

set_option autoImplicit false

namespace BehaviorTree

open Relation

variable {successors other : String → List Node} {nodes : List Node} {cs : List Connection} {n m : Node} {ts : List Tree}
  {own roots : List Node} {placed after : List String}

/-- A search under way: the roots that are still to come, the nodes that wait for their children, the ids that have their places,
and the families found so far, each a node with its children. -/
structure Search where
  roots : List Node
  waiting : List Node
  placed : List String
  families : List (Node × List Node)

/-- One turn of a search. The first node that waits takes the successors without a place for its children, and they wait in front of
the others, the last of them first. When none waits, the next root takes its place. -/
def Search.turn (successors : String → List Node) : Search → Search
  | ⟨roots, n :: waiting, placed, families⟩ =>
    let own := (Hierarchy.claim placed (successors n.id)).1
    ⟨roots, own.reverse ++ waiting, (Hierarchy.claim placed (successors n.id)).2, families ++ [(n, own)]⟩
  | ⟨n :: roots, [], placed, families⟩ => ⟨roots, [n], n.id :: placed, families⟩
  | ⟨[], [], placed, families⟩ => ⟨[], [], placed, families⟩

/-- Does a connection lead from the one node to the other, both of them listed? -/
def Links (nodes : List Node) (cs : List Connection) (n m : Node) : Prop := n ∈ nodes ∧ m ∈ nodes ∧ Leads cs n.id m.id

namespace Tree

def family (t : Tree) : Node × List Node := (t.node, t.children.map node)

end Tree

namespace Hierarchy

open BehaviorTree.Tree

theorem Grown.congr (h : Grown successors own placed ts after) (hsame : ∀ n ∈ walkAll ts, successors n.id = other n.id) :
    Grown other own placed ts after := by
  induction h with
  | nil placed => exact .nil placed
  | @cons n own placed before after kids ts rest below ih ih' =>
    rw [walkAll, walk] at hsame
    have hn : successors n.id = other n.id := hsame n (by simp)
    rw [hn] at below ih'
    exact .cons (ih fun m hm => hsame m (by simp [hm])) (ih' fun m hm => hsame m (by simp [hm]))

theorem GrownAll.congr (h : GrownAll successors roots placed ts) (hsame : ∀ n ∈ walkAll ts, successors n.id = other n.id) :
    GrownAll other roots placed ts := by
  induction h with
  | nil placed => exact .nil placed
  | @cons n r placed after t ts fresh tree rest ih =>
    rw [walkAll_cons] at hsame
    exact .cons fresh (tree.congr fun m hm => hsame m (List.mem_append_left _ hm))
      (ih fun m hm => hsame m (List.mem_append_right _ hm))

theorem Grown.turns (h : Grown successors own placed ts after) (roots waiting : List Node) (families : List (Node × List Node)) :
    ∃ found, (Search.turn successors)^[(walkAll ts).length] ⟨roots, own.reverse ++ waiting, placed, families⟩ =
      ⟨roots, waiting, after, families ++ found⟩ ∧ found.Perm ((partsAll ts).map family) := by
  induction h generalizing waiting families with
  | nil placed => exact ⟨[], by simp [walkAll], by simp [partsAll]⟩
  | @cons n own placed before after kids ts rest below ih ih' =>
    obtain ⟨later, hlater, hlaterPerm⟩ := ih (n :: waiting) families
    let children := (claim before (successors n.id)).1
    obtain ⟨lower, hlower, hlowerPerm⟩ := ih' waiting (families ++ later ++ [(n, children)])
    refine ⟨later ++ (n, children) :: lower, ?_, ?_⟩
    · have hlength : (walkAll (.branch n kids :: ts)).length = (walkAll kids).length + ((walkAll ts).length + 1) := by
        rw [walkAll, walk, List.length_append, List.length_cons]
        omega
      have hstart : (n :: own).reverse ++ waiting = own.reverse ++ n :: waiting := by simp
      rw [hlength, Function.iterate_add_apply, Function.iterate_succ_apply', hstart, hlater]
      simpa [Search.turn] using hlower
    · rw [partsAll_cons, List.map_cons, List.map_append, family, Tree.node, Tree.children, below.nodes]
      exact List.perm_middle.trans ((List.perm_append_comm.trans (hlowerPerm.append hlaterPerm)).cons _)

theorem GrownAll.turns (h : GrownAll successors roots placed ts) (families : List (Node × List Node)) :
    ∃ taken found, (Search.turn successors)^[roots.length + (walkAll ts).length] ⟨roots, [], placed, families⟩ =
      ⟨[], [], taken, families ++ found⟩ ∧ found.Perm ((partsAll ts).map family) := by
  induction h generalizing families with
  | nil placed => exact ⟨placed, [], by simp [walkAll], by simp [partsAll]⟩
  | @cons n r placed after t ts fresh tree rest ih =>
    obtain ⟨first, hfirst, hfirstPerm⟩ := tree.turns r [] families
    obtain ⟨taken, later, hlater, hlaterPerm⟩ := ih (families ++ first)
    refine ⟨taken, first ++ later, ?_, ?_⟩
    · have hlength : (n :: r).length + (walkAll (t :: ts)).length =
          (r.length + (walkAll ts).length) + ((walkAll [t]).length + 1) := by
        rw [walkAll_cons, List.length_append, List.length_cons]
        omega
      have hroot : Search.turn successors ⟨n :: r, [], placed, families⟩ = ⟨r, [n].reverse ++ [], n.id :: placed, families⟩ := rfl
      rw [hlength, Function.iterate_add_apply, Function.iterate_succ_apply, hroot, hfirst, hlater, List.append_assoc]
    · have hparts : partsAll (t :: ts) = partsAll [t] ++ partsAll ts := by simp [partsAll]
      rw [hparts, List.map_append]
      exact hfirstPerm.append hlaterPerm

theorem Grown.reached (h : Grown successors own placed ts after) (hn : n ∈ walkAll ts) :
    ∃ root ∈ own, ReflTransGen (fun a b => b ∈ successors a.id) root n := by
  induction h with
  | nil => simp [walkAll] at hn
  | @cons root own placed before after kids ts rest below ih ih' =>
    rw [walkAll, walk, List.mem_append, List.mem_cons] at hn
    rcases hn with (rfl | hn) | hn
    · exact ⟨n, List.mem_cons_self, .refl⟩
    · obtain ⟨child, hchild, hway⟩ := ih' hn
      exact ⟨root, List.mem_cons_self, .head (claim_mem hchild).1 hway⟩
    · obtain ⟨root, hroot, hway⟩ := ih hn
      exact ⟨root, List.mem_cons_of_mem _ hroot, hway⟩

theorem GrownAll.reached (h : GrownAll successors roots placed ts) (hn : n ∈ walkAll ts) :
    ∃ root ∈ roots, ReflTransGen (fun a b => b ∈ successors a.id) root n := by
  induction h with
  | nil => simp [walkAll] at hn
  | @cons root r placed after t ts fresh tree rest ih =>
    rw [walkAll_cons, List.mem_append] at hn
    rcases hn with hn | hn
    · obtain ⟨only, honly, hway⟩ := tree.reached hn
      obtain rfl := List.mem_singleton.1 honly
      exact ⟨only, List.mem_cons_self, hway⟩
    · obtain ⟨root, hroot, hway⟩ := ih hn
      exact ⟨root, List.mem_cons_of_mem _ hroot, hway⟩

theorem links_of_way (hn : (nodes.map Node.id).Nodup) (hmem : n ∈ nodes)
    (h : ReflTransGen (fun a b => b ∈ noted nodes cs a.id) n m) : ReflTransGen (Links nodes cs) n m ∧ m ∈ nodes := by
  induction h with
  | refl => exact ⟨.refl, hmem⟩
  | tail _ hstep ih =>
    obtain ⟨hlast, _, hleads⟩ := (mem_noted hn).1 hstep
    exact ⟨ih.1.tail ⟨ih.2, hlast, hleads⟩, hlast⟩

theorem Spans.mem_of_links (h : Spans nodes cs ts) (hroot : n ∈ Hierarchy.roots nodes cs) (hway : ReflTransGen (Links nodes cs) n m) :
    m.id ∈ (walkAll ts).map Node.id := by
  induction hway with
  | refl =>
    rw [((walkAll_perm ts).map Node.id).mem_iff, h.roots, List.map_append]
    exact List.mem_append_left _ (List.mem_map_of_mem hroot)
  | tail _ hstep ih => exact h.closed _ _ ih (List.mem_map_of_mem hstep.2.1) hstep.2.2

/-- For any connections between any ids, the search for the trees is over after at most two turns for each node. The trees are those
of the nodes that are the target of no connection, in their order; no node is placed twice; parents and children are listed and
connected; and the placed nodes are those that a way along connections between listed nodes leads to from a root. -/
theorem forest_reaches (nodes : List Node) (cs : List Connection) (hn : (nodes.map Node.id).Nodup) :
    let ts := forest nodes cs
    (∃ count ≤ 2 * nodes.length, ∃ taken families,
      (Search.turn (Hierarchy.successors nodes cs))^[count] ⟨Hierarchy.roots nodes cs, [], [], []⟩ = ⟨[], [], taken, families⟩ ∧
        families.Perm ((partsAll ts).map family)) ∧
      ts.map Tree.node = (nodes.filter fun n => ∀ c ∈ cs, c.target ≠ n.id) ∧ ((walkAll ts).map Node.id).Nodup ∧
      (∀ t ∈ partsAll ts, ∀ u ∈ t.children, Links nodes cs t.node u.node) ∧
      ∀ n, n ∈ walkAll ts ↔ ∃ root ∈ nodes, (∀ c ∈ cs, c.target ≠ root.id) ∧ ReflTransGen (Links nodes cs) root n := by
  intro ts
  have hspans : Spans nodes cs ts := forest_spans hn
  have hgrown : GrownAll (noted nodes cs) (Hierarchy.roots nodes cs) [] ts := forest_grown hn
  have hroots : ∀ root, root ∈ Hierarchy.roots nodes cs ↔ root ∈ nodes ∧ ∀ c ∈ cs, c.target ≠ root.id := fun root => by
    rw [roots_eq_filter, List.mem_filter, decide_eq_true_iff]
  refine ⟨?_, hspans.roots.trans (roots_eq_filter nodes cs), hspans.nodup, fun t ht u hu => ?_, fun n => ⟨fun hw => ?_, ?_⟩⟩
  · have hsearch := hgrown.congr fun n hw => noted_eq (List.mem_map_of_mem (hspans.mem hw))
    obtain ⟨taken, families, hturns, hperm⟩ := hsearch.turns []
    have hwalk : (walkAll ts).length ≤ nodes.length := (hspans.nodup.of_map.subperm hspans.mem).length_le
    have hfirst : (Hierarchy.roots nodes cs).length ≤ nodes.length := List.length_filter_le _ _
    exact ⟨_, by omega, taken, families, hturns, hperm⟩
  · have hnode : t.node ∈ nodes := hspans.mem (partsAll_node ts ▸ List.mem_map_of_mem ht)
    have hchild := (hgrown.children_sublist ht).subset (List.mem_map_of_mem hu)
    obtain ⟨hmem, _, hleads⟩ := (mem_noted hn).1 hchild
    exact ⟨hnode, hmem, hleads⟩
  · obtain ⟨root, hroot, hway⟩ := hgrown.reached hw
    obtain ⟨hmem, hfree⟩ := (hroots root).1 hroot
    exact ⟨root, hmem, hfree, (links_of_way hn hmem hway).1⟩
  · rintro ⟨root, hmem, hfree, hway⟩
    have hlisted : n ∈ nodes := by
      rcases ReflTransGen.cases_tail hway with rfl | ⟨_, _, hlast⟩
      · exact hmem
      · exact hlast.2.1
    obtain ⟨m, hw, hid⟩ := List.mem_map.1 (hspans.mem_of_links ((hroots root).2 ⟨hmem, hfree⟩) hway)
    rwa [List.inj_on_of_nodup_map hn (hspans.mem hw) hlisted hid] at hw

/-- Two roots, a cycle below both of them, a node that is its own child, and one whose only parent is not listed. -/
def tangleNodes : List Node :=
  ["r", "s", "a", "b", "c", "d"].map fun id => ⟨id, "Sequence", "composite", "", 0.0, 0.0, []⟩

def tangleConnections : List Connection :=
  [⟨"1", "r", "a"⟩, ⟨"2", "s", "b"⟩, ⟨"3", "a", "b"⟩, ⟨"4", "b", "a"⟩, ⟨"5", "c", "c"⟩, ⟨"6", "x", "d"⟩, ⟨"7", "s", "y"⟩]

/-- The cycle is placed below the first root, and no root has a way to the other two nodes. -/
theorem tangle_reaches :
    let ts := forest tangleNodes tangleConnections
    (tangleNodes.map Node.id).Nodup ∧ ts.map (fun t => t.node.id) = ["r", "s"] ∧ (walkAll ts).map Node.id = ["r", "a", "b", "s"] ∧
      ∀ n ∈ tangleNodes, n.id ∈ ["c", "d"] →
        ¬ ∃ root ∈ tangleNodes, (∀ c ∈ tangleConnections, c.target ≠ root.id) ∧
          ReflTransGen (Links tangleNodes tangleConnections) root n := by
  intro ts
  have hn : (tangleNodes.map Node.id).Nodup := by decide
  have hwalk : (walkAll ts).map Node.id = ["r", "a", "b", "s"] := by decide +kernel
  obtain ⟨_, _, _, _, hreach⟩ := forest_reaches tangleNodes tangleConnections hn
  refine ⟨hn, by decide +kernel, hwalk, fun n _ hid hway => ?_⟩
  have hplaced : n.id ∈ (walkAll ts).map Node.id := List.mem_map_of_mem ((hreach n).2 hway)
  rw [hwalk] at hplaced
  have hdisjoint : ∀ id ∈ ["c", "d"], id ∉ ["r", "a", "b", "s"] := by decide
  exact hdisjoint n.id hid hplaced

end Hierarchy

end BehaviorTree
