import BehaviorTree.Proofs.Graph.Forest
import BehaviorTree.Proofs.Table
import BehaviorTree.Tree.Hierarchy

/-!
The trees of any graph. However the connections run, every node is placed at most once, whatever is placed hangs from a root by
connections of the graph, and what a placed node leads to is placed too.
-/

set_option autoImplicit false

namespace BehaviorTree

open Relation

namespace Tree

mutual

/-- The pairs of ids of a parent and a child in a tree. -/
def edges : Tree → List (String × String)
  | .branch n cs => edgesBelow n.id cs

def edgesBelow (parent : String) : List Tree → List (String × String)
  | [] => []
  | t :: r => (parent, t.node.id) :: (t.edges ++ edgesBelow parent r)

end

def edgesAll (ts : List Tree) : List (String × String) := ts.flatMap edges

def belowAll (ts : List Tree) : List Node := ts.flatMap fun t => walkAll t.children

@[simp] theorem belowAll_nil : belowAll [] = [] := rfl

@[simp] theorem belowAll_cons (n : Node) (kids ts : List Tree) :
    belowAll (.branch n kids :: ts) = walkAll kids ++ belowAll ts := rfl

@[simp] theorem edgesAll_nil : edgesAll [] = [] := rfl

theorem edgesAll_cons (t : Tree) (ts : List Tree) : edgesAll (t :: ts) = t.edges ++ edgesAll ts := rfl

theorem walk_eq (t : Tree) : t.walk = t.node :: walkAll t.children := by
  cases t with
  | branch n cs => rw [walk, node, children]

theorem walkAll_perm (ts : List Tree) : (walkAll ts).Perm (ts.map node ++ belowAll ts) := by
  induction ts with
  | nil => exact List.Perm.refl _
  | cons t r ih =>
    obtain ⟨n, kids⟩ := t
    rw [walkAll, walk, belowAll_cons, List.map_cons, node, List.cons_append, List.cons_append]
    exact ((ih.append_left _).trans (List.perm_append_comm_assoc _ _ _)).cons _

mutual

theorem edges_snd (t : Tree) : t.edges.map Prod.snd = (walkAll t.children).map Node.id := by
  cases t with
  | branch n cs => exact edgesBelow_snd n.id cs

theorem edgesBelow_snd (parent : String) (ts : List Tree) : (edgesBelow parent ts).map Prod.snd = (walkAll ts).map Node.id := by
  cases ts with
  | nil => simp [edgesBelow, walkAll]
  | cons t r =>
    rw [edgesBelow, walkAll, walk_eq, List.map_cons, List.map_append, edges_snd t, edgesBelow_snd parent r]
    simp

end

theorem mem_edgesBelow {parent : String} {ts : List Tree} {e : String × String} :
    e ∈ edgesBelow parent ts ↔ (∃ t ∈ ts, e = (parent, t.node.id)) ∨ e ∈ edgesAll ts := by
  induction ts with
  | nil => simp [edgesBelow]
  | cons t r ih =>
    rw [edgesBelow, edgesAll_cons, List.mem_cons, List.mem_append, List.mem_append, ih, List.exists_mem_cons_iff, or_assoc]
    exact or_congr_right or_left_comm

theorem edgesAll_snd (ts : List Tree) : (edgesAll ts).map Prod.snd = (belowAll ts).map Node.id := by
  rw [edgesAll, belowAll, List.map_flatMap, List.map_flatMap]
  exact congrArg (ts.flatMap ·) (funext edges_snd)

end Tree

namespace Hierarchy

open BehaviorTree.Tree

variable {successors : String → List Node} {placed : List String} {own rest : List Node} {n m : Node} {a b : String}

theorem claim_mem (h : m ∈ (claim placed rest).1) : m ∈ rest ∧ m.id ∉ placed := by
  induction rest generalizing placed with
  | nil => simp [claim] at h
  | cons n r ih =>
    rw [claim] at h
    split_ifs at h with hn
    · obtain ⟨hm, hp⟩ := ih h
      exact ⟨List.mem_cons_of_mem _ hm, hp⟩
    · rcases List.mem_cons.1 h with rfl | h
      · exact ⟨List.mem_cons_self, by simpa using hn⟩
      · obtain ⟨hm, hp⟩ := ih h
        exact ⟨List.mem_cons_of_mem _ hm, fun hin => hp (List.mem_cons_of_mem _ hin)⟩

theorem claim_nodup : ((claim placed rest).1.map Node.id).Nodup := by
  induction rest generalizing placed with
  | nil => simp [claim]
  | cons n r ih =>
    rw [claim]
    split_ifs with hn
    · exact ih
    · rw [List.map_cons, List.nodup_cons]
      refine ⟨fun hmem => ?_, ih⟩
      obtain ⟨m, hm, hid⟩ := List.mem_map.1 hmem
      exact (claim_mem hm).2 (hid ▸ List.mem_cons_self)

theorem mem_placed_claim : a ∈ (claim placed rest).2 ↔ a ∈ placed ∨ a ∈ (claim placed rest).1.map Node.id := by
  induction rest generalizing placed with
  | nil => simp [claim]
  | cons n r ih =>
    rw [claim]
    split_ifs with hn
    · exact ih
    · simp only [List.map_cons, List.mem_cons, ih]
      grind

theorem claim_covers (h : m ∈ rest) : m.id ∈ (claim placed rest).2 := by
  induction rest generalizing placed with
  | nil => cases h
  | cons n r ih =>
    rw [claim]
    split_ifs with hn
    · rcases List.mem_cons.1 h with rfl | h
      · exact mem_placed_claim.2 (.inl (by simpa using hn))
      · exact ih h
    · rcases List.mem_cons.1 h with rfl | h
      · exact mem_placed_claim.2 (.inl List.mem_cons_self)
      · exact ih h

/-- Do trees grow below nodes that have their places, from right to left, and fill more places? The children of a node take theirs
before any of them grows. -/
inductive Grown (successors : String → List Node) : List Node → List String → List Tree → List String → Prop
  | nil (placed : List String) : Grown successors [] placed [] placed
  | cons {n : Node} {own : List Node} {placed before after : List String} {kids ts : List Tree}
      (rest : Grown successors own placed ts before)
      (below : Grown successors (claim before (successors n.id)).1 (claim before (successors n.id)).2 kids after) :
      Grown successors (n :: own) placed (.branch n kids :: ts) after

variable {ts : List Tree} {after : List String}

theorem Grown.nodes (h : Grown successors own placed ts after) : ts.map Tree.node = own := by
  induction h with
  | nil => rfl
  | cons _ _ ih _ => rw [List.map_cons, ih, Tree.node]

theorem Grown.walk_perm (h : Grown successors own placed ts after) :
    ((walkAll ts).map Node.id).Perm (own.map Node.id ++ (belowAll ts).map Node.id) := by
  have hperm := (walkAll_perm ts).map Node.id
  rwa [h.nodes, List.map_append] at hperm

theorem Grown.mem_after (h : Grown successors own placed ts after) :
    a ∈ after ↔ a ∈ placed ∨ a ∈ (belowAll ts).map Node.id := by
  induction h with
  | nil => simp
  | cons _ below ih ih' =>
    rw [ih', mem_placed_claim, ih, belowAll_cons, List.map_append, List.mem_append, below.walk_perm.mem_iff, List.mem_append]
    tauto

theorem Grown.subset (h : Grown successors own placed ts after) : placed ⊆ after := fun _ ha => h.mem_after.2 (.inl ha)

theorem Grown.nodup (h : Grown successors own placed ts after) :
    ((belowAll ts).map Node.id).Nodup ∧ ∀ a ∈ (belowAll ts).map Node.id, a ∉ placed := by
  induction h with
  | nil => simp
  | @cons n own placed before after kids ts rest below ih ih' =>
    have hkids : ∀ a ∈ (walkAll kids).map Node.id, a ∉ before := by
      intro a ha hb
      rw [below.walk_perm.mem_iff, List.mem_append] at ha
      rcases ha with ha | ha
      · obtain ⟨m, hm, rfl⟩ := List.mem_map.1 ha
        exact (claim_mem hm).2 hb
      · exact ih'.2 a ha (mem_placed_claim.2 (.inl hb))
    have hnodup : ((walkAll kids).map Node.id).Nodup := by
      rw [below.walk_perm.nodup_iff, List.nodup_append]
      refine ⟨claim_nodup, ih'.1, ?_⟩
      rintro a ha b hb rfl
      exact ih'.2 a hb (mem_placed_claim.2 (.inr ha))
    rw [belowAll_cons, List.map_append, List.nodup_append]
    refine ⟨⟨hnodup, ih.1, ?_⟩, fun a ha hp => ?_⟩
    · rintro a ha b hb rfl
      exact hkids a ha (rest.mem_after.2 (.inr hb))
    · rcases List.mem_append.1 ha with ha | ha
      · exact hkids a ha (rest.subset hp)
      · exact ih.2 a ha hp

theorem Grown.closed (h : Grown successors own placed ts after) (hn : n ∈ walkAll ts) (hm : m ∈ successors n.id) :
    m.id ∈ after := by
  induction h with
  | nil => simp [walkAll] at hn
  | cons rest below ih ih' =>
    rw [walkAll, walk, List.mem_append, List.mem_cons] at hn
    rcases hn with (rfl | hn) | hn
    · exact below.subset (claim_covers hm)
    · exact ih' hn
    · exact below.subset (mem_placed_claim.2 (.inl (ih hn)))

theorem Grown.edges (h : Grown successors own placed ts after) {e : String × String} (he : e ∈ edgesAll ts) :
    ∃ m ∈ successors e.1, m.id = e.2 := by
  induction h with
  | nil => simp at he
  | cons _ below ih ih' =>
    rw [edgesAll_cons, Tree.edges, List.mem_append, mem_edgesBelow] at he
    rcases he with (⟨t, ht, rfl⟩ | he) | he
    · have hnode : t.node ∈ (claim _ _).1 := below.nodes ▸ List.mem_map_of_mem ht
      exact ⟨t.node, (claim_mem hnode).1, rfl⟩
    · exact ih' he
    · exact ih he

theorem Grown.below_mem (h : Grown successors own placed ts after) (hn : n ∈ belowAll ts) : ∃ a, n ∈ successors a := by
  induction h with
  | nil => simp at hn
  | cons _ below ih ih' =>
    rw [belowAll_cons, List.mem_append, (walkAll_perm _).mem_iff, below.nodes, List.mem_append] at hn
    rcases hn with (hn | hn) | hn
    · exact ⟨_, (claim_mem hn).1⟩
    · exact ih' hn
    · exact ih hn

def unplaced (ids placed : List String) : Nat := (ids.filter fun a => a ∉ placed).length

theorem unplaced_le (ids : List String) (h : placed ⊆ after) : unplaced ids after ≤ unplaced ids placed := by
  unfold unplaced
  rw [← List.countP_eq_length_filter, ← List.countP_eq_length_filter]
  refine List.countP_mono_left fun a _ ha => ?_
  simp only [decide_eq_true_eq] at ha ⊢
  exact fun hp => ha (h hp)

theorem unplaced_lt {ids : List String} (h : placed ⊆ after) (ha : a ∈ ids) (hp : a ∉ placed) (hafter : a ∈ after) :
    unplaced ids after < unplaced ids placed := by
  have hsub : ids.filter (fun a => a ∉ after) = (ids.filter fun a => a ∉ placed).filter fun a => a ∉ after := by
    rw [List.filter_filter]
    refine List.filter_congr fun b _ => ?_
    by_cases hb : b ∈ after
    · simp [hb]
    · have hb' : b ∉ placed := fun hp => hb (h hp)
      simp [hb, hb']
  rw [unplaced, unplaced, hsub, List.length_filter_lt_length_iff_exists]
  exact ⟨a, List.mem_filter.2 ⟨ha, by simpa using hp⟩, by simpa using hafter⟩

def growEach (successors : String → List Node) (fuel : Nat) (own : List Node) (placed : List String) :
    List Tree × List String :=
  own.foldr (fun c acc => ((grow successors fuel c acc.2).1 :: acc.1, (grow successors fuel c acc.2).2)) ([], placed)

theorem grow_succ (fuel : Nat) (n : Node) (placed : List String) : grow successors (fuel + 1) n placed =
    (.branch n (growEach successors fuel (claim placed (successors n.id)).1 (claim placed (successors n.id)).2).1,
      (growEach successors fuel (claim placed (successors n.id)).1 (claim placed (successors n.id)).2).2) := rfl

theorem Grown.push {t : Tree} {before : List String} (rest : Grown successors own placed ts before)
    (h : Grown successors [n] before [t] after) : Grown successors (n :: own) placed (t :: ts) after := by
  cases h with
  | cons empty below =>
    cases empty
    exact .cons rest below

theorem grown_of_fuel {ids : List String} (hs : ∀ a, ∀ m ∈ successors a, m.id ∈ ids) (fuel : Nat) (n : Node) (placed : List String)
    (hfuel : unplaced ids placed < fuel) :
    Grown successors [n] placed [(grow successors fuel n placed).1] (grow successors fuel n placed).2 := by
  induction fuel generalizing n placed with
  | zero => omega
  | succ fuel ih =>
    -- places are only filled, so that what is enough for the first of several nodes is enough for all of them
    have heach : ∀ own placed, unplaced ids placed < fuel →
        Grown successors own placed (growEach successors fuel own placed).1 (growEach successors fuel own placed).2 := by
      intro own placed hp
      induction own with
      | nil => exact .nil placed
      | cons c r ihr =>
        have hless := unplaced_le ids ihr.subset
        exact ihr.push (ih c _ (by omega))
    rw [grow_succ]
    refine .cons (.nil placed) ?_
    cases hown : (claim placed (successors n.id)).1 with
    | nil => exact .nil _
    | cons m r =>
      obtain ⟨hm, hmp⟩ := claim_mem (hown ▸ List.mem_cons_self : m ∈ (claim placed (successors n.id)).1)
      have hsub : placed ⊆ (claim placed (successors n.id)).2 := fun _ ha => mem_placed_claim.2 (.inl ha)
      have hless := unplaced_lt hsub (hs n.id m hm) hmp (claim_covers hm)
      exact heach (m :: r) _ (by omega)

inductive GrownAll (successors : String → List Node) : List Node → List String → List Tree → Prop
  | nil (placed : List String) : GrownAll successors [] placed []
  | cons {n : Node} {r : List Node} {placed after : List String} {t : Tree} {ts : List Tree}
      (fresh : n.id ∉ placed) (tree : Grown successors [n] (n.id :: placed) [t] after) (rest : GrownAll successors r after ts) :
      GrownAll successors (n :: r) placed (t :: ts)

def Unled (successors : String → List Node) (roots : List Node) : Prop := ∀ n ∈ roots, ∀ a, ∀ m ∈ successors a, m.id ≠ n.id

variable {roots : List Node}

theorem grownAll_of_fuel (ids : List String) {fuel : Nat} (hs : ∀ a, ∀ m ∈ successors a, m.id ∈ ids)
    (hr : ∀ n ∈ roots, n.id ∈ ids) (hd : (roots.map Node.id).Nodup) (hu : Unled successors roots)
    (hp : ∀ n ∈ roots, n.id ∉ placed) (hfuel : ids.length ≤ fuel) :
    GrownAll successors roots placed (growAll successors fuel roots placed) := by
  induction roots generalizing placed with
  | nil => exact .nil placed
  | cons n r ih =>
    have hsub : placed ⊆ n.id :: placed := List.subset_cons_self _ _
    have hless := unplaced_lt hsub (hr n List.mem_cons_self) (hp n List.mem_cons_self) List.mem_cons_self
    have hall : unplaced ids placed ≤ ids.length := List.length_filter_le _ _
    have htree := grown_of_fuel hs fuel n (n.id :: placed) (by omega)
    rw [List.map_cons, List.nodup_cons] at hd
    have hr' : ∀ m ∈ r, m.id ∈ ids := fun m hm => hr m (List.mem_cons_of_mem _ hm)
    have hu' : Unled successors r := fun m hm => hu m (List.mem_cons_of_mem _ hm)
    -- the tree below n holds no later root, since a connection would have to lead there
    refine .cons (hp n List.mem_cons_self) htree (ih hr' hd.2 hu' fun m hm hin => ?_)
    rcases htree.mem_after.1 hin with hin | hin
    · rcases List.mem_cons.1 hin with hin | hin
      · exact hd.1 (hin ▸ List.mem_map_of_mem hm)
      · exact hp m (List.mem_cons_of_mem _ hm) hin
    · obtain ⟨q, hq, hid⟩ := List.mem_map.1 hin
      obtain ⟨a, ha⟩ := htree.below_mem hq
      exact hu m (List.mem_cons_of_mem _ hm) a q ha hid

theorem GrownAll.nodes (h : GrownAll successors roots placed ts) : ts.map Tree.node = roots := by
  induction h with
  | nil => rfl
  | cons _ tree _ ih =>
    have hnode := tree.nodes
    rw [List.map_singleton, List.singleton_inj] at hnode
    rw [List.map_cons, hnode, ih]

theorem walkAll_cons (t : Tree) (ts : List Tree) : walkAll (t :: ts) = walkAll [t] ++ walkAll ts := by simp [walkAll]

theorem GrownAll.nodup (h : GrownAll successors roots placed ts) :
    ((walkAll ts).map Node.id).Nodup ∧ ∀ a ∈ (walkAll ts).map Node.id, a ∉ placed := by
  induction h with
  | nil => simp [walkAll]
  | @cons n r placed after t ts fresh tree rest ih =>
    have hwalk : ∀ a, a ∈ (walkAll [t]).map Node.id ↔ a = n.id ∨ a ∈ (belowAll [t]).map Node.id := by
      intro a
      rw [tree.walk_perm.mem_iff, List.map_singleton, List.mem_append, List.mem_singleton]
    have hafter : ∀ a ∈ (walkAll [t]).map Node.id, a ∈ after := by
      intro a ha
      rw [tree.mem_after, List.mem_cons]
      exact ((hwalk a).1 ha).imp_left .inl
    rw [walkAll_cons, List.map_append, List.nodup_append]
    refine ⟨⟨?_, ih.1, ?_⟩, fun a ha hp => ?_⟩
    · rw [tree.walk_perm.nodup_iff, List.map_singleton, List.singleton_append, List.nodup_cons]
      exact ⟨fun hn => tree.nodup.2 _ hn List.mem_cons_self, tree.nodup.1⟩
    · rintro a ha b hb rfl
      exact ih.2 a hb (hafter a ha)
    · rcases List.mem_append.1 ha with ha | ha
      · rcases (hwalk a).1 ha with rfl | ha
        · exact fresh hp
        · exact tree.nodup.2 a ha (List.mem_cons_of_mem _ hp)
      · exact ih.2 a ha (tree.subset (List.mem_cons_of_mem _ hp))

theorem GrownAll.closed (h : GrownAll successors roots placed ts) (hn : n ∈ walkAll ts) (hm : m ∈ successors n.id) :
    m.id ∈ placed ∨ m.id ∈ (walkAll ts).map Node.id := by
  induction h with
  | nil => simp [walkAll] at hn
  | @cons root r placed after t ts fresh tree rest ih =>
    have hafter : m.id ∈ after → m.id ∈ placed ∨ m.id ∈ (walkAll (t :: ts)).map Node.id := by
      intro hin
      rw [walkAll_cons, List.map_append, List.mem_append, tree.walk_perm.mem_iff, List.map_singleton, List.mem_append,
        List.mem_singleton]
      rw [tree.mem_after, List.mem_cons] at hin
      tauto
    rw [walkAll_cons, List.mem_append] at hn
    rcases hn with hn | hn
    · exact hafter (tree.closed hn hm)
    · rcases ih hn with hin | hin
      · exact hafter hin
      · rw [walkAll_cons, List.map_append, List.mem_append]
        exact .inr (.inr hin)

theorem GrownAll.edges (h : GrownAll successors roots placed ts) {e : String × String} (he : e ∈ edgesAll ts) :
    ∃ m ∈ successors e.1, m.id = e.2 := by
  induction h with
  | nil => simp at he
  | @cons root r placed after t ts fresh tree rest ih =>
    rw [edgesAll_cons, List.mem_append] at he
    rcases he with he | he
    · have hone : e ∈ edgesAll [t] := by simpa [edgesAll_cons] using he
      exact tree.edges hone
    · exact ih he

theorem GrownAll.below_mem (h : GrownAll successors roots placed ts) (hn : n ∈ belowAll ts) : ∃ a, n ∈ successors a := by
  induction h with
  | nil => simp at hn
  | @cons root r placed after t ts fresh tree rest ih =>
    rw [belowAll, List.flatMap_cons, List.mem_append] at hn
    rcases hn with hn | hn
    · have hone : n ∈ belowAll [t] := by simpa [belowAll] using hn
      exact tree.below_mem hone
    · exact ih hn

variable {nodes : List Node} {cs : List Connection}

theorem find?_eq_some (hn : (nodes.map Node.id).Nodup) : find? nodes a = some n ↔ n ∈ nodes ∧ n.id = a := by
  refine ⟨find?_mem, fun ⟨hmem, hid⟩ => ?_⟩
  obtain ⟨m, hm⟩ := Option.isSome_iff_exists.1 ((find?_isSome nodes a).2 (hid ▸ List.mem_map_of_mem hmem))
  obtain ⟨hmmem, hmid⟩ := find?_mem hm
  rw [hm, List.inj_on_of_nodup_map hn hmmem hmem (hmid.trans hid.symm)]

theorem mem_successors (hn : (nodes.map Node.id).Nodup) : m ∈ Hierarchy.successors nodes cs a ↔ m ∈ nodes ∧ Leads cs a m.id := by
  unfold Hierarchy.successors
  rw [List.mem_mergeSort, List.mem_filterMap]
  constructor
  · rintro ⟨c, hc, h⟩
    split_ifs at h with hs
    obtain ⟨hm, hid⟩ := (find?_eq_some hn).1 h
    exact ⟨hm, c, hc, hs, hid.symm⟩
  · rintro ⟨hm, c, hc, hs, ht⟩
    exact ⟨c, hc, by rw [if_pos hs, (find?_eq_some hn).2 ⟨hm, ht.symm⟩]⟩

def sources (nodes : List Node) (cs : List Connection) : List Node :=
  nodes.filter fun n => (find? nodes n.id).isSome && cs.any fun c => c.source = n.id

def noted (nodes : List Node) (cs : List Connection) (a : String) : List Node :=
  (Table.lookup ((sources nodes cs).map fun n => (n.id, Hierarchy.successors nodes cs n.id)) a).getD []

theorem forest_eq (nodes : List Node) (cs : List Connection) :
    forest nodes cs = growAll (noted nodes cs) nodes.length (Hierarchy.roots nodes cs) [] := rfl

theorem mem_sources : a ∈ (sources nodes cs).map Node.id ↔ a ∈ nodes.map Node.id ∧ ∃ c ∈ cs, c.source = a := by
  constructor
  · intro h
    obtain ⟨n, hn, rfl⟩ := List.mem_map.1 h
    obtain ⟨hmem, hs⟩ := List.mem_filter.1 hn
    rw [Bool.and_eq_true, List.any_eq_true] at hs
    obtain ⟨c, hc, hcs⟩ := hs.2
    exact ⟨List.mem_map_of_mem hmem, c, hc, of_decide_eq_true hcs⟩
  · rintro ⟨h, c, hc, hcs⟩
    obtain ⟨n, hn, rfl⟩ := List.mem_map.1 h
    refine List.mem_map_of_mem (List.mem_filter.2 ⟨hn, ?_⟩)
    rw [Bool.and_eq_true, List.any_eq_true]
    exact ⟨(find?_isSome nodes n.id).2 h, c, hc, decide_eq_true hcs⟩

theorem mem_noted (hn : (nodes.map Node.id).Nodup) :
    m ∈ noted nodes cs a ↔ m ∈ nodes ∧ a ∈ nodes.map Node.id ∧ Leads cs a m.id := by
  have hrows : ((sources nodes cs).map fun n => (n.id, Hierarchy.successors nodes cs n.id)) =
      ((sources nodes cs).map Node.id).map fun k => (k, Hierarchy.successors nodes cs k) := by
    rw [List.map_map]
    rfl
  rw [noted, hrows, Table.lookup_map_key]
  split_ifs with ha
  · rw [Option.getD_some, mem_successors hn]
    have hids := (mem_sources.1 ha).1
    tauto
  · rw [Option.getD_none]
    refine ⟨fun h => absurd h List.not_mem_nil, fun ⟨_, hids, c, hc, hs, _⟩ => ?_⟩
    exact absurd (mem_sources.2 ⟨hids, c, hc, hs⟩) ha

theorem mem_roots : n ∈ Hierarchy.roots nodes cs ↔ n ∈ nodes ∧ ∀ a, ¬ Leads cs a n.id := by
  unfold Hierarchy.roots Leads
  rw [List.mem_filter]
  simp only [List.contains_eq_mem, List.mem_map, Bool.not_eq_true', decide_eq_false_iff_not]
  grind

theorem roots_eq_filter (nodes : List Node) (cs : List Connection) :
    Hierarchy.roots nodes cs = nodes.filter fun n => ∀ c ∈ cs, c.target ≠ n.id := by
  refine List.filter_congr fun n _ => ?_
  rw [Bool.eq_iff_iff, Bool.not_eq_true', List.contains_eq_mem, decide_eq_false_iff_not, decide_eq_true_iff, List.mem_map]
  push Not
  rfl

/-- What the trees of a graph are, whatever its connections are: every root has its tree, no node is placed twice, parents and
children are connected, and where a node is placed all those are that its connections lead to. -/
structure Spans (nodes : List Node) (cs : List Connection) (ts : List Tree) : Prop where
  roots : ts.map Tree.node = Hierarchy.roots nodes cs
  nodup : ((walkAll ts).map Node.id).Nodup
  mem : walkAll ts ⊆ nodes
  edges : ∀ e ∈ edgesAll ts, e.1 ∈ nodes.map Node.id ∧ Leads cs e.1 e.2
  closed : ∀ a b, a ∈ (walkAll ts).map Node.id → b ∈ nodes.map Node.id → Leads cs a b → b ∈ (walkAll ts).map Node.id

theorem forest_grown (hn : (nodes.map Node.id).Nodup) :
    GrownAll (noted nodes cs) (Hierarchy.roots nodes cs) [] (forest nodes cs) := by
  have hroots : (Hierarchy.roots nodes cs).Sublist nodes := List.filter_sublist
  rw [forest_eq]
  refine grownAll_of_fuel (nodes.map Node.id) ?_ ?_ (hn.sublist (hroots.map _)) ?_ (by simp) (by simp)
  · exact fun a m hm => List.mem_map_of_mem ((mem_noted hn).1 hm).1
  · exact fun n hr => List.mem_map_of_mem (hroots.subset hr)
  · intro n hr a m hm hid
    obtain ⟨_, _, hleads⟩ := (mem_noted hn).1 hm
    exact (mem_roots.1 hr).2 a (hid ▸ hleads)

theorem forest_spans (hn : (nodes.map Node.id).Nodup) : Spans nodes cs (forest nodes cs) := by
  have hroots : (Hierarchy.roots nodes cs).Sublist nodes := List.filter_sublist
  have hgrown : GrownAll (noted nodes cs) (Hierarchy.roots nodes cs) [] (forest nodes cs) := forest_grown hn
  have hmem : walkAll (forest nodes cs) ⊆ nodes := by
    intro n hw
    rw [(walkAll_perm _).mem_iff, hgrown.nodes, List.mem_append] at hw
    rcases hw with hw | hw
    · exact hroots.subset hw
    · obtain ⟨a, ha⟩ := hgrown.below_mem hw
      exact ((mem_noted hn).1 ha).1
  refine ⟨hgrown.nodes, hgrown.nodup.1, hmem, fun e he => ?_, fun a b ha hb hleads => ?_⟩
  · obtain ⟨m, hm, hid⟩ := hgrown.edges he
    obtain ⟨_, hids, hleads⟩ := (mem_noted hn).1 hm
    exact ⟨hids, hid ▸ hleads⟩
  · obtain ⟨n, hw, rfl⟩ := List.mem_map.1 ha
    obtain ⟨m, hm, rfl⟩ := List.mem_map.1 hb
    have hnoted : m ∈ noted nodes cs n.id := (mem_noted hn).2 ⟨hm, List.mem_map_of_mem (hmem hw), hleads⟩
    exact (hgrown.closed hw hnoted).resolve_left List.not_mem_nil

end Hierarchy

end BehaviorTree
