import BehaviorTree.Proofs.Tree.Geometry

/-!
Overlaps in a layout. Families are spread out and centred one by one, without a look at the families beside them, so nodes of different
families can come to stand on each other. They do so exactly where they are on one level of one tree and nearer than a node is wide.
-/

set_option autoImplicit false

namespace BehaviorTree.Layout

open Arithmetic BehaviorTree.Tree

variable {u v : Place} {ts : List Tree}

def Place.parent (u : Place) : List (Nat × Nat) := u.way.dropLast

def Apart (u v : Place) : Prop :=
  u.tree = v.tree → u.depth = v.depth → u.parent = v.parent → 2 ≤ |column u.way - column v.way|

mutual

theorem way_of_mem_placesFrom (way : List (Nat × Nat)) (t : Tree) (h : u ∈ placesFrom way t) : ∃ rest, u.way = way ++ rest := by
  obtain ⟨n, cs⟩ := t
  rw [placesFrom] at h
  rcases List.mem_cons.1 h with rfl | h
  · exact ⟨[], (List.append_nil way).symm⟩
  · obtain ⟨i, rest, -, hway⟩ := way_of_mem_placesBelow way cs.length 0 cs h
    exact ⟨_, hway⟩

theorem way_of_mem_placesBelow (way : List (Nat × Nat)) (count index : Nat) (ts : List Tree) (h : u ∈ placesBelow way count index ts) :
    ∃ i rest, index ≤ i ∧ u.way = way ++ (i, count) :: rest := by
  cases ts with
  | nil => simp [placesBelow] at h
  | cons t r =>
    rw [placesBelow] at h
    rcases List.mem_append.1 h with h | h
    · obtain ⟨rest, hway⟩ := way_of_mem_placesFrom _ t h
      exact ⟨index, rest, le_rfl, by rw [hway, List.append_assoc, List.singleton_append]⟩
    · obtain ⟨i, rest, hi, hway⟩ := way_of_mem_placesBelow way count (index + 1) r h
      exact ⟨i, rest, Nat.le_of_succ_le hi, hway⟩

end

theorem apart_of_ways {way rest rest' : List (Nat × Nat)} {i j count : Nat} (hu : u.way = way ++ (i, count) :: rest)
    (hv : v.way = way ++ (j, count) :: rest') (hij : i < j) : Apart u v := by
  intro _ hdepth hparent
  have hlength : rest.length = rest'.length := by
    unfold Place.depth at hdepth
    rw [hu, hv] at hdepth
    simpa using hdepth
  unfold Place.parent at hparent
  rw [hu, hv, List.dropLast_append_of_ne_nil (List.cons_ne_nil _ _), List.dropLast_append_of_ne_nil (List.cons_ne_nil _ _)] at hparent
  have hsteps := List.append_cancel_left hparent
  cases rest with
  | nil =>
    obtain rfl := List.length_eq_zero_iff.1 hlength.symm
    rw [hu, hv, column_concat, column_concat, le_abs]
    right
    omega
  | cons s rest =>
    obtain ⟨s', rest', rfl⟩ := List.exists_cons_of_length_eq_add_one hlength.symm
    rw [List.dropLast_cons_cons, List.dropLast_cons_cons] at hsteps
    exact absurd (congrArg Prod.fst (List.cons.inj hsteps).1) hij.ne

mutual

theorem placesFrom_apart (way : List (Nat × Nat)) (t : Tree) : (placesFrom way t).Pairwise Apart := by
  obtain ⟨n, cs⟩ := t
  rw [placesFrom, List.pairwise_cons]
  refine ⟨fun v hv _ hdepth => ?_, placesBelow_apart way cs.length 0 cs⟩
  obtain ⟨i, rest, -, hway⟩ := way_of_mem_placesBelow way cs.length 0 cs hv
  unfold Place.depth at hdepth
  rw [hway, List.length_append, List.length_cons] at hdepth
  dsimp only at hdepth
  omega

theorem placesBelow_apart (way : List (Nat × Nat)) (count index : Nat) (ts : List Tree) :
    (placesBelow way count index ts).Pairwise Apart := by
  cases ts with
  | nil => exact List.Pairwise.nil
  | cons t r =>
    rw [placesBelow, List.pairwise_append]
    refine ⟨placesFrom_apart _ t, placesBelow_apart way count (index + 1) r, fun u hu v hv => ?_⟩
    obtain ⟨rest, hu⟩ := way_of_mem_placesFrom _ t hu
    obtain ⟨j, rest', hj, hv⟩ := way_of_mem_placesBelow way count (index + 1) r hv
    rw [List.append_assoc, List.singleton_append] at hu
    exact apart_of_ways hu hv hj

end

theorem places_apart (ts : List Tree) : (places ts).Pairwise Apart := by
  induction ts with
  | nil => exact List.Pairwise.nil
  | cons t r ih =>
    rw [places, List.pairwise_append, List.pairwise_map]
    refine ⟨placesFrom_apart [] t, ih.imp fun h htree => h (Nat.succ.inj htree), fun u hu v hv htree => ?_⟩
    obtain ⟨v, _, rfl⟩ := List.mem_map.1 hv
    cases (tree_of_mem_placesFrom [] t hu).symm.trans htree

theorem tree_lt_of_mem_places (h : u ∈ places ts) : u.tree < ts.length := by
  induction ts generalizing u with
  | nil => simp [places] at h
  | cons t r ih =>
    rw [places] at h
    rcases List.mem_append.1 h with h | h
    · rw [tree_of_mem_placesFrom [] t h]
      exact Nat.succ_pos _
    · obtain ⟨v, hv, rfl⟩ := List.mem_map.1 h
      exact Nat.succ_lt_succ (ih hv)

section Areas

variable {K : Type} [Field K] [LinearOrder K] [IsStrictOrderedRing K] {o : Options K}

def Options.area (o : Options K) (p : Position K) : Set (K × K) := Set.Ioo p.x (p.x + o.nodeWidth) ×ˢ Set.Ioo p.y (p.y + o.nodeHeight)

theorem disjoint_Ioo_iff {a b size : K} : Disjoint (Set.Ioo a (a + size)) (Set.Ioo b (b + size)) ↔ size ≤ |a - b| := by
  rw [Set.Ioo_disjoint_Ioo, min_add_add_right, ← max_sub_min_eq_abs', le_sub_iff_add_le']

theorem not_disjoint_area_iff (p q : Position K) :
    ¬ Disjoint (o.area p) (o.area q) ↔ |p.x - q.x| < o.nodeWidth ∧ |p.y - q.y| < o.nodeHeight := by
  unfold Options.area
  rw [Set.disjoint_prod, disjoint_Ioo_iff, disjoint_Ioo_iff, not_or, not_le, not_le]

theorem Options.stepX_pos (hwidth : 0 < o.nodeWidth) (hspacing : 0 ≤ o.spacingX) : 0 < o.stepX := add_pos_of_pos_of_nonneg hwidth hspacing

theorem closer_than_width_iff (hwidth : 0 < o.nodeWidth) (hspacing : 0 ≤ o.spacingX) (d : Int) :
    |(d : K) * o.halfStep| < o.nodeWidth ↔ d = 0 ∨ |d| = 1 ∧ o.spacingX < o.nodeWidth := by
  have hstep : 0 < o.halfStep := by
    rw [o.halfStep_eq]
    exact half_pos (Options.stepX_pos hwidth hspacing)
  obtain ⟨n, hn⟩ := Int.eq_ofNat_of_zero_le (abs_nonneg d)
  rw [abs_mul, abs_of_pos hstep, ← Int.cast_abs, ← abs_eq_zero (a := d), hn, Int.cast_natCast]
  match n with
  | 0 => exact iff_of_true (by simpa using hwidth) (.inl rfl)
  | 1 =>
    have hhalf : o.halfStep < o.nodeWidth ↔ o.spacingX < o.nodeWidth := by
      rw [o.halfStep_eq, div_lt_iff₀ two_pos, mul_two, Options.stepX, add_lt_add_iff_left]
    simp [hhalf]
  | n + 2 =>
    have htwo : (2 : K) ≤ ((n + 2 : Nat) : K) := by exact_mod_cast Nat.le_add_left 2 n
    refine iff_of_false (not_lt_of_ge ?_) (by omega)
    calc o.nodeWidth ≤ o.stepX := le_add_of_nonneg_right hspacing
      _ = 2 * o.halfStep := by rw [o.halfStep_eq, mul_div_cancel₀ o.stepX two_ne_zero]
      _ ≤ ((n + 2 : Nat) : K) * o.halfStep := mul_le_mul_of_nonneg_right htwo hstep.le

theorem closer_than_height_iff (hheight : 0 < o.nodeHeight) (hspacing : 0 ≤ o.spacingY) (m n : Nat) :
    |(m : K) * o.stepY - n * o.stepY| < o.nodeHeight ↔ m = n := by
  constructor
  · contrapose!
    intro hmn
    have hone : (1 : K) ≤ |(m : K) - n| := by exact_mod_cast Int.one_le_abs (sub_ne_zero.2 (Nat.cast_injective.ne hmn))
    have hstep : o.nodeHeight ≤ o.stepY := le_add_of_nonneg_right hspacing
    calc o.nodeHeight ≤ 1 * o.stepY := by rwa [one_mul]
      _ ≤ |(m : K) - n| * o.stepY := mul_le_mul_of_nonneg_right hone (hheight.le.trans hstep)
      _ = |(m : K) * o.stepY - n * o.stepY| := by rw [← sub_mul, abs_mul, abs_of_pos (hheight.trans_le hstep)]
  · rintro rfl
    rwa [sub_self, abs_zero]

omit [IsStrictOrderedRing K] in
theorem position_x_sub {origin : Nat → K} (htree : u.tree = v.tree) :
    (o.position origin u).x - (o.position origin v).x = ((column u.way - column v.way : Int) : K) * o.halfStep := by
  simp only [Options.position, htree]
  push_cast
  ring

theorem InRow.width_le {f : Place → Position K} {left right : Nat → K} (h : InRow o f ts left right) (hwidth : 0 < o.nodeWidth)
    (htrees : 0 ≤ o.treeSpacing) (hu : u ∈ places ts) (hv : v ∈ places ts) (htree : u.tree ≠ v.tree) :
    o.nodeWidth ≤ |(f u).x - (f v).x| := by
  wlog hlt : u.tree < v.tree generalizing u v
  · rw [abs_sub_comm]
    exact this hv hu htree.symm (htree.lt_or_gt.resolve_left hlt)
  · have hright := ((h.reaches _ (tree_lt_of_mem_places hu)).bounds ⟨hu, rfl⟩).2
    have hleft := ((h.reaches _ (tree_lt_of_mem_places hv)).bounds ⟨hv, rfl⟩).1
    have hborders := h.right_add_le hwidth htrees hlt (tree_lt_of_mem_places hv)
    rw [abs_sub_comm]
    exact (by linarith : o.nodeWidth ≤ (f v).x - (f u).x).trans (le_abs_self _)

/-- Two nodes of a layout overlap if and only if they are on one level of one tree, in different families, and in the same column or, where
the spacing is less than the width of a node, in columns half a step apart. -/
theorem overlaps_iff (o : Options K) (ts : List Tree) (hwidth : 0 < o.nodeWidth) (hheight : 0 < o.nodeHeight) (hx : 0 ≤ o.spacingX)
    (hy : 0 ≤ o.spacingY) (htrees : 0 ≤ o.treeSpacing) :
    ∃ f : Place → Position K, forest o ts = (places ts).map f ∧ (places ts).Pairwise fun u v =>
      ¬ Disjoint (o.area (f u)) (o.area (f v)) ↔ u.tree = v.tree ∧ u.depth = v.depth ∧ u.parent ≠ v.parent ∧
        (column u.way = column v.way ∨ |column u.way - column v.way| = 1 ∧ o.spacingX < o.nodeWidth) := by
  obtain ⟨origin, left, right, hrow, -, hborders⟩ := exists_row o (half (ofNat 0)) ts
  refine ⟨o.position origin, hrow, (places_apart ts).imp_of_mem fun {u v} hu hv hapart => ?_⟩
  rw [not_disjoint_area_iff]
  by_cases htree : u.tree = v.tree
  · rw [position_x_sub htree, closer_than_width_iff hwidth hx, sub_eq_zero, Options.position, Options.position]
    dsimp only
    rw [closer_than_height_iff hheight hy]
    constructor
    · rintro ⟨hcolumn, hdepth⟩
      refine ⟨htree, hdepth, fun hparent => ?_, hcolumn⟩
      have htwo := hapart htree hdepth hparent
      rcases hcolumn with hsame | ⟨hone, -⟩
      · rw [hsame, sub_self, abs_zero] at htwo
        omega
      · omega
    · rintro ⟨-, hdepth, -, hcolumn⟩
      exact ⟨hcolumn, hdepth⟩
  · have hwide := hborders.width_le hwidth htrees hu hv htree
    exact iff_of_false (fun h => h.1.not_ge hwide) fun h => htree h.1

end Areas

/-- The second child of the one family stands on the first child of the other, and the two first children stand apart. -/
theorem cousins_overlap_iff :
    let a1 : Place := ⟨0, [(0, 2), (0, 2)], plainTree "a1" []⟩
    let a2 : Place := ⟨0, [(0, 2), (1, 2)], plainTree "a2" []⟩
    let b1 : Place := ⟨0, [(1, 2), (0, 2)], plainTree "b1" []⟩
    let o := usualOptions
    (0 < o.nodeWidth ∧ 0 < o.nodeHeight ∧ 0 ≤ o.spacingX ∧ 0 ≤ o.spacingY ∧ 0 ≤ o.treeSpacing) ∧
      ∃ f : Place → Position ℚ, forest o cousins = (places cousins).map f ∧
        ¬ Disjoint (o.area (f a2)) (o.area (f b1)) ∧ Disjoint (o.area (f a1)) (o.area (f b1)) := by
  intro a1 a2 b1 o
  obtain ⟨hwidth, hheight, hx, hy, htrees⟩ := usualOptions_positive
  obtain ⟨f, hf, hpairs⟩ := overlaps_iff o cousins hwidth hheight hx hy htrees
  have hinner := List.pairwise_iff_getElem.1 hpairs 3 5 (by decide) (by decide) (by decide)
  have houter := List.pairwise_iff_getElem.1 hpairs 2 5 (by decide) (by decide) (by decide)
  refine ⟨usualOptions_positive, f, hf, hinner.2 (by decide +kernel), ?_⟩
  exact not_not.1 fun h => absurd (houter.1 h) (by decide +kernel)

/-- Two families of two under one root, and not all nodes stand apart. -/
theorem cousins_not_apart :
    let o := usualOptions
    (0 < o.nodeWidth ∧ 0 < o.nodeHeight ∧ 0 ≤ o.spacingX ∧ 0 ≤ o.spacingY ∧ 0 ≤ o.treeSpacing) ∧
      ¬ (forest o cousins).Pairwise fun p q => Disjoint (o.area p) (o.area q) := by
  intro o
  refine ⟨usualOptions_positive, fun h => ?_⟩
  have hpair := List.pairwise_iff_getElem.1 h 3 5 (by decide +kernel) (by decide +kernel) (by decide)
  exact (not_disjoint_area_iff _ _).2 (by decide +kernel) hpair

end BehaviorTree.Layout
