import Mathlib
import BehaviorTree.Proofs.Tree.Layout

/-!
The geometry of a layout in exact numbers. A node has an address: its tree and its way down from the root. The way alone tells how far
a node stands from its root, in steps of half the distance between two neighbours, so a layout is known up to one number for each tree.
-/

set_option autoImplicit false

namespace BehaviorTree.Layout

open Arithmetic BehaviorTree.Tree

/-- A node of a forest with what is below it: the number of its tree, and the way to it from the root. Each step of a way is the number
of a child and how many children there are. -/
structure Place where
  tree : Nat
  way : List (Nat × Nat)
  part : Tree

namespace Place

def node (u : Place) : Node := u.part.node

def depth (u : Place) : Nat := u.way.length

def child (u : Place) (i : Nat) (hi : i < u.part.children.length) : Place :=
  ⟨u.tree, u.way ++ [(i, u.part.children.length)], u.part.children[i]⟩

def later (u : Place) : Place := { u with tree := u.tree + 1 }

end Place

mutual

def placesFrom (way : List (Nat × Nat)) : Tree → List Place
  | .branch n cs => ⟨0, way, .branch n cs⟩ :: placesBelow way cs.length 0 cs

def placesBelow (way : List (Nat × Nat)) (count index : Nat) : List Tree → List Place
  | [] => []
  | t :: r => placesFrom (way ++ [(index, count)]) t ++ placesBelow way count (index + 1) r

end

/-- The places of a forest, tree by tree, each before those below it. -/
def places : List Tree → List Place
  | [] => []
  | t :: r => placesFrom [] t ++ (places r).map Place.later

variable {ts : List Tree} {u : Place}

mutual

theorem placesFrom_node (way : List (Nat × Nat)) (t : Tree) : (placesFrom way t).map Place.node = t.walk := by
  obtain ⟨n, cs⟩ := t
  rw [placesFrom, walk, List.map_cons, placesBelow_node]
  rfl

theorem placesBelow_node (way : List (Nat × Nat)) (count index : Nat) (ts : List Tree) :
    (placesBelow way count index ts).map Place.node = walkAll ts := by
  cases ts with
  | nil => rfl
  | cons t r => rw [placesBelow, walkAll, List.map_append, placesFrom_node, placesBelow_node]

end

theorem places_node (ts : List Tree) : (places ts).map Place.node = walkAll ts := by
  induction ts with
  | nil => rfl
  | cons t r ih =>
    rw [places, walkAll, List.map_append, placesFrom_node, List.map_map, ← ih]
    rfl

mutual

theorem tree_of_mem_placesFrom (way : List (Nat × Nat)) (t : Tree) (h : u ∈ placesFrom way t) : u.tree = 0 := by
  obtain ⟨n, cs⟩ := t
  rw [placesFrom] at h
  rcases List.mem_cons.1 h with rfl | h
  · rfl
  · exact tree_of_mem_placesBelow _ _ _ _ h

theorem tree_of_mem_placesBelow (way : List (Nat × Nat)) (count index : Nat) (ts : List Tree)
    (h : u ∈ placesBelow way count index ts) : u.tree = 0 := by
  cases ts with
  | nil => simp [placesBelow] at h
  | cons t r =>
    rw [placesBelow] at h
    exact (List.mem_append.1 h).elim (tree_of_mem_placesFrom _ t) (tree_of_mem_placesBelow _ _ _ r)

end

theorem root_mem_placesFrom (way : List (Nat × Nat)) (t : Tree) : ⟨0, way, t⟩ ∈ placesFrom way t := by
  obtain ⟨n, cs⟩ := t
  rw [placesFrom]
  exact List.mem_cons_self

theorem mem_placesBelow (way : List (Nat × Nat)) (count index : Nat) (ts : List Tree) (i : Nat) (hi : i < ts.length) :
    ⟨0, way ++ [(index + i, count)], ts[i]⟩ ∈ placesBelow way count index ts := by
  induction ts generalizing index i with
  | nil => simp at hi
  | cons t r ih =>
    rw [placesBelow]
    cases i with
    | zero => exact List.mem_append_left _ (root_mem_placesFrom _ t)
    | succ i =>
      have hrest := ih (index + 1) i (by simpa using hi)
      rw [Nat.add_right_comm] at hrest
      exact List.mem_append_right _ hrest

mutual

theorem child_mem_placesFrom (way : List (Nat × Nat)) (t : Tree) (h : u ∈ placesFrom way t) (i : Nat)
    (hi : i < u.part.children.length) : u.child i hi ∈ placesFrom way t := by
  obtain ⟨n, cs⟩ := t
  rw [placesFrom] at h ⊢
  rcases List.mem_cons.1 h with rfl | h
  · have hchild := mem_placesBelow way cs.length 0 cs i hi
    rw [Nat.zero_add] at hchild
    exact List.mem_cons_of_mem _ hchild
  · exact List.mem_cons_of_mem _ (child_mem_placesBelow _ _ _ _ h i hi)

theorem child_mem_placesBelow (way : List (Nat × Nat)) (count index : Nat) (ts : List Tree) (h : u ∈ placesBelow way count index ts)
    (i : Nat) (hi : i < u.part.children.length) : u.child i hi ∈ placesBelow way count index ts := by
  cases ts with
  | nil => simp [placesBelow] at h
  | cons t r =>
    rw [placesBelow] at h ⊢
    rcases List.mem_append.1 h with h | h
    · exact List.mem_append_left _ (child_mem_placesFrom _ t h i hi)
    · exact List.mem_append_right _ (child_mem_placesBelow _ _ _ r h i hi)

end

theorem child_mem_places (h : u ∈ places ts) (i : Nat) (hi : i < u.part.children.length) : u.child i hi ∈ places ts := by
  induction ts generalizing u with
  | nil => simp [places] at h
  | cons t r ih =>
    rw [places] at h ⊢
    rcases List.mem_append.1 h with h | h
    · exact List.mem_append_left _ (child_mem_placesFrom _ t h i hi)
    · obtain ⟨v, hv, rfl⟩ := List.mem_map.1 h
      exact List.mem_append_right _ (List.mem_map.2 ⟨v.child i hi, ih hv hi, rfl⟩)

theorem root_mem_places (k : Nat) (hk : k < ts.length) : ⟨k, [], ts[k]⟩ ∈ places ts := by
  induction ts generalizing k with
  | nil => simp at hk
  | cons t r ih =>
    rw [places]
    cases k with
    | zero => exact List.mem_append_left _ (root_mem_placesFrom [] t)
    | succ k => exact List.mem_append_right _ (List.mem_map.2 ⟨_, ih k (by simpa using hk), rfl⟩)

/-- How far a way leads to the right, in half steps: at each step down by as many as the child has siblings to its left, less those to its
right. -/
def column (way : List (Nat × Nat)) : Int := (way.map fun s => 2 * (s.1 : Int) + 1 - s.2).sum

theorem column_concat (way : List (Nat × Nat)) (i n : Nat) : column (way ++ [(i, n)]) = column way + (2 * (i : Int) + 1 - n) := by
  simp [column]

variable {K : Type} [Field K] [LinearOrder K]

instance exactArithmetic : Arithmetic K where
  ofNat n := n
  add := (· + ·)
  sub := (· - ·)
  mul := (· * ·)
  half a := a / (2 : Nat)
  lt a b := decide (a < b)

theorem exact_ofNat (n : Nat) : (ofNat n : K) = n := rfl

theorem exact_add (a b : K) : add a b = a + b := rfl

theorem exact_mul (a b : K) : mul a b = a * b := rfl

theorem exact_half (a : K) : half a = a / 2 := congrArg (a / ·) Nat.cast_ofNat

theorem exact_lt (a b : K) : lt a b = decide (a < b) := rfl

def Options.stepX (o : Options K) : K := o.nodeWidth + o.spacingX

def Options.halfStep (o : Options K) : K := half o.stepX

theorem Options.halfStep_eq (o : Options K) : o.halfStep = o.stepX / 2 := exact_half _

def Options.stepY (o : Options K) : K := o.nodeHeight + o.spacingY

theorem Options.span_eq (o : Options K) {n : Nat} (hn : 0 < n) : o.span n = n * o.stepX - o.spacingX := by
  unfold span stepX
  rw [exact_add, exact_mul, exact_mul, exact_ofNat, exact_ofNat, Nat.cast_sub hn]
  push_cast
  ring

def Options.position (o : Options K) (origin : Nat → K) (u : Place) : Position K :=
  ⟨u.node.id, origin u.tree + column u.way * o.halfStep, u.depth * o.stepY⟩

theorem isLeast_cons_cons {α : Type} [LinearOrder α] {a b m : α} {l : List α} (h : IsLeast {x | x ∈ min a b :: l} m) :
    IsLeast {x | x ∈ a :: b :: l} m := by
  obtain ⟨hmem, hle⟩ := h
  constructor
  · rcases List.mem_cons.1 hmem with rfl | hmem
    · rcases min_choice a b with h | h <;> simp [h]
    · exact List.mem_cons_of_mem _ (List.mem_cons_of_mem _ hmem)
  · intro x hx
    rcases List.mem_cons.1 hx with rfl | hx
    · exact (hle List.mem_cons_self).trans (min_le_left _ _)
    · rcases List.mem_cons.1 hx with rfl | hx
      · exact (hle List.mem_cons_self).trans (min_le_right _ _)
      · exact hle (List.mem_cons_of_mem _ hx)

theorem smallest_isLeast (a : K) (l : List K) : IsLeast {x | x ∈ a :: l} (smallest a l) := by
  induction l generalizing a with
  | nil => exact ⟨List.mem_singleton_self a, fun x hx => (List.mem_singleton.1 hx).ge⟩
  | cons b r ih =>
    have hmin : (if lt b a then b else a) = min a b := by simp [exact_lt, min_comm a b ▸ min_def_lt b a]
    rw [smallest, hmin]
    exact isLeast_cons_cons (ih _)

theorem largest_isGreatest (a : K) (l : List K) : IsGreatest {x | x ∈ a :: l} (largest a l) := by
  induction l generalizing a with
  | nil => exact ⟨List.mem_singleton_self a, fun x hx => (List.mem_singleton.1 hx).le⟩
  | cons b r ih =>
    have hmax : (if lt a b then b else a) = max a b := by simp [exact_lt, max_def_lt]
    rw [largest, hmax]
    exact isLeast_cons_cons (α := Kᵒᵈ) (ih _)

theorem child_x [IsStrictOrderedRing K] (o : Options K) (x : K) {i n : Nat} (hi : i < n) :
    x + half (o.nodeWidth - o.span n) + i * o.stepX = x + ((2 * (i : Int) + 1 - n : Int) : K) * o.halfStep := by
  rw [o.span_eq (Nat.zero_lt_of_lt hi), exact_half, o.halfStep_eq]
  push_cast
  unfold Options.stepX
  ring

mutual

theorem place_eq [IsStrictOrderedRing K] (o : Options K) (origin : Nat → K) (way : List (Nat × Nat)) (t : Tree) :
    place o (origin 0 + column way * o.halfStep) way.length t = (placesFrom way t).map (o.position origin) := by
  obtain ⟨n, cs⟩ := t
  rw [place, placesFrom, List.map_cons, ← placeAll_eq o origin way cs.length 0 cs (Nat.zero_add _).le]
  rfl

theorem placeAll_eq [IsStrictOrderedRing K] (o : Options K) (origin : Nat → K) (way : List (Nat × Nat)) (count index : Nat)
    (ts : List Tree) (h : index + ts.length ≤ count) :
    placeAll o (origin 0 + column way * o.halfStep + half (o.nodeWidth - o.span count)) index (way.length + 1) ts =
      (placesBelow way count index ts).map (o.position origin) := by
  cases ts with
  | nil => rfl
  | cons t r =>
    rw [List.length_cons] at h
    have hx := child_x o (origin 0 + column way * o.halfStep) (show index < count by omega)
    have hfirst := place_eq o origin (way ++ [(index, count)]) t
    rw [column_concat, Int.cast_add, add_mul, ← add_assoc, ← hx, List.length_append] at hfirst
    rw [placeAll, placesBelow, List.map_append, ← placeAll_eq o origin way count (index + 1) r (by omega), ← hfirst]
    rfl

end

variable [IsStrictOrderedRing K]

theorem tree_eq (o : Options K) (t : Tree) : tree o t = (placesFrom [] t).map (o.position fun _ => rootX o t) := by
  have h := place_eq o (fun _ => rootX o t) [] t
  rwa [show column [] = 0 from rfl, Int.cast_zero, zero_mul, add_zero] at h

section Shifts

variable {ι : Type} {us : Set ι} {f g : ι → K} {m c : K}

omit [LinearOrder K] [IsStrictOrderedRing K] in
theorem image_shift (hg : ∀ u ∈ us, g u = f u + c) : g '' us = (· + c) '' (f '' us) := by
  rw [Set.image_image]
  exact Set.image_congr hg

theorem isLeast_shift (h : IsLeast (f '' us) m) (hg : ∀ u ∈ us, g u = f u + c) : IsLeast (g '' us) (m + c) := by
  rw [image_shift hg]
  exact Monotone.map_isLeast (fun _ _ hle => add_le_add_left hle c) h

theorem isGreatest_shift (h : IsGreatest (f '' us) m) (hg : ∀ u ∈ us, g u = f u + c) : IsGreatest (g '' us) (m + c) := by
  rw [image_shift hg]
  exact Monotone.map_isGreatest (fun _ _ hle => add_le_add_left hle c) h

end Shifts

/-- Do nodes at some places reach from one border to another? -/
structure Reaches (o : Options K) (f : Place → Position K) (us : Set Place) (left right : K) : Prop where
  left : IsLeast ((fun u => (f u).x) '' us) left
  right : IsGreatest ((fun u => (f u).x + o.nodeWidth) '' us) right

theorem Reaches.shift {o : Options K} {f g : Place → Position K} {us : Set Place} {left right c : K} (h : Reaches o f us left right)
    (hg : ∀ u ∈ us, (g u).x = (f u).x + c) : Reaches o g us (left + c) (right + c) where
  left := isLeast_shift h.left hg
  right := isGreatest_shift h.right fun u hu => by rw [hg u hu, add_right_comm]

theorem extent_reaches (o : Options K) (f : Place → Position K) {us : List Place} (h : us ≠ []) :
    Reaches o f {u | u ∈ us} (extent o (us.map f)).1 (extent o (us.map f)).2 := by
  obtain ⟨u, us, rfl⟩ := List.exists_cons_of_ne_nil h
  have himage : (fun v => (f v).x) '' {v | v ∈ u :: us} = {x | x ∈ (f u).x :: (us.map f).map Position.x} := by
    ext x
    simp [eq_comm]
  constructor
  · rw [himage]
    exact smallest_isLeast _ _
  · refine isGreatest_shift (f := fun v => (f v).x) ?_ fun _ _ => rfl
    rw [himage]
    exact largest_isGreatest _ _

def placesOf (ts : List Tree) (k : Nat) : Set Place := {u | u ∈ places ts ∧ u.tree = k}

theorem placesOf_zero (t : Tree) (r : List Tree) : placesOf (t :: r) 0 = {u | u ∈ placesFrom [] t} := by
  ext u
  constructor
  · rintro ⟨h, htree⟩
    rcases List.mem_append.1 h with h | h
    · exact h
    · obtain ⟨v, _, rfl⟩ := List.mem_map.1 h
      cases htree
  · exact fun h => ⟨List.mem_append_left _ h, tree_of_mem_placesFrom _ t h⟩

theorem placesOf_succ (t : Tree) (r : List Tree) (k : Nat) : placesOf (t :: r) (k + 1) = Place.later '' placesOf r k := by
  ext u
  constructor
  · rintro ⟨h, htree⟩
    rcases List.mem_append.1 h with h | h
    · cases (tree_of_mem_placesFrom _ t h).symm.trans htree
    · obtain ⟨v, hv, rfl⟩ := List.mem_map.1 h
      exact ⟨v, ⟨hv, Nat.succ.inj htree⟩, rfl⟩
  · rintro ⟨v, ⟨hv, rfl⟩, rfl⟩
    exact ⟨List.mem_append_right _ (List.mem_map_of_mem hv), rfl⟩

/-- Do the trees stand in a row, each as far as its borders and all at the same distance? -/
structure InRow (o : Options K) (f : Place → Position K) (ts : List Tree) (left right : Nat → K) : Prop where
  reaches : ∀ k, k < ts.length → Reaches o f (placesOf ts k) (left k) (right k)
  next : ∀ k, k + 1 < ts.length → left (k + 1) = right k + o.treeSpacing

def ahead (a : K) (g : Nat → K) : Nat → K
  | 0 => a
  | k + 1 => g k

omit [IsStrictOrderedRing K] in
theorem row_cons (o : Options K) (offset : K) (t : Tree) (r : List Tree) {left right : K} (h : extent o (tree o t) = (left, right)) :
    row o offset (t :: r) =
      (tree o t).map (fun p => ⟨p.id, p.x - left + offset, p.y⟩) ++ row o (offset + (right - left + o.treeSpacing)) r := by
  rw [row, h]
  rfl

omit [IsStrictOrderedRing K] in
theorem position_ahead (o : Options K) (x left offset : K) (origin : Nat → K) (h : u.tree = 0) :
    o.position (ahead (x - left + offset) origin) u =
      ⟨u.node.id, (o.position (fun _ => x) u).x - left + offset, u.depth * o.stepY⟩ := by
  simp only [Options.position, h, ahead, Position.mk.injEq, true_and, and_true]
  ring

omit [IsStrictOrderedRing K] in
theorem Reaches.later {o : Options K} {origin : Nat → K} {us : Set Place} {left right : K} (a : K)
    (h : Reaches o (o.position origin) us left right) : Reaches o (o.position (ahead a origin)) (Place.later '' us) left right where
  left := by
    rw [Set.image_image]
    exact h.left
  right := by
    rw [Set.image_image]
    exact h.right

omit [IsStrictOrderedRing K] in
theorem InRow.cons {o : Options K} {t : Tree} {r : List Tree} {origin left right : Nat → K} {a first last : K}
    (htree : Reaches o (o.position (ahead a origin)) {u | u ∈ placesFrom [] t} first last) (hrow : InRow o (o.position origin) r left right)
    (hnext : left 0 = last + o.treeSpacing) :
    InRow o (o.position (ahead a origin)) (t :: r) (ahead first left) (ahead last right) where
  reaches k hk := by
    cases k with
    | zero =>
      rw [placesOf_zero]
      exact htree
    | succ k =>
      rw [placesOf_succ]
      exact (hrow.reaches k (by simpa using hk)).later a
  next k hk := by
    cases k with
    | zero => exact hnext
    | succ k => exact hrow.next k (by simpa using hk)

theorem exists_row (o : Options K) (offset : K) (ts : List Tree) :
    ∃ origin left right : Nat → K, row o offset ts = (places ts).map (o.position origin) ∧ left 0 = offset ∧
      InRow o (o.position origin) ts left right := by
  induction ts generalizing offset with
  | nil => exact ⟨fun _ => 0, fun _ => offset, fun _ => 0, rfl, rfl, nofun, nofun⟩
  | cons t r ih =>
    obtain ⟨L, R, hextent⟩ : ∃ L R, extent o (tree o t) = (L, R) := ⟨_, _, rfl⟩
    obtain ⟨origin, left, right, hrow, hfirst, hborders⟩ := ih (offset + (R - L + o.treeSpacing))
    have hahead : ∀ u ∈ placesFrom [] t, o.position (ahead (rootX o t - L + offset) origin) u = _ := fun u hu =>
      position_ahead o (rootX o t) L offset origin (tree_of_mem_placesFrom _ t hu)
    have htree := extent_reaches o (o.position fun _ => rootX o t) (List.ne_nil_of_mem (root_mem_placesFrom [] t))
    rw [← tree_eq, hextent] at htree
    have hmoved := htree.shift (g := o.position (ahead (rootX o t - L + offset) origin)) (c := offset - L) fun u hu => by
      rw [hahead u hu]
      ring
    refine ⟨_, _, _, ?_, ?_, .cons hmoved hborders ?_⟩
    · rw [row_cons o offset t r hextent, hrow, places, List.map_append, List.map_map, tree_eq, List.map_map, List.map_congr_left hahead]
      rfl
    · exact add_sub_cancel L offset
    · rw [hfirst]
      ring

section Borders

variable {o : Options K} {f : Place → Position K} {left right : Nat → K} {us : Set Place} {l r : K}

omit [IsStrictOrderedRing K] in
theorem Reaches.bounds (h : Reaches o f us l r) (hu : u ∈ us) : l ≤ (f u).x ∧ (f u).x + o.nodeWidth ≤ r :=
  ⟨h.left.2 ⟨u, hu, rfl⟩, h.right.2 ⟨u, hu, rfl⟩⟩

theorem Reaches.lt (h : Reaches o f us l r) (hwidth : 0 < o.nodeWidth) : l < r := by
  obtain ⟨u, hu, -⟩ := h.left.1
  obtain ⟨hl, hr⟩ := h.bounds hu
  exact hl.trans_lt ((lt_add_of_pos_right _ hwidth).trans_le hr)

theorem InRow.right_add_le (h : InRow o f ts left right) (hwidth : 0 < o.nodeWidth) (htrees : 0 ≤ o.treeSpacing) {k l : Nat} (hkl : k < l)
    (hl : l < ts.length) : right k + o.treeSpacing ≤ left l := by
  induction l, hkl using Nat.le_induction with
  | base => exact (h.next k hl).ge
  | succ l _ ih =>
    calc right k + o.treeSpacing ≤ left l := ih (Nat.lt_of_succ_lt hl)
      _ ≤ right l := ((h.reaches l (Nat.lt_of_succ_lt hl)).lt hwidth).le
      _ ≤ right l + o.treeSpacing := le_add_of_nonneg_right htrees
      _ = left (l + 1) := (h.next l hl).symm

end Borders

/-- Do the children of a node stand from left to right at equal steps, with the middle of their span below the middle of the node? The
borders of the span and those of the node have the same middle if they have the same sum. -/
def Centred (o : Options K) (f : Place → Position K) (u : Place) : Prop :=
  ∃ start, (∀ i hi, (f (u.child i hi)).x = start + i * (o.nodeWidth + o.spacingX)) ∧
    start + (start + ((u.part.children.length : K) - 1) * (o.nodeWidth + o.spacingX) + o.nodeWidth) = (f u).x + ((f u).x + o.nodeWidth)

theorem position_centred (o : Options K) (origin : Nat → K) (u : Place) : Centred o (o.position origin) u := by
  refine ⟨(o.position origin u).x - ((u.part.children.length : K) - 1) * o.stepX / 2, fun i hi => ?_, ?_⟩
  · simp only [Options.position, Place.child, column_concat, Options.halfStep_eq, Options.stepX]
    push_cast
    ring
  · rw [Options.stepX]
    ring

/-- Every node of the forest has one position, in the order of a walk. Its depth decides its y coordinate, and its children stand centred
below it. The first tree begins at zero, and each further one at the fixed distance from the one before it. -/
theorem forest_geometry (o : Options K) (ts : List Tree) (hwidth : 0 < o.nodeWidth) (htrees : 0 ≤ o.treeSpacing) :
    (places ts).map Place.node = walkAll ts ∧ (∀ k (hk : k < ts.length), ⟨k, [], ts[k]⟩ ∈ places ts) ∧
      (∀ u ∈ places ts, ∀ i hi, u.child i hi ∈ places ts) ∧
        ∃ f : Place → Position K, forest o ts = (places ts).map f ∧
          (∀ u ∈ places ts, (f u).id = u.node.id ∧ (f u).y = u.depth * (o.nodeHeight + o.spacingY) ∧ Centred o f u) ∧
            ∃ left right : Nat → K, InRow o f ts left right ∧ left 0 = 0 ∧
              ∀ k l, k < l → l < ts.length → Disjoint (Set.Ico (left k) (right k)) (Set.Ico (left l) (right l)) := by
  obtain ⟨origin, left, right, hrow, hfirst, hborders⟩ := exists_row o (half (ofNat 0)) ts
  refine ⟨places_node ts, root_mem_places, fun u hu => child_mem_places hu, o.position origin, hrow,
    fun u _ => ⟨rfl, rfl, position_centred o origin u⟩, left, right, hborders, ?_, fun k l hkl hl => ?_⟩
  · rw [hfirst, exact_half, exact_ofNat, Nat.cast_zero, zero_div]
  · have hright : right k ≤ left l := (le_add_of_nonneg_right htrees).trans (hborders.right_add_le hwidth htrees hkl hl)
    exact Set.Ico_disjoint_Ico.2 ((min_le_left _ _).trans (hright.trans (le_max_right _ _)))

def plainTree (id : String) (cs : List Tree) : Tree := .branch ⟨id, "Sequence", "composite", id, 0.0, 0.0, []⟩ cs

def cousins : List Tree :=
  [plainTree "r" [plainTree "a" [plainTree "a1" [], plainTree "a2" []], plainTree "b" [plainTree "b1" [], plainTree "b2" []]],
    plainTree "s" []]

def usualOptions : Options ℚ := ⟨150, 40, 20, 20, 40⟩

theorem usualOptions_positive :
    0 < usualOptions.nodeWidth ∧ 0 < usualOptions.nodeHeight ∧ 0 ≤ usualOptions.spacingX ∧ 0 ≤ usualOptions.spacingY ∧
      0 ≤ usualOptions.treeSpacing := by
  decide +kernel

theorem cousins_geometry :
    0 < usualOptions.nodeWidth ∧ 0 ≤ usualOptions.treeSpacing ∧
      ∃ (f : Place → Position ℚ) (left right : Nat → ℚ), forest usualOptions cousins = (places cousins).map f ∧
        (∀ u ∈ places cousins, Centred usualOptions f u) ∧ left 0 = 0 ∧ left 1 = right 0 + 40 ∧
          Disjoint (Set.Ico (left 0) (right 0)) (Set.Ico (left 1) (right 1)) := by
  obtain ⟨hwidth, -, -, -, htrees⟩ := usualOptions_positive
  obtain ⟨-, -, -, f, hf, hplaced, left, right, hrow, hfirst, hdisjoint⟩ := forest_geometry usualOptions cousins hwidth htrees
  exact ⟨hwidth, htrees, f, left, right, hf, fun u hu => (hplaced u hu).2.2, hfirst, hrow.next 0 (by decide),
    hdisjoint 0 1 Nat.one_pos (by decide)⟩

example : (forest usualOptions cousins).map Position.x = [170, 85, 0, 170, 255, 170, 340, 530] := by decide +kernel

end BehaviorTree.Layout
