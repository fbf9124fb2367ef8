import BehaviorTree.Proofs.Tree.Extraction
import BehaviorTree.Proofs.Value.Conversion
import BehaviorTree.Tree.Layout

/-!
Positions of a layout. Each node of a forest has one, in the order of a walk. The children of a node stand at equal distances from the
first of them, up to one shift for all nodes of a tree. Floats keep no distances, but they keep the order.
-/

set_option autoImplicit false

namespace BehaviorTree.Layout

open Arithmetic BehaviorTree.Tree

variable {α : Type}

def StandsAt (ps : List (Position α)) (id : String) (x : α) : Prop := ∃ p ∈ ps, p.id = id ∧ p.x = x

theorem StandsAt.mono {ps qs : List (Position α)} {id : String} {x : α} (h : StandsAt ps id x) (hsub : ps ⊆ qs) :
    StandsAt qs id x := by
  obtain ⟨p, hp, hid, hx⟩ := h
  exact ⟨p, hsub hp, hid, hx⟩

variable [Arithmetic α] {o : Options α} {p : Tree} {ts : List Tree}

mutual

theorem place_ids (o : Options α) (x : α) (depth : Nat) (t : Tree) :
    (place o x depth t).map Position.id = t.walk.map Node.id := by
  obtain ⟨n, cs⟩ := t
  rw [place, walk, List.map_cons, List.map_cons, placeAll_ids]

theorem placeAll_ids (o : Options α) (start : α) (index depth : Nat) (ts : List Tree) :
    (placeAll o start index depth ts).map Position.id = (walkAll ts).map Node.id := by
  cases ts with
  | nil => rfl
  | cons t r => rw [placeAll, walkAll, List.map_append, List.map_append, place_ids, placeAll_ids]

end

theorem row_ids (o : Options α) (offset : α) (ts : List Tree) :
    (row o offset ts).map Position.id = (walkAll ts).map Node.id := by
  induction ts generalizing offset with
  | nil => rfl
  | cons t r ih =>
    rw [walkAll, List.map_append, ← ih, ← place_ids o (rootX o t) 0 t, row]
    simp only [List.map_append, List.map_map]
    rfl

theorem forest_ids (o : Options α) (ts : List Tree) : (forest o ts).map Position.id = (walkAll ts).map Node.id := row_ids o _ ts

def childX (o : Options α) (start : α) (i : Nat) : α := add start (mul (ofNat i) (add o.nodeWidth o.spacingX))

def SideBySide (o : Options α) (ps : List (Position α)) (cs : List Tree) : Prop :=
  ∃ start, ∀ i (hi : i < cs.length), StandsAt ps cs[i].node.id (childX o start i)

theorem SideBySide.mono {ps qs : List (Position α)} {cs : List Tree} (h : SideBySide o ps cs) (hsub : ps ⊆ qs) :
    SideBySide o qs cs := by
  obtain ⟨start, hstart⟩ := h
  exact ⟨start, fun i hi => (hstart i hi).mono hsub⟩

theorem place_stands (o : Options α) (x : α) (depth : Nat) (t : Tree) : StandsAt (place o x depth t) t.node.id x := by
  obtain ⟨n, cs⟩ := t
  exact ⟨_, List.mem_cons_self, rfl, rfl⟩

theorem placeAll_stands (o : Options α) (start : α) (index depth : Nat) (ts : List Tree) (i : Nat) (hi : i < ts.length) :
    StandsAt (placeAll o start index depth ts) ts[i].node.id (childX o start (index + i)) := by
  induction ts generalizing index i with
  | nil => simp at hi
  | cons t r ih =>
    rw [placeAll]
    cases i with
    | zero => exact (place_stands o _ depth t).mono (List.subset_append_left _ _)
    | succ i =>
      have hrest := ih (index + 1) i (by simpa using hi)
      rw [Nat.add_right_comm] at hrest
      exact hrest.mono (List.subset_append_right _ _)

mutual

theorem place_sideBySide (o : Options α) (x : α) (depth : Nat) (t : Tree) (h : p ∈ t.parts) :
    SideBySide o (place o x depth t) p.children := by
  obtain ⟨n, cs⟩ := t
  rw [place]
  rcases List.mem_cons.1 h with rfl | h
  · refine ⟨add x (half (sub o.nodeWidth (o.span cs.length))), fun i hi => ?_⟩
    have hchild := placeAll_stands o (add x (half (sub o.nodeWidth (o.span cs.length)))) 0 (depth + 1) cs i hi
    rw [Nat.zero_add] at hchild
    exact hchild.mono (List.subset_cons_self _ _)
  · exact (placeAll_sideBySide o _ 0 (depth + 1) cs h).mono (List.subset_cons_self _ _)

theorem placeAll_sideBySide (o : Options α) (start : α) (index depth : Nat) (ts : List Tree) (h : p ∈ partsAll ts) :
    SideBySide o (placeAll o start index depth ts) p.children := by
  cases ts with
  | nil => simp [partsAll] at h
  | cons t r =>
    rw [placeAll]
    rcases List.mem_append.1 h with h | h
    · exact (place_sideBySide o _ depth t h).mono (List.subset_append_left _ _)
    · exact (placeAll_sideBySide o start (index + 1) depth r h).mono (List.subset_append_right _ _)

end

/-- Do trees stand side by side after a shift? Its two amounts are applied one after the other. -/
def SideBySideShifted (o : Options α) (ps : List (Position α)) (cs : List Tree) : Prop :=
  ∃ start left offset, ∀ i (hi : i < cs.length), StandsAt ps cs[i].node.id (add (sub (childX o start i) left) offset)

theorem row_sideBySide (o : Options α) (offset : α) (h : p ∈ partsAll ts) :
    SideBySideShifted o (row o offset ts) p.children := by
  induction ts generalizing offset with
  | nil => simp [partsAll] at h
  | cons t r ih =>
    rw [row]
    dsimp only
    rcases List.mem_append.1 h with h | h
    · obtain ⟨start, hstart⟩ := place_sideBySide o (rootX o t) 0 t h
      refine ⟨start, (extent o (tree o t)).1, offset, fun i hi => ?_⟩
      obtain ⟨q, hq, hid, hx⟩ := hstart i hi
      refine ⟨_, List.mem_append_left _ (List.mem_map_of_mem hq), hid, ?_⟩
      rw [hx]
    · obtain ⟨start, left, offset', hstart⟩ := ih _ h
      exact ⟨start, left, offset', fun i hi => (hstart i hi).mono (List.subset_append_right _ _)⟩

section Floats

variable {o : Options Float} {start left offset : Float} {i j : Nat}

theorem childX_le (hwidth : 0.0 < o.nodeWidth) (hspacing : 0.0 ≤ o.spacingX) (hij : i ≤ j)
    (hi : (childX o start i).isNaN = false) (hj : (childX o start j).isNaN = false) : childX o start i ≤ childX o start j := by
  obtain ⟨hstart, hi'⟩ := isNaN_of_add hi
  have hj' := (isNaN_of_add hj).2
  have hzero : (0.0 + 0.0 : Float) = 0.0 := rfl
  have hnumber : (0.0 + 0.0 : Float).isNaN = false := rfl
  have hstep := float_add_le_add (float_le_of_lt hwidth) hspacing hnumber (isNaN_of_mul hi').2
  rw [hzero] at hstep
  exact float_add_le_add (float_le_refl hstart) (float_mul_le_mul hstep (float_ofNat_le hij) hi' hj') hi hj

theorem forest_ascends (hwidth : 0.0 < o.nodeWidth) (hspacing : 0.0 ≤ o.spacingX) (hp : p ∈ partsAll ts) :
    p.children.Pairwise fun u v => ∃ x y, StandsAt (forest o ts) u.node.id x ∧ StandsAt (forest o ts) v.node.id y ∧
      (x.isNaN = false → y.isNaN = false → x ≤ y) := by
  obtain ⟨start, left, offset, hstands⟩ := row_sideBySide o (half (ofNat 0)) hp
  rw [List.pairwise_iff_getElem]
  intro i j hi hj hij
  refine ⟨_, _, hstands i hi, hstands j hj, fun hx hy => ?_⟩
  obtain ⟨hx', hoffset⟩ := isNaN_of_add hx
  have hy' := (isNaN_of_add hy).1
  have hchild := childX_le hwidth hspacing hij.le (isNaN_of_sub hx').1 (isNaN_of_sub hy').1
  exact float_add_le_add (float_sub_le_sub hchild hx' hy') (float_le_refl hoffset) hx hy

end Floats

end BehaviorTree.Layout
