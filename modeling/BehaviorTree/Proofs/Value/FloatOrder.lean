import Mathlib

/-!
The order of floats. Without NaN it is a total preorder: floats are ranked by sign and kind first, then by exponent, then by
mantissa, and the two zeros have the same rank.
-/

set_option autoImplicit false

namespace BehaviorTree

open Float.Model

/-- Where a float stands: infinities at the ends, zeros in the middle, and negative numbers in the reverse order of their
magnitudes. -/
def floatRank : UnpackedFloat → Int ×ₗ Int ×ₗ Int
  | .infinity .negative => toLex (-2, toLex (0, 0))
  | .finite .negative m e _ => toLex (-1, toLex (-e, -m))
  | .zero _ => toLex (0, toLex (0, 0))
  | .notANumber => toLex (0, toLex (0, 0))
  | .finite .positive m e _ => toLex (1, toLex (e, m))
  | .infinity .positive => toLex (2, toLex (0, 0))

theorem isLE_then_compare (d e : Int) (m n : Nat) :
    ((compare d e).then (compare m n)).isLE ↔ d < e ∨ d = e ∧ m ≤ n := by
  rw [Ordering.isLE_then_iff_and]
  simp only [Std.isLE_compare, Std.compare_eq_lt]
  omega

theorem isGE_then_compare (d e : Int) (m n : Nat) :
    ((compare d e).then (compare m n)).isGE ↔ e < d ∨ d = e ∧ n ≤ m := by
  have hswap : (compare d e).then (compare m n) = ((compare e d).then (compare n m)).swap := by
    rw [Ordering.swap_then, Std.OrientedOrd.eq_swap (a := d), Std.OrientedOrd.eq_swap (a := m)]
  rw [hswap, Ordering.isGE_swap, isLE_then_compare]
  omega

theorem unpacked_le_iff {a b : UnpackedFloat} (ha : a.isNaN = false) (hb : b.isNaN = false) :
    a.le b ↔ floatRank a ≤ floatRank b := by
  rcases a with ⟨_ | _⟩ | _ | s | ⟨_ | _, m, e, hm⟩ <;> rcases b with ⟨_ | _⟩ | _ | t | ⟨_ | _, n, d, hn⟩ <;>
    simp_all [UnpackedFloat.le, UnpackedFloat.compare, floatRank, Prod.Lex.toLex_le_toLex, UnpackedFloat.isNaN]
  case infinity.negative.infinity.negative => rfl
  case infinity.negative.infinity.positive => rfl
  case infinity.positive.infinity.negative => rfl
  case infinity.positive.infinity.positive => rfl
  case finite.negative.finite.negative => exact isGE_then_compare e d m n
  case finite.positive.finite.positive => exact isLE_then_compare e d m n

theorem unpacked_lt_iff {a b : UnpackedFloat} (ha : a.isNaN = false) (hb : b.isNaN = false) :
    a.lt b ↔ floatRank a < floatRank b := by
  rcases a with ⟨_ | _⟩ | _ | s | ⟨_ | _, m, e, hm⟩ <;> rcases b with ⟨_ | _⟩ | _ | t | ⟨_ | _, n, d, hn⟩ <;>
    simp_all [UnpackedFloat.lt, UnpackedFloat.compare, floatRank, Prod.Lex.toLex_lt_toLex, UnpackedFloat.isNaN,
      Ordering.then_eq_lt, Ordering.then_eq_gt, Std.compare_eq_lt, Std.compare_eq_gt]
  case infinity.negative.infinity.positive => rfl

variable {x y : Float}

theorem float_le_iff (hx : x.isNaN = false) (hy : y.isNaN = false) :
    x ≤ y ↔ floatRank x.toModel.unpack ≤ floatRank y.toModel.unpack := by
  rw [← unpacked_le_iff hx hy]
  exact decide_eq_true_iff

theorem float_le_of_not_lt (hx : x.isNaN = false) (hy : y.isNaN = false) (h : ¬ x < y) : y ≤ x := by
  have hlt : x < y ↔ floatRank x.toModel.unpack < floatRank y.toModel.unpack := by
    rw [← unpacked_lt_iff hx hy]
    exact decide_eq_true_iff
  rw [hlt, not_lt] at h
  exact (float_le_iff hy hx).2 h

end BehaviorTree
