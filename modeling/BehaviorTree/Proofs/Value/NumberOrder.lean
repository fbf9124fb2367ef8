import BehaviorTree.Value.Number
import Mathlib.Algebra.Order.Ring.Int

/-!
Numbers against bounds that are integers. What is not below a bound is not below a lower one, whatever kind of number it is, and NaN
is below none and not above any.
-/

set_option autoImplicit false

namespace BehaviorTree

namespace Decimal

variable {x : Float} {a b : Int}

theorem compareInt_mono (hab : a ≤ b) (h : compareInt x a = .lt) : compareInt x b = .lt := by
  unfold compareInt at h ⊢
  split_ifs at h ⊢
  · rfl
  · have hpow : (0 : Int) ≤ ((Nat.pow 2 (-(Binary.ofBits x.toBits).q).toNat : Nat) : Int) := Int.natCast_nonneg _
    simp only [compare_lt_iff_lt] at h ⊢
    exact lt_of_lt_of_le h (Int.mul_le_mul_of_nonneg_right hab hpow)

theorem compareInt_zero (ha : 0 < a) (h : compareInt x a ≠ .lt) : compareInt x 0 = .gt := by
  unfold compareInt at h ⊢
  split_ifs at h ⊢
  · exact absurd rfl h
  · rfl
  · have hpow : (0 : Int) < ((Nat.pow 2 (-(Binary.ofBits x.toBits).q).toNat : Nat) : Int) := by
      exact_mod_cast Nat.pow_pos (by decide)
    simp only [ne_eq, compare_lt_iff_lt, not_lt, compare_gt_iff_gt] at h ⊢
    rw [Int.zero_mul]
    exact lt_of_lt_of_le (Int.mul_pos ha hpow) h

end Decimal

namespace Number

variable {a b : Int} {v : Number}

theorem int_le_int : (int a).le (int b) ↔ a ≤ b := by simp [le, isNaN, lt]

theorem le_eq_false_of_isNaN {x : Float} (hx : x.isNaN = true) : v.le (float x) = false := by
  simp only [le, isNaN, hx, Bool.not_true, Bool.and_false, Bool.false_and]

theorem int_le_of_le (hab : a ≤ b) (h : (int b).le v) : (int a).le v := by
  cases v with
  | int i => exact int_le_int.2 (hab.trans (int_le_int.1 h))
  | float x =>
    cases hx : x.isNaN with
    | true =>
      rw [le_eq_false_of_isNaN hx] at h
      cases h
    | false =>
      simp only [le, isNaN, lt, hx, Bool.not_false, Bool.true_and, Bool.not_eq_true', beq_eq_false_iff_ne] at h ⊢
      exact fun hlt => h (Decimal.compareInt_mono hab hlt)

theorem int_max_le : (int (Max.max a b)).le v = true ↔ (int a).le v = true ∧ (int b).le v = true := by
  refine ⟨fun h => ⟨int_le_of_le (le_max_left a b) h, int_le_of_le (le_max_right a b) h⟩, fun ⟨ha, hb⟩ => ?_⟩
  rcases max_choice a b with hmax | hmax <;> rwa [hmax]

theorem positive_of_int_le (ha : 0 < a) (h : (int a).le v) : v.le (int 0) = false := by
  cases v with
  | int i =>
    have hi := int_le_int.1 h
    rw [← Bool.not_eq_true, int_le_int]
    omega
  | float x =>
    cases hx : x.isNaN with
    | true =>
      rw [le_eq_false_of_isNaN hx] at h
      cases h
    | false =>
      simp only [le, isNaN, lt, hx, Bool.not_false, Bool.true_and, Bool.not_eq_true', beq_eq_false_iff_ne] at h ⊢
      simp [Decimal.compareInt_zero ha h]

end Number

end BehaviorTree
