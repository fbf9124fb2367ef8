import BehaviorTree.Proofs.Graph.Grid

/-!
Computing with finite floats. Adding a finite float to a number, or taking it away, gives a number again, though it may be infinite; so
does dividing a number by a count.
-/

set_option autoImplicit false

namespace BehaviorTree

open Float.Model Float.Model.UnpackedFloat

variable {x y : Float} {xs : List Float} {u v : UnpackedFloat} {n : ℕ}

theorem unpacked_of_isFinite (h : u.isFinite) : u.isNaN = false ∧ u.isInf = false := by
  cases u with
  | infinity s => cases h
  | notANumber => cases h
  | zero s => exact ⟨rfl, rfl⟩
  | finite s m e hm => exact ⟨rfl, rfl⟩

theorem isNaN_of_isFinite (h : x.isFinite) : x.isNaN = false := (unpacked_of_isFinite (u := x.toModel.unpack) h).1

theorem isInf_of_isFinite (h : x.isFinite) : x.isInf = false := (unpacked_of_isFinite (u := x.toModel.unpack) h).2

theorem unpacked_add_isNaN (hu : u.isNaN = false) (hv : v.isFinite) : (UnpackedFloat.add Format.binary64 u v).isNaN = false := by
  cases v with
  | infinity t => cases hv
  | notANumber => cases hv
  | zero t =>
    cases u with
    | notANumber => cases hu
    | infinity s => rfl
    | zero s => cases s <;> cases t <;> rfl
    | finite s m e hm => rfl
  | finite t n f hn =>
    cases u with
    | notANumber => cases hu
    | infinity s => rfl
    | zero s => rfl
    | finite s m e hm => exact (rounds_normalize _ _ .positive).number

theorem isNaN_add_finite (hx : x.isNaN = false) (hy : y.isFinite) : (x + y).isNaN = false :=
  (isNearest_of_rounds (rounds_add (unpack_isCanonical _) (unpack_isCanonical _) (unpacked_add_isNaN hx hy))).number

theorem isFinite_neg (h : v.isFinite) : v.neg.isFinite := by
  cases v with
  | infinity s => cases h
  | notANumber => cases h
  | zero s => rfl
  | finite s m e hm => rfl

theorem isNaN_sub_finite (hx : x.isNaN = false) (hy : y.isFinite) : (x - y).isNaN = false := by
  have hsub : (UnpackedFloat.sub Format.binary64 x.toModel.unpack y.toModel.unpack).isNaN = false := by
    rw [unpacked_sub_eq]
    exact unpacked_add_isNaN hx (isFinite_neg hy)
  exact (isNearest_of_rounds (rounds_sub (unpack_isCanonical _) (unpack_isCanonical _) hsub)).number

theorem isNaN_sum {a : Float} (ha : a.isNaN = false) (h : ∀ x ∈ xs, x.isFinite) : (xs.foldl (· + ·) a).isNaN = false := by
  induction xs generalizing a with
  | nil => exact ha
  | cons x r ih =>
    obtain ⟨hx, hr⟩ := List.forall_mem_cons.1 h
    exact ih (isNaN_add_finite ha hx) hr

theorem isFinite_of_pack (h : (Float.ofModel (.pack u)).isFinite) : u.isFinite := by
  have hunpack : (Float.Model.pack u).unpack.isFinite := h
  cases u with
  | infinity s =>
    rw [unpack_pack_infinity] at hunpack
    cases hunpack
  | notANumber =>
    rw [unpack_pack_nan] at hunpack
    cases hunpack
  | zero s => rfl
  | finite s m e hm => rfl

theorem unpacked_isFinite_of_add (h : (UnpackedFloat.add Format.binary64 u v).isFinite) : v.isFinite := by
  cases v with
  | infinity t =>
    cases u with
    | infinity s => cases s <;> cases t <;> cases h
    | notANumber => cases h
    | zero s => cases h
    | finite s m e hm => cases h
  | notANumber => cases u <;> cases h
  | zero t => rfl
  | finite t n f hn => rfl

theorem isFinite_of_add (h : (x + y).isFinite) : y.isFinite :=
  unpacked_isFinite_of_add (u := x.toModel.unpack) (v := y.toModel.unpack) (isFinite_of_pack h)

theorem isNaN_div_count (hn : 1 ≤ n) (hcount : (Float.ofNat n).isFinite) (hx : x.isNaN = false) : (x / Float.ofNat n).isNaN = false := by
  have hone : 1 ≤ floatValue (Float.ofNat n) := one_le_floatValue (k := n) (by exact_mod_cast hn) (by exact_mod_cast isNearest_ofNat n)
  obtain ⟨m, e, hm, hunpack⟩ := unpack_of_pos (isInf_of_isFinite hcount) (zero_lt_one.trans_le hone)
  exact (isNearest_div hunpack hx).number

end BehaviorTree
