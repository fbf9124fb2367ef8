import BehaviorTree.Proofs.Value.FloatRounding

/-!
Arithmetic with floats keeps the order of the operands, unless the result is NaN.
-/

set_option autoImplicit false

namespace BehaviorTree

open Float.Model Float.Model.UnpackedFloat

variable {x y z w : Float} {u : UnpackedFloat} {r q : EReal}

theorem floatValue_le_iff (hx : x.isNaN = false) (hy : y.isNaN = false) : floatValue x ≤ floatValue y ↔ x ≤ y := by
  rw [float_le_iff hx hy]
  exact unpackedValue_le_iff (unpack_isCanonical _) (unpack_isCanonical _) hx hy

theorem isNaN_of_le (h : x ≤ y) : x.isNaN = false ∧ y.isNaN = false := by
  have hle : UnpackedFloat.le x.toModel.unpack y.toModel.unpack = true := of_decide_eq_true h
  have hx : x.isNaN = x.toModel.unpack.isNaN := rfl
  have hy : y.isNaN = y.toModel.unpack.isNaN := rfl
  rw [hx, hy]
  generalize x.toModel.unpack = u at *
  generalize y.toModel.unpack = v at *
  cases u <;> cases v <;> simp_all [UnpackedFloat.le, UnpackedFloat.compare, UnpackedFloat.isNaN]

structure IsNearest (x : Float) (r : EReal) : Prop where
  number : x.isNaN = false
  value : floatValue x = rounded r

theorem IsNearest.le (hx : IsNearest x r) (hy : IsNearest y q) (h : r ≤ q) : x ≤ y := by
  rw [← floatValue_le_iff hx.number hy.number, hx.value, hy.value]
  exact rounded_mono h

theorem isNearest_of_rounds (h : Rounds u r) : IsNearest (.ofModel (.pack u)) r := by
  refine ⟨?_, (unpackedValue_pack h.canonical).trans h.nearest⟩
  have hnumber := h.number
  have hunpack : (Float.ofModel (.pack u)).isNaN = (Float.Model.pack u).unpack.isNaN := rfl
  rw [hunpack]
  cases u with
  | notANumber => cases hnumber
  | infinity s =>
    rw [unpack_pack_infinity]
    rfl
  | zero s =>
    rw [unpack_pack_zero]
    rfl
  | finite s m e hm =>
    rcases lt_or_ge e 972 with he | he
    · rw [unpack_pack_of_small h.canonical he]
      rfl
    · rw [unpack_pack_of_large he]
      rfl

theorem isNaN_of_pack (h : (Float.ofModel (.pack u)).isNaN = false) : u.isNaN = false := by
  cases u with
  | notANumber =>
    have hnan : (Float.ofModel (.pack .notANumber)).isNaN = UnpackedFloat.isNaN .notANumber :=
      congrArg UnpackedFloat.isNaN unpack_pack_nan
    rw [hnan] at h
    cases h
  | infinity s => rfl
  | zero s => rfl
  | finite s m e hm => rfl

theorem isNaN_of_operation (f : UnpackedFloat → UnpackedFloat → UnpackedFloat) (hleft : ∀ v, f .notANumber v = .notANumber)
    (hright : ∀ u, f u .notANumber = .notANumber)
    (h : (Float.ofModel (.pack (f x.toModel.unpack y.toModel.unpack))).isNaN = false) : x.isNaN = false ∧ y.isNaN = false := by
  have hf : (f x.toModel.unpack y.toModel.unpack).isNaN = false := isNaN_of_pack h
  have hnan : ∀ {u : UnpackedFloat}, u.isNaN = true → u = .notANumber := by
    intro u hu
    cases u <;> first | rfl | cases hu
  refine ⟨Bool.eq_false_iff.2 fun hx => ?_, Bool.eq_false_iff.2 fun hy => ?_⟩
  · rw [hnan (u := x.toModel.unpack) hx, hleft] at hf
    cases hf
  · rw [hnan (u := y.toModel.unpack) hy, hright] at hf
    cases hf

theorem isNaN_of_add (h : (x + y).isNaN = false) : x.isNaN = false ∧ y.isNaN = false :=
  isNaN_of_operation (UnpackedFloat.add Format.binary64) (fun _ => rfl) (fun u => by cases u <;> rfl) h

theorem isNaN_of_sub (h : (x - y).isNaN = false) : x.isNaN = false ∧ y.isNaN = false :=
  isNaN_of_operation (UnpackedFloat.sub Format.binary64) (fun _ => rfl) (fun u => by cases u <;> rfl) h

theorem isNaN_of_mul (h : (x * y).isNaN = false) : x.isNaN = false ∧ y.isNaN = false :=
  isNaN_of_operation (UnpackedFloat.mul Format.binary64) (fun _ => rfl) (fun u => by cases u <;> rfl) h

theorem isNaN_of_div (h : (x / y).isNaN = false) : x.isNaN = false ∧ y.isNaN = false :=
  isNaN_of_operation (UnpackedFloat.div Format.binary64) (fun _ => rfl) (fun u => by cases u <;> rfl) h

theorem isNearest_add (h : (x + y).isNaN = false) : IsNearest (x + y) (floatValue x + floatValue y) :=
  isNearest_of_rounds (rounds_add (unpack_isCanonical _) (unpack_isCanonical _) (isNaN_of_pack h))

theorem isNearest_sub (h : (x - y).isNaN = false) : IsNearest (x - y) (floatValue x - floatValue y) :=
  isNearest_of_rounds (rounds_sub (unpack_isCanonical _) (unpack_isCanonical _) (isNaN_of_pack h))

theorem isNearest_mul (h : (x * y).isNaN = false) : IsNearest (x * y) (floatValue x * floatValue y) :=
  isNearest_of_rounds (rounds_mul (unpack_isCanonical _) (unpack_isCanonical _) (isNaN_of_pack h))

theorem isNearest_div {n : ℕ} {f : ℤ} {hn : 0 < n} (hy : y.toModel.unpack = .finite .positive n f hn) (hx : x.isNaN = false) :
    IsNearest (x / y) (floatValue x / (magnitude n f : ℝ)) := by
  have hdiv : x / y = .ofModel (.pack (UnpackedFloat.div Format.binary64 x.toModel.unpack (.finite .positive n f hn))) := by
    rw [← hy]
    rfl
  rw [hdiv]
  exact isNearest_of_rounds (rounds_div hn hx)

theorem floatValue_le_of_le (h : x ≤ y) : floatValue x ≤ floatValue y :=
  (floatValue_le_iff (isNaN_of_le h).1 (isNaN_of_le h).2).2 h

theorem float_add_le_add (h : x ≤ y) (h' : z ≤ w) (hx : (x + z).isNaN = false) (hy : (y + w).isNaN = false) : x + z ≤ y + w :=
  (isNearest_add hx).le (isNearest_add hy) (add_le_add (floatValue_le_of_le h) (floatValue_le_of_le h'))

theorem float_sub_le_sub (h : x ≤ y) (hx : (x - z).isNaN = false) (hy : (y - z).isNaN = false) : x - z ≤ y - z :=
  (isNearest_sub hx).le (isNearest_sub hy) (EReal.sub_le_sub (floatValue_le_of_le h) le_rfl)

theorem float_le_of_lt (h : x < y) : x ≤ y := by
  have hlt : UnpackedFloat.lt x.toModel.unpack y.toModel.unpack = true := of_decide_eq_true h
  refine decide_eq_true (p := UnpackedFloat.le x.toModel.unpack y.toModel.unpack = true) ?_
  unfold UnpackedFloat.lt at hlt
  unfold UnpackedFloat.le
  rw [eq_of_beq hlt]
  rfl

theorem float_le_refl (h : x.isNaN = false) : x ≤ x := (floatValue_le_iff h h).1 le_rfl

theorem floatValue_zero : floatValue 0.0 = 0 := rfl

theorem float_mul_le_mul (hz : 0.0 ≤ z) (h : x ≤ y) (hx : (x * z).isNaN = false) (hy : (y * z).isNaN = false) : x * z ≤ y * z := by
  have hpos : 0 ≤ floatValue z := floatValue_zero ▸ floatValue_le_of_le hz
  exact (isNearest_mul hx).le (isNearest_mul hy) (mul_le_mul_of_nonneg_right (floatValue_le_of_le h) hpos)

end BehaviorTree
