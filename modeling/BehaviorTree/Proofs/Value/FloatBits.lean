import BehaviorTree.Decimal.Notation
import BehaviorTree.Proofs.Value.FloatValue

/-!
The bits of a float: sign, exponent and mantissa are read off them, and they determine the float.
-/

set_option autoImplicit false

namespace BehaviorTree

open Float.Model Float.Model.UnpackedFloat

variable {x : Float}

theorem exponentField_eq (w : UInt64) :
    ((w >>> 52) &&& 0x7FF).toNat = (@unpackExponent Format.binary64 w.toBitVec).toNat := by
  have hmask : (w.toNat >>> 52) &&& (2 ^ 11 - 1) = (w.toNat >>> 52) % 2 ^ 11 := Nat.and_two_pow_sub_one_eq_mod _ 11
  exact hmask

theorem mantissaField_eq (w : UInt64) :
    (w &&& 0xFFFFFFFFFFFFF).toNat = (@unpackMantissa Format.binary64 w.toBitVec).toNat := by
  have hmask : w.toNat &&& (2 ^ 52 - 1) = w.toNat % 2 ^ 52 := Nat.and_two_pow_sub_one_eq_mod _ 52
  exact hmask

theorem ofBits_eq (x : Float) : ∃ s i f, x.toModel.unpack = ofFields s i f ∧
    (Decimal.Binary.ofBits x.toBits).m = (if i = 0 then f else 2 ^ 52 + f) ∧
      (Decimal.Binary.ofBits x.toBits).q = if i = 0 then -1074 else (i : ℤ) - 1075 := by
  refine ⟨_, _, _, unpack_eq x.toModel.toBits.toBitVec, ?_⟩
  rw [← exponentField_eq, ← mantissaField_eq]
  have hbits : x.toBits = x.toModel.toBits := rfl
  unfold Decimal.Binary.ofBits
  rw [hbits]
  generalize ((x.toModel.toBits >>> 52) &&& 0x7FF).toNat = i
  generalize (x.toModel.toBits &&& 0xFFFFFFFFFFFFF).toNat = f
  cases i with
  | zero => exact ⟨rfl, rfl⟩
  | succ i => exact ⟨rfl, rfl⟩

theorem binary_of_finite {s : Sign} {m : ℕ} {e : ℤ} {hm : 0 < m} (h : x.toModel.unpack = .finite s m e hm) :
    (Decimal.Binary.ofBits x.toBits).m = m ∧ (Decimal.Binary.ofBits x.toBits).q = e := by
  obtain ⟨s', i, f, hfields, hm, hq⟩ := ofBits_eq x
  rw [hfields] at h
  rw [hm, hq]
  unfold ofFields at h
  split_ifs at h with hones hf hzero hf
  · obtain ⟨rfl, rfl, rfl⟩ := UnpackedFloat.finite.inj h
    exact ⟨if_pos hzero, if_pos hzero⟩
  · obtain ⟨rfl, rfl, rfl⟩ := UnpackedFloat.finite.inj h
    exact ⟨if_neg hzero, if_neg hzero⟩

theorem binary_of_zero {s : Sign} (h : x.toModel.unpack = .zero s) : (Decimal.Binary.ofBits x.toBits).m = 0 := by
  obtain ⟨s', i, f, hfields, hm, hq⟩ := ofBits_eq x
  rw [hfields] at h
  rw [hm]
  unfold ofFields at h
  split_ifs at h with hones hf hzero hf
  rw [if_pos hzero, hf]

theorem ofFields_injective {s t : Sign} {e e' f f' : ℕ} (hf : f < 2 ^ 52) (hf' : f' < 2 ^ 52) (h : ofFields s e f = ofFields t e' f')
    (hnan : (ofFields s e f).isNaN = false) : s = t ∧ e = e' ∧ f = f' := by
  unfold ofFields at h hnan
  split_ifs at h hnan <;> simp_all [UnpackedFloat.isNaN]
  all_goals omega

theorem fields_of_nan {s : Sign} {e f : ℕ} (hnan : (ofFields s e f).isNaN = true) : e = 2047 ∧ f ≠ 0 := by
  unfold ofFields at hnan
  split_ifs at hnan <;> simp_all [UnpackedFloat.isNaN]

theorem bits_toNat (b : BitVec 64) : b.toNat = (@unpackSign Format.binary64 b).toNat * 2 ^ 63 +
    (@unpackExponent Format.binary64 b).toNat * 2 ^ 52 + (@unpackMantissa Format.binary64 b).toNat := by
  have hs : (@unpackSign Format.binary64 b).toNat = (b.toNat >>> 63) % 2 ^ 1 := rfl
  have he : (@unpackExponent Format.binary64 b).toNat = (b.toNat >>> 52) % 2 ^ 11 := rfl
  have hm : (@unpackMantissa Format.binary64 b).toNat = b.toNat % 2 ^ 52 := rfl
  have hlt := b.isLt
  rw [hs, he, hm, Nat.shiftRight_eq_div_pow, Nat.shiftRight_eq_div_pow]
  omega

theorem ofBitVec_injective {a b : BitVec 1} (h : Sign.ofBitVec a = Sign.ofBitVec b) : a = b := by
  rcases BitVec.eq_zero_or_eq_one a with rfl | rfl <;> rcases BitVec.eq_zero_or_eq_one b with rfl | rfl <;> first | rfl | cases h

theorem unpack_injective {x y : Float} (h : x.toModel.unpack = y.toModel.unpack) : x = y := by
  obtain ⟨⟨⟨b⟩, hb⟩⟩ := x
  obtain ⟨⟨⟨c⟩, hc⟩⟩ := y
  have hfields : ∀ b : BitVec 64, (@unpackMantissa Format.binary64 b).toNat < 2 ^ 52 := fun b => BitVec.isLt _
  suffices b = c by subst this; rfl
  rw [Float.Model.unpack, Float.Model.unpack, unpack_eq, unpack_eq] at h
  dsimp only at h hb hc
  cases hnan : UnpackedFloat.isNaN (ofFields (Sign.ofBitVec (@unpackSign Format.binary64 b))
      (@unpackExponent Format.binary64 b).toNat (@unpackMantissa Format.binary64 b).toNat) with
  | false =>
    obtain ⟨hs, he, hm⟩ := ofFields_injective (hfields b) (hfields c) h hnan
    apply BitVec.eq_of_toNat_eq
    rw [bits_toNat b, bits_toNat c, ofBitVec_injective hs, he, hm]
  | true =>
    have hcanonical : ∀ b : BitVec 64, Format.binary64.Valid b → (@unpackExponent Format.binary64 b).toNat = 2047 →
        (@unpackMantissa Format.binary64 b).toNat ≠ 0 → b = packedNaN Format.binary64 := fun b hb he hm =>
      hb.eq_packedNaN (BitVec.eq_of_toNat_eq he) fun h => hm (congrArg BitVec.toNat h)
    obtain ⟨he, hm⟩ := fields_of_nan hnan
    rw [h] at hnan
    obtain ⟨he', hm'⟩ := fields_of_nan hnan
    rw [hcanonical b hb he hm, hcanonical c hc he' hm']
theorem exponent_lt_of_finite {s : Sign} {m : ℕ} {e : ℤ} {hm : 0 < m} (h : x.toModel.unpack = .finite s m e hm) : e < 972 := by
  have he : (@unpackExponent Format.binary64 x.toModel.toBits.toBitVec).toNat < 2 ^ 11 := BitVec.isLt _
  rw [Float.Model.unpack, unpack_eq] at h
  unfold ofFields at h
  split_ifs at h with hones hzero hleast hzero
  · obtain ⟨-, -, rfl⟩ := UnpackedFloat.finite.inj h
    omega
  · obtain ⟨-, -, rfl⟩ := UnpackedFloat.finite.inj h
    omega

def floatSign (x : Float) : Sign := Sign.ofBitVec (@unpackSign Format.binary64 x.toModel.toBits.toBitVec)

theorem signBit_iff (x : Float) : Decimal.signBit x = true ↔ floatSign x = .negative := by
  have hlt : x.toBits.toNat < 2 ^ 64 := x.toBits.toNat_lt
  have hshift : (x.toBits >>> 63).toNat = x.toBits.toNat / 2 ^ 63 := by
    rw [UInt64.toNat_shiftRight, Nat.shiftRight_eq_div_pow]
    rfl
  have hsign : (@unpackSign Format.binary64 x.toModel.toBits.toBitVec).toNat = x.toBits.toNat / 2 ^ 63 := by
    have hmod : (x.toBits.toNat >>> 63) % 2 ^ 1 = x.toBits.toNat / 2 ^ 63 := by
      rw [Nat.shiftRight_eq_div_pow]
      omega
    exact hmod
  have hone : (1 : UInt64).toNat = 1 := rfl
  rw [Decimal.signBit, beq_iff_eq, ← UInt64.toNat_inj, hshift, ← hsign, hone, floatSign]
  rcases BitVec.eq_zero_or_eq_one (@unpackSign Format.binary64 x.toModel.toBits.toBitVec) with h | h <;> rw [h] <;>
    simp [Sign.ofBitVec]

theorem floatSign_eq {s : Sign}
    (h : x.toModel.unpack = .infinity s ∨ x.toModel.unpack = .zero s ∨ ∃ m e hm, x.toModel.unpack = .finite s m e hm) :
    floatSign x = s := by
  rw [Float.Model.unpack, unpack_eq, ← floatSign] at h
  unfold ofFields at h
  split_ifs at h <;> simp_all

structure Decimal.Binary.IsFinite (x : Decimal.Binary) : Prop where
  short : x.m < 2 ^ 53
  least : -1074 ≤ x.q
  full : x.q = -1074 ∨ 2 ^ 52 ≤ x.m
  narrow : x.narrowBelow = true ↔ x.m = 2 ^ 52 ∧ -1074 < x.q

theorem isFinite_ofBits (x : Float) : (Decimal.Binary.ofBits x.toBits).IsFinite := by
  have hf : (x.toBits &&& 0xFFFFFFFFFFFFF).toNat < 2 ^ 52 := by
    rw [mantissaField_eq]
    exact BitVec.isLt _
  unfold Decimal.Binary.ofBits
  dsimp only
  generalize (x.toBits &&& 0xFFFFFFFFFFFFF).toNat = f at *
  generalize ((x.toBits >>> 52) &&& 0x7FF).toNat = e
  split_ifs with he
  · exact ⟨by dsimp only; omega, le_rfl, .inl rfl, by simp⟩
  · rw [beq_iff_eq] at he
    refine ⟨by simp; omega, by dsimp only; omega, .inr (by simp), ?_⟩
    simp
    omega

end BehaviorTree
