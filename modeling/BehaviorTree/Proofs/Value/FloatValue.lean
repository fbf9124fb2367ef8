import BehaviorTree.Proofs.Value.FloatOrder
import BehaviorTree.Proofs.Value.Rounding

/-!
What floats stand for: real numbers and the two infinities. Floats are ordered as what they stand for. Packing keeps a float that is in
canonical form, as long as its exponent fits; otherwise it gives an infinity.
-/

set_option autoImplicit false

namespace BehaviorTree

open Float.Model Float.Model.UnpackedFloat

def signed : Sign → ℝ → ℝ
  | .negative, x => -x
  | .positive, x => x

theorem abs_signed (s : Sign) (x : ℝ) : |signed s x| = |x| := by
  cases s with
  | negative => exact abs_neg x
  | positive => rfl

theorem roundReal_signed (s : Sign) (x : ℝ) : roundReal (signed s x) = signed s (roundReal x) := by
  cases s with
  | negative => exact roundReal_neg x
  | positive => rfl

noncomputable def unpackedValue : UnpackedFloat → EReal
  | .infinity .negative => ⊥
  | .infinity .positive => ⊤
  | .zero _ => 0
  | .notANumber => 0
  | .finite s m e _ => (signed s (magnitude m e) : ℝ)

noncomputable def floatValue (x : Float) : EReal := unpackedValue x.toModel.unpack

/-- Does the mantissa have 53 binary places, or fewer where the exponent is the least one? -/
def IsCanonical : UnpackedFloat → Prop
  | .finite _ m e _ => m < 2 ^ 53 ∧ -1074 ≤ e ∧ (e = -1074 ∨ 2 ^ 52 ≤ m)
  | _ => True

section

variable {m n : ℕ} {d e : ℤ}

theorem magnitude_lt (hm : m < 2 ^ 53) (he : -1074 ≤ e) (hn : d = -1074 ∨ 2 ^ 52 ≤ n) (h : e < d) :
    magnitude m e < magnitude n d := by
  have hn' : 2 ^ 52 ≤ n := by omega
  have hm' : (m : ℝ) < 2 ^ 53 := by exact_mod_cast hm
  calc magnitude m e < 2 ^ 53 * 2 ^ e := mul_lt_mul_of_pos_right hm' (by positivity)
    _ = 2 ^ 52 * 2 ^ (1 + e) := by rw [units_mul]; ring
    _ ≤ 2 ^ 52 * 2 ^ d := mul_le_mul_of_nonneg_left (zpow_le_zpow_right₀ (by norm_num) (by omega)) (by positivity)
    _ ≤ magnitude n d := mul_le_mul_of_nonneg_right (by exact_mod_cast hn') (by positivity)

theorem magnitude_le_iff (ha : m < 2 ^ 53 ∧ -1074 ≤ e ∧ (e = -1074 ∨ 2 ^ 52 ≤ m))
    (hb : n < 2 ^ 53 ∧ -1074 ≤ d ∧ (d = -1074 ∨ 2 ^ 52 ≤ n)) : magnitude m e ≤ magnitude n d ↔ e < d ∨ e = d ∧ m ≤ n := by
  rcases lt_trichotomy e d with h | rfl | h
  · simp [h, (magnitude_lt ha.1 ha.2.1 hb.2.2 h).le]
  · simp [magnitude, mul_le_mul_iff_left₀ (zpow_pos (two_pos : (0 : ℝ) < 2) e)]
  · simp [h.not_gt, h.ne', (magnitude_lt hb.1 hb.2.1 ha.2.2 h).not_ge]

end

theorem unpackedValue_le_iff {a b : UnpackedFloat} (ha : IsCanonical a) (hb : IsCanonical b) (hna : a.isNaN = false)
    (hnb : b.isNaN = false) : unpackedValue a ≤ unpackedValue b ↔ floatRank a ≤ floatRank b := by
  rcases a with ⟨_ | _⟩ | _ | s | ⟨_ | _, m, e, hm⟩ <;> rcases b with ⟨_ | _⟩ | _ | t | ⟨_ | _, n, d, hn⟩
  case finite.negative.finite.negative =>
    have hiff := magnitude_le_iff hb ha
    simp only [unpackedValue, signed, EReal.coe_le_coe_iff, neg_le_neg_iff, hiff, floatRank, Prod.Lex.toLex_le_toLex,
      lt_irrefl, false_or, true_and]
    omega
  case finite.positive.finite.positive =>
    have hiff := magnitude_le_iff ha hb
    simp only [unpackedValue, signed, EReal.coe_le_coe_iff, hiff, floatRank, Prod.Lex.toLex_le_toLex, lt_irrefl,
      false_or, true_and]
    omega
  case finite.negative.finite.positive =>
    have hle : -magnitude m e ≤ magnitude n d := by linarith [magnitude_pos hm e, magnitude_pos hn d]
    simp only [unpackedValue, signed, EReal.coe_le_coe_iff, hle, floatRank, Prod.Lex.toLex_le_toLex]
    norm_num
  case finite.positive.finite.negative =>
    have hlt : ¬ magnitude m e ≤ -magnitude n d := by linarith [magnitude_pos hm e, magnitude_pos hn d]
    simp only [unpackedValue, signed, EReal.coe_le_coe_iff, hlt, floatRank, Prod.Lex.toLex_le_toLex]
    norm_num
  all_goals simp_all [unpackedValue, signed, floatRank, Prod.Lex.toLex_le_toLex, UnpackedFloat.isNaN, magnitude_pos, LT.lt.le]

def ofFields (s : Sign) (e f : ℕ) : UnpackedFloat :=
  if e = 2047 then if f = 0 then .infinity s else .notANumber
  else if e = 0 then if h : f = 0 then .zero s else .finite s f (-1074) (Nat.pos_of_ne_zero h)
  else .finite s (2 ^ 52 + f) (e - 1075) (Nat.add_pos_left (Nat.two_pow_pos 52) f)

theorem unpack_eq (b : BitVec 64) : UnpackedFloat.unpack Format.binary64 b =
    ofFields (Sign.ofBitVec (@unpackSign Format.binary64 b)) (@unpackExponent Format.binary64 b).toNat
      (@unpackMantissa Format.binary64 b).toNat := by
  have hones : ∀ e : BitVec 11, e = -1#11 ↔ e.toNat = 2047 := fun e => ⟨fun h => h ▸ rfl, fun h => BitVec.eq_of_toNat_eq h⟩
  have hzero : ∀ {n : ℕ} (e : BitVec n), e = 0#n ↔ e.toNat = 0 := fun e =>
    ⟨fun h => h ▸ rfl, fun h => BitVec.eq_of_toNat_eq h⟩
  have happend : ∀ m : BitVec 52, (1#1 ++ m).toNat = 2 ^ 52 + m.toNat := fun m => by
    rw [BitVec.toNat_append, ← Nat.shiftLeft_add_eq_or_of_lt m.isLt]
    rfl
  unfold UnpackedFloat.unpack ofFields
  simp only [hones, hzero, happend]
  split_ifs <;> simp_all [Format.exponentBias]

theorem unpackSign_components {spec : Format} (s : Sign) (e : BitVec spec.exponentBits)
    (m : BitVec spec.mantissaBitsWithoutImplicit) : unpackSign (packComponents spec s e m) = s.toBitVec := by
  apply BitVec.eq_of_getLsbD_eq
  intro i hi
  obtain rfl : i = 0 := by omega
  simp [unpackSign, packComponents, BitVec.getLsbD_append, BitVec.getElem_append]

theorem unpack_components (s : Sign) (e : BitVec 11) (m : BitVec 52) :
    UnpackedFloat.unpack Format.binary64 (packComponents Format.binary64 s e m) = ofFields s e.toNat m.toNat := by
  have hs : Sign.ofBitVec s.toBitVec = s := by cases s <;> rfl
  rw [unpack_eq, unpackExponent_packComponents, unpackMantissa_packComponents, unpackSign_components, hs]

theorem unpack_isCanonical (x : Float.Model) : IsCanonical x.unpack := by
  rw [Float.Model.unpack, unpack_eq]
  have hm : (@unpackMantissa Format.binary64 x.toBits.toBitVec).toNat < 2 ^ 52 := BitVec.isLt _
  generalize (@unpackMantissa Format.binary64 x.toBits.toBitVec).toNat = f at *
  generalize (@unpackExponent Format.binary64 x.toBits.toBitVec).toNat = e
  unfold ofFields
  split_ifs
  · trivial
  · trivial
  · trivial
  · exact ⟨by omega, by omega, .inl rfl⟩
  · exact ⟨by omega, by omega, .inr (by omega)⟩

variable {u : UnpackedFloat} {s : Sign} {m : ℕ} {e : ℤ} {hm : 0 < m}

theorem unpack_pack (u : UnpackedFloat) :
    (Float.Model.pack u).unpack = UnpackedFloat.unpack Format.binary64 (UnpackedFloat.pack Format.binary64 u) := rfl

@[simp] theorem unpack_pack_infinity : (Float.Model.pack (.infinity s)).unpack = .infinity s := unpack_components s (-1#11) 0#52

@[simp] theorem unpack_pack_zero : (Float.Model.pack (.zero s)).unpack = .zero s := unpack_components s 0#11 0#52

@[simp] theorem unpack_pack_nan : (Float.Model.pack .notANumber).unpack = .notANumber :=
  unpack_components .positive (-1#11) (1#52 <<< 51)

theorem pack_finite : UnpackedFloat.pack Format.binary64 (.finite s m e hm) =
    if 2 ^ 11 ≤ (e + (1023 : ℕ) + (52 : ℕ)).toNat + 1 then packedInfinity Format.binary64 s
    else if m.log2 + 1 = 53 then
      packComponents Format.binary64 s (BitVec.ofNat 11 (e + (1023 : ℕ) + (52 : ℕ)).toNat) (BitVec.ofNat 52 m)
    else packComponents Format.binary64 s 0#11 (BitVec.ofNat 52 m) := rfl

theorem unpack_pack_of_large (he : 972 ≤ e) : (Float.Model.pack (.finite s m e hm)).unpack = .infinity s := by
  rw [unpack_pack, pack_finite, if_pos (by omega)]
  exact unpack_components s (-1#11) 0#52

theorem unpack_pack_of_small (h : IsCanonical (.finite s m e hm)) (he : e < 972) :
    (Float.Model.pack (.finite s m e hm)).unpack = .finite s m e hm := by
  obtain ⟨hlt, hle, hn⟩ := h
  rw [unpack_pack, pack_finite, if_neg (by omega)]
  by_cases hbits : 2 ^ 52 ≤ m
  · have hlog : m.log2 = 52 := (Nat.log2_eq_iff hm.ne').2 ⟨hbits, hlt⟩
    rw [if_pos (by rw [hlog]), unpack_components, BitVec.toNat_ofNat, BitVec.toNat_ofNat, ofFields, if_neg (by omega),
      if_neg (by omega)]
    congr 1 <;> omega
  · have hlog : m.log2 < 52 := (Nat.log2_lt hm.ne').2 (by omega)
    have hmod : m % 2 ^ 52 = m := Nat.mod_eq_of_lt (by omega)
    obtain rfl : e = -1074 := hn.resolve_right hbits
    rw [if_neg (by omega), unpack_components, BitVec.toNat_ofNat, BitVec.toNat_ofNat, ofFields, if_neg (by simp), if_pos (by simp),
      dif_neg (by omega)]
    congr 1

theorem rounded_signed_magnitude (h : IsCanonical (.finite s m e hm)) :
    rounded (signed s (magnitude m e)) = limited (signed s (magnitude m e)) := by
  have hshort : roundReal (magnitude m e) = magnitude m e := by
    have hk : |(m : ℤ)| ≤ 2 ^ 53 := by
      rw [Nat.abs_cast]
      exact_mod_cast h.1.le
    exact_mod_cast roundReal_of_short hk h.2.1
  rw [rounded_coe, roundReal_signed, hshort]

theorem magnitude_lt_overflowBound (hlt : m < 2 ^ 53) (he : e < 972) : magnitude m e < overflowBound := by
  have hm' : (m : ℝ) < 2 ^ 53 := by exact_mod_cast hlt
  calc magnitude m e < 2 ^ 53 * 2 ^ e := mul_lt_mul_of_pos_right hm' (by positivity)
    _ ≤ 2 ^ 53 * 2 ^ (971 : ℤ) := mul_le_mul_of_nonneg_left (zpow_le_zpow_right₀ (by norm_num) (by omega)) (by positivity)
    _ = overflowBound := by rw [overflowBound, ← zpow_natCast, ← units_mul]; rfl

theorem overflowBound_le_magnitude (hle : 2 ^ 52 ≤ m) (he : 972 ≤ e) : overflowBound ≤ magnitude m e := by
  have hm' : (2 ^ 52 : ℝ) ≤ m := by exact_mod_cast hle
  calc overflowBound = 2 ^ 52 * 2 ^ (972 : ℤ) := by rw [overflowBound, ← zpow_natCast, ← units_mul]; rfl
    _ ≤ 2 ^ 52 * 2 ^ e := mul_le_mul_of_nonneg_left (zpow_le_zpow_right₀ (by norm_num) he) (by positivity)
    _ ≤ magnitude m e := mul_le_mul_of_nonneg_right hm' (by positivity)

/-- A packed float stands for what it stood for, rounded: for the same, or for an infinity if that is too large. -/
theorem unpackedValue_pack (h : IsCanonical u) : unpackedValue (Float.Model.pack u).unpack = rounded (unpackedValue u) := by
  cases u with
  | infinity s => cases s <;> simp [unpackedValue]
  | notANumber => simp [unpackedValue, rounded_zero]
  | zero s => simp [unpackedValue, rounded_zero]
  | finite s m e hm =>
    rw [unpackedValue, rounded_signed_magnitude h]
    rcases lt_or_ge e 972 with he | he
    · have hlt : |signed s (magnitude m e)| < overflowBound := by
        rw [abs_signed, abs_of_pos (magnitude_pos hm e)]
        exact magnitude_lt_overflowBound h.1 he
      rw [unpack_pack_of_small h he, limited_of_lt hlt, unpackedValue]
    · have hle : overflowBound ≤ magnitude m e := overflowBound_le_magnitude (h.2.2.resolve_left (by omega)) he
      have hpos : 0 < overflowBound := overflowBound_pos
      rw [unpack_pack_of_large he]
      cases s with
      | negative => rw [unpackedValue, signed, limited, if_neg (by linarith), if_pos (by linarith)]
      | positive => rw [unpackedValue, signed, limited, if_pos hle]

end BehaviorTree
