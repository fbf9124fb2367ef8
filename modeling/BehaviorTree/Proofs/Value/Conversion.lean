import BehaviorTree.Decimal.Reading
import BehaviorTree.Proofs.Value.FloatArithmetic
import BehaviorTree.Proofs.Value.FloatBits

/-!
Numbers of other kinds. A decimal is converted to the float that is nearest to it, however many digits it has and whatever its exponent
is; an integer is such a decimal. A float is converted to the nearest integer. All of this keeps the order.
-/

set_option autoImplicit false

namespace BehaviorTree

open Float.Model Float.Model.UnpackedFloat

variable {x : Float} {u : UnpackedFloat} {r : EReal}

theorem isNearest_ofUInt64 {n : ℕ} (hn : n < 2 ^ 53) : IsNearest n.toUInt64.toFloat (n : ℝ) := by
  have hnat : n.toUInt64.toNat = n := by
    rw [Nat.toUInt64_eq, UInt64.toNat_ofNat']
    omega
  have hrounds := rounds_normalize n 0 .positive
  rw [zpow_zero, mul_one, Int.cast_natCast] at hrounds
  have hfloat : n.toUInt64.toFloat = .ofModel (.pack (UnpackedFloat.normalize Format.binary64 n.toUInt64.toNat 0 .positive)) := rfl
  rw [hfloat, hnat]
  exact isNearest_of_rounds hrounds

theorem mul_finite_isNaN {s : Sign} {m : ℕ} {e : ℤ} {hm : 0 < m} (hu : u.isNaN = false) :
    (UnpackedFloat.mul Format.binary64 u (.finite s m e hm)).isNaN = false := by
  cases u with
  | notANumber => cases hu
  | infinity s => rfl
  | zero s => rfl
  | finite s' m' e' hm' =>
    simp only [UnpackedFloat.mul, roundWithAccuracy]
    split_ifs <;> rfl

theorem floatValue_ofUInt64 {n : ℕ} (hn : n < 2 ^ 53) : floatValue n.toUInt64.toFloat = (n : ℝ) := by
  have hshort : roundReal n = n := by
    have hk : |(n : ℤ)| ≤ 2 ^ 53 := by
      rw [Nat.abs_cast]
      exact_mod_cast hn.le
    simpa using roundReal_of_short hk (by norm_num : (-1074 : ℤ) ≤ 0)
  have hlt : |(n : ℝ)| < overflowBound := by
    rw [Nat.abs_cast, overflowBound]
    have hn' : (n : ℝ) < 2 ^ (53 : ℤ) := by exact_mod_cast hn
    exact hn'.trans_le (zpow_le_zpow_right₀ (by norm_num) (by norm_num))
  rw [(isNearest_ofUInt64 hn).value, rounded_coe, hshort, limited_of_lt hlt]

theorem powerOfTen_unpack : ∀ i : Fin 23, Float.exactlyRepresentablePowersOfTen[i].toModel.unpack =
    .finite .positive (5 ^ i.val * 2 ^ (52 - (5 ^ i.val).log2)) (i.val - (52 - (5 ^ i.val).log2 : ℕ)) (by positivity) := by
  intro i
  fin_cases i <;> rfl

theorem magnitude_powerOfTen (n k : ℕ) : magnitude (5 ^ n * 2 ^ k) (n - k) = 10 ^ n := by
  rw [magnitude, sub_eq_add_neg, units_mul, zpow_neg, zpow_natCast, zpow_natCast]
  push_cast
  field_simp
  rw [← mul_pow]
  norm_num

theorem isNearest_mul_powerOfTen (hx : x.isNaN = false) (i : Fin 23) :
    IsNearest (x * Float.exactlyRepresentablePowersOfTen[i]) (floatValue x * (10 ^ i.val : ℝ)) := by
  have hunpack := powerOfTen_unpack i
  have hvalue : floatValue Float.exactlyRepresentablePowersOfTen[i] = (10 ^ i.val : ℝ) := by
    rw [floatValue, hunpack, unpackedValue, signed, magnitude_powerOfTen]
  have hnumber : (UnpackedFloat.mul Format.binary64 x.toModel.unpack
      Float.exactlyRepresentablePowersOfTen[i].toModel.unpack).isNaN = false := hunpack ▸ mul_finite_isNaN hx
  rw [← hvalue]
  exact isNearest_of_rounds (rounds_mul (unpack_isCanonical _) (unpack_isCanonical _) hnumber)

theorem isNearest_div_powerOfTen (hx : x.isNaN = false) (i : Fin 23) :
    IsNearest (x / Float.exactlyRepresentablePowersOfTen[i]) (floatValue x / (10 ^ i.val : ℝ)) := by
  have hdiv := isNearest_div (powerOfTen_unpack i) hx
  rwa [magnitude_powerOfTen] at hdiv

/-- A number in scientific notation, whose exponent is not beyond all bounds, becomes the nearest float. -/
theorem rounds_ofScientific {n : ℕ} (hn : n ≠ 0) {e : ℤ} (hlarge : e ≤ 2048) (hsmall : -(2048 + n.log2) ≤ e) :
    Rounds (UnpackedFloat.ofScientific Format.binary64 n e) (n * 10 ^ e : ℝ) := by
  have hlarge' : ¬ e > 2 ^ Format.binary64.exponentBits := not_lt.2 hlarge
  have hsmall' : ¬ e < -(2 ^ Format.binary64.exponentBits + n.log2) := not_lt.2 hsmall
  unfold UnpackedFloat.ofScientific
  rw [dif_neg hn, if_neg hlarge', if_neg hsmall']
  split_ifs with he
  · have hpower : 10 ^ e.toNat ≠ 0 := by positivity
    have hlog : 53 ≤ (n <<< 53 * 10 ^ e.toNat).log2 := by
      rw [Nat.shiftLeft_eq, Nat.le_log2 (by positivity), mul_right_comm]
      exact Nat.le_mul_of_pos_left _ (by positivity)
    have hrounds := rounds_roundWithAccuracy (m := n <<< 53 * 10 ^ e.toNat) (e := -53 + 0) .positive (a := .exact) rfl (by omega)
    have hsame : ((n <<< 53 * 10 ^ e.toNat : ℕ) + 0) * (2 : ℝ) ^ (-53 + 0 : ℤ) = n * 10 ^ e := by
      obtain ⟨k, rfl⟩ := Int.eq_ofNat_of_zero_le he
      rw [Nat.shiftLeft_eq]
      push_cast
      norm_num
      ring
    rw [hsame] at hrounds
    exact hrounds
  · have hrounds := rounds_div (u := .finite .positive n 0 (Nat.pos_of_ne_zero hn)) (n := 10 ^ (-e).toNat) (f := 0) (by positivity) rfl
    have hsame : unpackedValue (.finite .positive n 0 (Nat.pos_of_ne_zero hn)) / (magnitude (10 ^ (-e).toNat) 0 : ℝ) =
        (n * 10 ^ e : ℝ) := by
      obtain ⟨k, hk⟩ := Int.eq_ofNat_of_zero_le (show 0 ≤ -e by omega)
      obtain rfl : e = -k := by omega
      rw [unpackedValue, signed, ← EReal.coe_div, magnitude, magnitude]
      push_cast
      simp [div_eq_mul_inv]
    rw [hsame] at hrounds
    exact hrounds

theorem isNearest_ofScientific_of_small {n k : ℕ} (hn : n < 2 ^ 53) (hk : k ≤ 22) (negative : Bool) :
    IsNearest (Float.ofScientific n negative k) ((if negative then n / 10 ^ k else n * 10 ^ k : ℝ) : ℝ) := by
  have hnumber := (isNearest_ofUInt64 hn).number
  have hvalue := floatValue_ofUInt64 hn
  unfold Float.ofScientific
  rw [dif_pos ⟨hn, hk⟩]
  cases negative with
  | true =>
    have hdiv := isNearest_div_powerOfTen hnumber ⟨k, by omega⟩
    rw [hvalue, ← EReal.coe_div] at hdiv
    exact hdiv
  | false =>
    have hmul := isNearest_mul_powerOfTen hnumber ⟨k, by omega⟩
    rw [hvalue, ← EReal.coe_mul] at hmul
    exact hmul

theorem isNearest_ofScientific (n : ℕ) {e : ℤ} (hlarge : e ≤ 2048) (hsmall : -(2048 + n.log2) ≤ e) :
    IsNearest (Float.ofScientific n (e < 0) e.natAbs) (n * 10 ^ e : ℝ) := by
  by_cases hfast : n < 2 ^ 53 ∧ e.natAbs ≤ 22
  · have hsmall := isNearest_ofScientific_of_small hfast.1 hfast.2 (decide (e < 0))
    have hsame : (if decide (e < 0) then n / 10 ^ e.natAbs else n * 10 ^ e.natAbs : ℝ) = n * 10 ^ e := by
      rcases lt_or_ge e 0 with he | he
      · rw [if_pos (decide_eq_true he), div_eq_mul_inv, ← zpow_natCast, Int.ofNat_natAbs_of_nonpos he.le, zpow_neg, inv_inv]
      · rw [if_neg (by simpa using he), ← zpow_natCast, Int.natAbs_of_nonneg he]
    rwa [hsame] at hsmall
  · have hexp : (if decide (e < 0) = true then Int.negOfNat e.natAbs else Int.ofNat e.natAbs) = e := by
      rcases lt_or_ge e 0 with he | he
      · rw [if_pos (decide_eq_true he), Int.negOfNat_eq, Int.ofNat_eq_natCast, Int.ofNat_natAbs_of_nonpos he.le, neg_neg]
      · rw [if_neg (by simpa using he), Int.ofNat_eq_natCast, Int.natAbs_of_nonneg he]
    have hslow : Float.ofScientific n (e < 0) e.natAbs = .ofModel (.pack (UnpackedFloat.ofScientific Format.binary64 n e)) := by
      unfold Float.ofScientific
      rw [dif_neg hfast]
      dsimp only
      rw [hexp]
      rfl
    rw [hslow]
    rcases eq_or_ne n 0 with rfl | hn
    · rw [Nat.cast_zero, zero_mul]
      exact isNearest_of_rounds ⟨trivial, rfl, rfl⟩
    · exact isNearest_of_rounds (rounds_ofScientific hn hlarge hsmall)

namespace Decimal

theorem lt_ten_pow_digitCount (n : ℕ) : n < 10 ^ digitCount n :=
  (Nat.length_toDigits_le_iff (by norm_num) Nat.length_toDigits_pos).1 le_rfl

theorem ten_pow_digitCount_le {n : ℕ} (hn : n ≠ 0) : 10 ^ (digitCount n - 1) ≤ n := by
  rcases Nat.eq_zero_or_pos (digitCount n - 1) with hone | hmore
  · rw [hone]
    exact Nat.pos_of_ne_zero hn
  · by_contra hlt
    have hle := (Nat.length_toDigits_le_iff (by norm_num) hmore).2 (not_le.1 hlt)
    unfold digitCount at hle hmore
    omega

theorem digitCount_le_log2 {n : ℕ} (hn : n ≠ 0) : digitCount n ≤ n.log2 + 1 := by
  have hpow : 2 ^ (digitCount n - 1) ≤ n := (Nat.pow_le_pow_left (by norm_num) _).trans (ten_pow_digitCount_le hn)
  have hlog := (Nat.le_log2 hn).2 hpow
  omega

theorem zpow_lead_le {n : ℕ} (hn : n ≠ 0) (e : ℤ) : (10 : ℝ) ^ (e + digitCount n - 1) ≤ n * 10 ^ e := by
  have hpow : (10 : ℝ) ^ (digitCount n - 1) ≤ n := by exact_mod_cast ten_pow_digitCount_le hn
  have hpos : 0 < digitCount n := Nat.length_toDigits_pos
  have hexp : e + digitCount n - 1 = (digitCount n - 1 : ℕ) + e := by omega
  rw [hexp, zpow_add₀ (by norm_num), zpow_natCast]
  exact mul_le_mul_of_nonneg_right hpow (by positivity)

theorem lt_zpow_lead (n : ℕ) (e : ℤ) : n * (10 : ℝ) ^ e < 10 ^ (e + digitCount n) := by
  have hpow : (n : ℝ) < 10 ^ digitCount n := by exact_mod_cast lt_ten_pow_digitCount n
  rw [add_comm, zpow_add₀ (by norm_num), zpow_natCast]
  exact mul_lt_mul_of_pos_right hpow (by positivity)

end Decimal

theorem two_pow_le_ten_pow {n k : ℕ} (h : n ≤ 3 * k) : (2 : ℝ) ^ n ≤ 10 ^ k := by
  calc (2 : ℝ) ^ n ≤ 2 ^ (3 * k) := pow_le_pow_right₀ (by norm_num) h
    _ = 8 ^ k := by rw [pow_mul]; norm_num
    _ ≤ 10 ^ k := pow_le_pow_left₀ (by norm_num) (by norm_num) k

theorem rounded_of_large {a : ℝ} (ha : 10 ^ 400 ≤ a) : rounded a = ⊤ := by
  have hshort : roundReal overflowBound = overflowBound := by
    have h := roundReal_of_short (k := 1) (e := 1024) (by norm_num) (by norm_num)
    rwa [Int.cast_one, one_mul, ← overflowBound] at h
  have hle : overflowBound ≤ a := by
    refine le_trans ?_ ha
    rw [overflowBound]
    exact_mod_cast two_pow_le_ten_pow (by norm_num : 1024 ≤ 3 * 400)
  rw [rounded_coe, limited, if_pos (hshort ▸ roundReal_mono hle)]

theorem rounded_of_small {a : ℝ} (ha : 0 ≤ a) (hlt : a < (10 ^ 400)⁻¹) : rounded a = 0 := by
  have hbound : a < 2 ^ (-1076 : ℤ) := by
    refine hlt.trans_le ?_
    rw [zpow_neg]
    exact inv_anti₀ (by positivity) (by exact_mod_cast two_pow_le_ten_pow (by norm_num : 1076 ≤ 3 * 400))
  have habs : |a| = a := abs_of_nonneg ha
  have hround : roundReal a = nearestInt (a / 2 ^ (-1074 : ℤ)) * 2 ^ (-1074 : ℤ) :=
    roundReal_eq (by rw [habs]; exact hbound.trans_le (zpow_le_zpow_right₀ (by norm_num) (by norm_num))) le_rfl (.inl rfl)
  have hquarter : a / 2 ^ (-1074 : ℤ) < 1 / 4 := by
    rw [div_lt_iff₀ (by positivity)]
    refine hbound.trans_eq ?_
    rw [show (-1076 : ℤ) = -2 + -1074 by norm_num, units_mul]
    norm_num
  have hcount : nearestInt (a / 2 ^ (-1074 : ℤ)) = 0 := by
    have hfloor : ⌊a / 2 ^ (-1074 : ℤ)⌋ = 0 := by
      rw [Int.floor_eq_zero_iff]
      exact ⟨by positivity, by linarith⟩
    rw [nearestInt, hfloor, Int.cast_zero, if_pos (by linarith)]
  rw [rounded_coe, hround, hcount, Int.cast_zero, zero_mul, limited_zero]

theorem isNearest_neg (hx : IsNearest x r) : IsNearest (-x) (-r) := by
  have hcanonical := (unpack_isCanonical x.toModel).neg
  have hnumber : x.toModel.unpack.neg.isNaN = false := by
    have hx' : x.toModel.unpack.isNaN = false := hx.number
    generalize x.toModel.unpack = u at *
    cases u with
    | notANumber => cases hx'
    | infinity s => rfl
    | zero s => rfl
    | finite s m e hm => rfl
  have hfloat : -x = .ofModel (.pack x.toModel.unpack.neg) := rfl
  have hneg := isNearest_of_rounds (rounds_of_value hcanonical hnumber)
  rw [unpackedValue_neg, ← floatValue, hx.value, ← rounded_neg] at hneg
  rw [hfloat]
  exact ⟨hneg.number, hneg.value.trans (rounded_rounded (-r))⟩

theorem isNearest_nearest (negative : Bool) (n : ℕ) (e : ℤ) :
    IsNearest (Decimal.nearest negative n e) (if negative then -(n * 10 ^ e) else n * 10 ^ e : ℝ) := by
  have hsigned : ∀ {x : Float}, IsNearest x (n * 10 ^ e : ℝ) →
      IsNearest (if negative then -x else x) (if negative then -(n * 10 ^ e) else n * 10 ^ e : ℝ) := by
    intro x hx
    cases negative with
    | false => exact hx
    | true => exact isNearest_neg hx
  unfold Decimal.nearest
  refine hsigned ?_
  split_ifs with hn hlarge hsmall
  · rw [hn, Nat.cast_zero, zero_mul, EReal.coe_zero]
    exact ⟨rfl, rounded_zero.symm⟩
  · have hle : (10 : ℝ) ^ 400 ≤ n * 10 ^ e := by
      refine le_trans ?_ (Decimal.zpow_lead_le hn e)
      rw [← zpow_natCast]
      exact zpow_le_zpow_right₀ (by norm_num) (by push_cast; omega)
    have hten := isNearest_ofScientific 1 (e := 400) (by norm_num) (by norm_num)
    rw [Nat.cast_one, one_mul] at hten
    refine ⟨hten.number, hten.value.trans ?_⟩
    rw [rounded_of_large hle]
    exact rounded_of_large le_rfl
  · have hlt : (n : ℝ) * 10 ^ e < (10 ^ 400)⁻¹ := by
      refine (Decimal.lt_zpow_lead n e).trans_le ?_
      rw [← zpow_natCast, ← zpow_neg]
      exact zpow_le_zpow_right₀ (by norm_num) (by push_cast; omega)
    exact ⟨rfl, (rounded_of_small (by positivity) hlt).symm⟩
  · have hlog := Decimal.digitCount_le_log2 hn
    exact isNearest_ofScientific n (by omega) (by omega)

theorem isNearest_ofNat (n : ℕ) : IsNearest (Float.ofNat n) (n : ℝ) := by
  have hnearest := isNearest_ofScientific n (e := 0) (by norm_num) (by omega)
  rwa [zpow_zero, mul_one] at hnearest

theorem float_ofNat_le {m n : ℕ} (h : m ≤ n) : Float.ofNat m ≤ Float.ofNat n :=
  (isNearest_ofNat m).le (isNearest_ofNat n) (EReal.coe_le_coe_iff.2 (Nat.cast_le.2 h))

theorem isNearest_ofInt {k : ℤ} (h : Decimal.ofInt? k = some x) : x.isInf = false ∧ IsNearest x (k : ℝ) := by
  unfold Decimal.ofInt? at h
  dsimp only at h
  split_ifs at h with hinf
  obtain rfl := Option.some.inj h
  have hcast : (if decide (k < 0) then -(k.natAbs : ℝ) else k.natAbs : ℝ) = k := by
    rcases lt_or_ge k 0 with hk | hk
    · have habs : ((k.natAbs : ℤ) : ℝ) = -k := by exact_mod_cast Int.ofNat_natAbs_of_nonpos hk.le
      rw [if_pos (decide_eq_true hk), ← Int.cast_natCast, habs, neg_neg]
    · have habs : ((k.natAbs : ℤ) : ℝ) = k := by exact_mod_cast Int.natAbs_of_nonneg hk
      rw [if_neg (by simpa using hk), ← Int.cast_natCast, habs]
  have hnearest := isNearest_nearest (k < 0) k.natAbs 0
  rw [zpow_zero, mul_one, hcast] at hnearest
  exact ⟨Bool.eq_false_iff.2 hinf, hnearest⟩

theorem roundQuotient_eq (k : ℕ) {n : ℕ} (hn : 0 < n) : (Decimal.roundQuotient k n : ℤ) = nearestInt (k / n) := by
  have hrep := represents_of_describes (k / n) (describes_accuracyOfFraction (Nat.mod_lt k hn))
  have hquot : ((k / n : ℕ) : ℝ) + ((k % n : ℕ) : ℝ) / n = k / n := by
    have hn' : (n : ℝ) ≠ 0 := Nat.cast_ne_zero.2 hn.ne'
    rw [eq_div_iff hn', add_mul, div_mul_cancel₀ _ hn']
    exact_mod_cast Nat.div_add_mod' k n
  rw [hquot] at hrep
  rw [← hrep.roundedMantissa]
  unfold Decimal.roundQuotient accuracyOfFraction
  rcases eq_or_ne (k % n) 0 with hk | hk
  · rw [hk, if_pos rfl, Nat.compare_eq_lt.2 (by omega)]
    rfl
  · rw [if_neg hk]
    rcases lt_trichotomy (2 * (k % n)) n with hlt | heq | hgt
    · rw [Nat.compare_eq_lt.2 hlt]
      rfl
    · rw [Nat.compare_eq_eq.2 heq]
      simp only [ExtendedMantissa.ofMantissaAndAccuracy, ExtendedMantissa.roundedMantissa, ExtendedMantissa.accuracy,
        Accuracy.roundToNearestEven]
      split_ifs <;> omega
    · rw [Nat.compare_eq_gt.2 hgt]
      rfl

theorem roundQuotient_eq_magnitude (m : ℕ) (e : ℤ) :
    (Decimal.roundQuotient (m * Nat.pow 2 e.toNat) (Nat.pow 2 (-e).toNat) : ℤ) = nearestInt (magnitude m e) := by
  have hden : 0 < Nat.pow 2 (-e).toNat := Nat.two_pow_pos _
  rw [roundQuotient_eq _ hden, magnitude]
  congr 1
  obtain ⟨k, rfl | rfl⟩ := e.eq_nat_or_neg
  · simp
  · simp [div_eq_mul_inv]

theorem lt_zero_eq (x : Float) : decide (x < 0) = x.toModel.unpack.lt (.zero .positive) := by
  have hlt : decide (x < 0) = Float.lt x 0 := Bool.decide_eq_true
  exact hlt.trans Bool.decide_eq_true

theorem roundFloat_eq_ok {k : ℤ} (h : Decimal.roundFloat x = .ok k) :
    x.isNaN = false ∧ ∃ a : ℝ, floatValue x = a ∧ k = nearestInt a := by
  unfold Decimal.roundFloat at h
  split_ifs at h with hnan hinf
  obtain rfl := Except.ok.inj h
  refine ⟨Bool.eq_false_iff.2 hnan, ?_⟩
  rw [lt_zero_eq, floatValue]
  cases hu : x.toModel.unpack with
  | notANumber => exact absurd (congrArg UnpackedFloat.isNaN hu) hnan
  | infinity s => exact absurd (congrArg UnpackedFloat.isInf hu) hinf
  | zero s =>
    have hround := roundQuotient_eq_magnitude 0 (Decimal.Binary.ofBits x.toBits).q
    have hzero : magnitude 0 (Decimal.Binary.ofBits x.toBits).q = (0 : ℤ) := by simp [magnitude]
    rw [hzero, nearestInt_intCast, Int.natCast_eq_zero] at hround
    refine ⟨(0 : ℤ), by rw [Int.cast_zero]; rfl, ?_⟩
    rw [nearestInt_intCast, binary_of_zero hu, hround]
    rfl
  | finite s m e hm =>
    have hround := roundQuotient_eq_magnitude m e
    obtain ⟨hm', he'⟩ := binary_of_finite hu
    refine ⟨signed s (magnitude m e), rfl, ?_⟩
    rw [hm', he']
    cases s with
    | negative => rw [signed, nearestInt_neg, ← hround]; rfl
    | positive => rw [signed, ← hround]; rfl

end BehaviorTree
