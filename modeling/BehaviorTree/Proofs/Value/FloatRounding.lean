import BehaviorTree.Proofs.Value.FloatValue

/-!
Arithmetic with floats is exact arithmetic, rounded. The sum, difference and product of two floats and their quotient are the floats
nearest to the exact ones, and so they grow with the operands.
-/

set_option autoImplicit false

namespace BehaviorTree

open Float.Model Float.Model.UnpackedFloat

def Describes : Accuracy → ℝ → Prop
  | .exact, d => d = 0
  | .inexact .lt, d => 0 < d ∧ d + d < 1
  | .inexact .eq, d => d + d = 1
  | .inexact .gt, d => 1 < d + d ∧ d < 1

def Represents (em : ExtendedMantissa) (x : ℝ) : Prop := Describes em.accuracy (x - em.mantissa)

variable {em : ExtendedMantissa} {a : Accuracy} {x d : ℝ} {m : ℕ}

theorem Describes.bounds (h : Describes a d) : 0 ≤ d ∧ d < 1 := by
  rcases a with _ | _ | _ | _ <;> simp only [Describes] at h <;> constructor <;> linarith

theorem represents_of_describes (m : ℕ) (h : Describes a d) : Represents (.ofMantissaAndAccuracy m a) (m + d) := by
  rcases a with _ | _ | _ | _ <;> simpa [Represents, ExtendedMantissa.ofMantissaAndAccuracy, ExtendedMantissa.accuracy] using h

theorem Represents.floor_eq (h : Represents em x) : ⌊x⌋ = em.mantissa := by
  have hbounds := Describes.bounds h
  rw [Int.floor_eq_iff, Int.cast_natCast]
  constructor <;> linarith

theorem Represents.roundedMantissa (h : Represents em x) : (em.roundedMantissa : ℤ) = nearestInt x := by
  rw [nearestInt, h.floor_eq]
  obtain ⟨m, _ | _, _ | _⟩ := em
  all_goals
    simp only [Represents, ExtendedMantissa.accuracy, Describes] at h
    simp only [ExtendedMantissa.roundedMantissa, ExtendedMantissa.accuracy, Accuracy.roundToNearestEven, Int.cast_natCast]
    split_ifs
  all_goals first
    | omega
    | linarith

theorem Represents.shiftRightOne (h : Represents em x) : Represents em.shiftRightOne (x / 2) := by
  obtain ⟨m, r, s⟩ := em
  have hm : ((m % 2 : ℕ) : ℝ) + 2 * ((m / 2 : ℕ) : ℝ) = m := by exact_mod_cast Nat.mod_add_div m 2
  rcases Nat.mod_two_eq_zero_or_one m with hr | hr <;> cases r <;> cases s <;>
    simp [Represents, Describes, ExtendedMantissa.shiftRightOne, ExtendedMantissa.accuracy, hr] at h hm ⊢ <;>
    (try constructor) <;> linarith

theorem Represents.shiftRight (h : Represents em x) (k : ℕ) : Represents (em >>> k) (x / 2 ^ k) := by
  have hrepeat : em >>> k = k.repeat ExtendedMantissa.shiftRightOne em := rfl
  rw [hrepeat]
  induction k with
  | zero => simpa [Nat.repeat] using h
  | succ k ih =>
    rw [Nat.repeat, pow_succ, ← div_div]
    exact (ih rfl).shiftRightOne

structure Rounds (u : UnpackedFloat) (x : EReal) : Prop where
  canonical : IsCanonical u
  number : u.isNaN = false
  nearest : rounded (unpackedValue u) = rounded x

variable {s : Sign} {e t : ℤ} {r : ℕ}

theorem targetExponent_eq (m : ℕ) (e : ℤ) :
    Format.binary64.targetExponent (totalExponent m e) = max (m.log2 + e - 52) (-1074) := by
  simp only [Format.targetExponent, totalExponent, Format.mantissaBits, Format.minExponent]
  omega

theorem shiftToTargetExponent_of_lt (hr : r < 2 ^ 53) (he : -1074 ≤ e) :
    shiftToTargetExponent Format.binary64 r e .exact = (⟨r, false, false⟩, e) := by
  have hlog : r.log2 ≤ 52 := by
    rcases eq_or_ne r 0 with rfl | hr0
    · simp
    · exact Nat.lt_succ_iff.1 ((Nat.log2_lt hr0).2 hr)
  have hshift : (max (r.log2 + e - 52) (-1074) - e).toNat = 0 := by omega
  simp only [shiftToTargetExponent, shiftToExponent, targetExponent_eq, hshift]
  simp [HShiftRight.hShiftRight, Nat.repeat, ExtendedMantissa.ofMantissaAndAccuracy]

theorem shiftToTargetExponent_of_carry (he : -1074 ≤ e) :
    shiftToTargetExponent Format.binary64 (2 ^ 53) e .exact = (⟨2 ^ 52, false, false⟩, e + 1) := by
  have hshift : (max (((2 ^ 53 : ℕ).log2 : ℤ) + e - 52) (-1074) - e).toNat = 1 := by
    rw [Nat.log2_two_pow]
    omega
  simp only [shiftToTargetExponent, shiftToExponent, targetExponent_eq, hshift]
  simp [HShiftRight.hShiftRight, Nat.repeat, ExtendedMantissa.ofMantissaAndAccuracy, ExtendedMantissa.shiftRightOne]

def carried (s : Sign) (r : ℕ) (e : ℤ) : UnpackedFloat :=
  if h : r = 0 then .zero s
  else if r < 2 ^ 53 then .finite s r e (Nat.pos_of_ne_zero h)
  else .finite s (2 ^ 52) (e + 1) (Nat.two_pow_pos 52)

theorem rounds_carried (hr : r ≤ 2 ^ 53) (he : -1074 ≤ e) (hn : e = -1074 ∨ 2 ^ 52 ≤ r) :
    Rounds (carried s r e) (signed s (r * 2 ^ e)) := by
  unfold carried
  split_ifs with h0 hlt
  · refine ⟨trivial, rfl, ?_⟩
    rw [h0, Nat.cast_zero, zero_mul, unpackedValue]
    cases s <;> simp [signed]
  · exact ⟨⟨hlt, he, hn⟩, rfl, rfl⟩
  · obtain rfl : r = 2 ^ 53 := by omega
    refine ⟨⟨by norm_num, by omega, .inr le_rfl⟩, rfl, ?_⟩
    have hsame : magnitude (2 ^ 52) (e + 1) = ((2 ^ 53 : ℕ) : ℝ) * 2 ^ e := by
      rw [magnitude, add_comm e, units_mul]
      push_cast
      ring
    rw [unpackedValue, hsame]

theorem roundWithAccuracy_eq (hr : (shiftToTargetExponent Format.binary64 m e a).1.roundedMantissa = r) (hle : r ≤ 2 ^ 53)
    (ht : (shiftToTargetExponent Format.binary64 m e a).2 = t) (htle : -1074 ≤ t) :
    roundWithAccuracy Format.binary64 s m e a = carried s r t := by
  unfold roundWithAccuracy
  generalize shiftToTargetExponent Format.binary64 m e a = first at *
  obtain ⟨em, e⟩ := first
  dsimp only at hr ht ⊢
  subst hr ht
  unfold carried
  rcases hle.lt_or_eq with hlt | heq
  · rw [shiftToTargetExponent_of_lt hlt htle]
    simp only [if_pos hlt]
  · rw [heq, shiftToTargetExponent_of_carry htle]
    simp

theorem lt_of_exponent (hd : d < 1) (ht : m.log2 + e - 52 ≤ t) : (m + d) * 2 ^ e < (2 : ℝ) ^ (53 + t) := by
  have hlog : (m : ℝ) + 1 ≤ 2 ^ (m.log2 + 1) := by exact_mod_cast Nat.lt_log2_self (n := m)
  calc (m + d) * 2 ^ e < (2 : ℝ) ^ (m.log2 + 1) * 2 ^ e := mul_lt_mul_of_pos_right (by linarith) (by positivity)
    _ = 2 ^ ((m.log2 + 1 : ℕ) + e) := by rw [units_mul, zpow_natCast]
    _ ≤ 2 ^ (53 + t) := zpow_le_zpow_right₀ (by norm_num) (by push_cast; omega)

theorem le_of_exponent (hd : 0 ≤ d) (ht : t ≤ m.log2 + e - 52) (he : e ≤ t) : (2 : ℝ) ^ (52 + t) ≤ (m + d) * 2 ^ e := by
  have hm : m ≠ 0 := by
    rintro rfl
    rw [Nat.log2_zero] at ht
    omega
  have hlog : (2 : ℝ) ^ m.log2 ≤ m := by exact_mod_cast Nat.log2_self_le hm
  calc (2 : ℝ) ^ (52 + t) ≤ 2 ^ (m.log2 + e) := zpow_le_zpow_right₀ (by norm_num) (by omega)
    _ = 2 ^ m.log2 * 2 ^ e := by rw [units_mul, zpow_natCast]
    _ ≤ (m + d) * 2 ^ e := mul_le_mul_of_nonneg_right (by linarith) (by positivity)

/-- The mantissa is shifted to its unit, rounded, and shifted once more if it has become a power of two. -/
theorem rounds_roundWithAccuracy (s : Sign) (hd : Describes a d) (he : e ≤ max (m.log2 + e - 52) (-1074)) :
    Rounds (roundWithAccuracy Format.binary64 s m e a) (signed s ((m + d) * 2 ^ e)) := by
  obtain ⟨t, ht⟩ : ∃ t : ℤ, t = max (m.log2 + e - 52) (-1074) := ⟨_, rfl⟩
  obtain ⟨hd0, hd1⟩ := hd.bounds
  have htmin : -1074 ≤ t := ht ▸ le_max_right _ _
  have hpos : 0 ≤ (m + d) * (2 : ℝ) ^ e := by positivity
  have hsmall : (m + d) * 2 ^ e < (2 : ℝ) ^ (53 + t) := lt_of_exponent hd1 (by omega)
  have hlarge : t = -1074 ∨ (2 : ℝ) ^ (52 + t) ≤ (m + d) * 2 ^ e := by
    rcases eq_or_ne t (-1074) with h | h
    · exact .inl h
    · exact .inr (le_of_exponent hd0 (by omega) (by omega))
  have hcount := ((represents_of_describes m hd).shiftRight (t - e).toNat).roundedMantissa
  rw [← div_units (m + d) (by omega : e ≤ t)] at hcount
  generalize hr : (ExtendedMantissa.ofMantissaAndAccuracy m a >>> (t - e).toNat).roundedMantissa = r at hcount
  have hrle : r ≤ 2 ^ 53 := by exact_mod_cast hcount ▸ nearestInt_le_of_lt_units hsmall
  have hrge : t = -1074 ∨ 2 ^ 52 ≤ r := hlarge.imp_right fun h => by exact_mod_cast hcount ▸ le_nearestInt_of_units_le h
  have hexp : (shiftToTargetExponent Format.binary64 m e a).2 = t := by
    simp only [shiftToTargetExponent, shiftToExponent, targetExponent_eq, ← ht]
    omega
  have hmantissa : (shiftToTargetExponent Format.binary64 m e a).1.roundedMantissa = r := by
    simp only [shiftToTargetExponent, shiftToExponent, targetExponent_eq, ← ht]
    exact hr
  rw [roundWithAccuracy_eq hmantissa hrle hexp htmin]
  have hcarried : Rounds (carried s r t) (signed s (r * 2 ^ t)) := rounds_carried hrle htmin hrge
  have habs : |(m + d) * (2 : ℝ) ^ e| = (m + d) * 2 ^ e := abs_of_nonneg hpos
  have hround := roundReal_eq (habs.symm ▸ hsmall) htmin (habs.symm ▸ hlarge)
  refine ⟨hcarried.canonical, hcarried.number, hcarried.nearest.trans ?_⟩
  rw [← rounded_roundReal (signed s ((m + d) * 2 ^ e)), roundReal_signed, hround, ← hcount, Int.cast_natCast]

theorem decreaseExponent_eq (m : ℕ) (e t : ℤ) : decreaseExponent m e t = (m * 2 ^ (e - t).toNat, min e t) := by
  simp only [decreaseExponent, Nat.shiftLeft_eq, Prod.mk.injEq, true_and]
  omega

theorem log2_mul_two_pow (hm : m ≠ 0) (k : ℕ) : (m * 2 ^ k).log2 = m.log2 + k := by
  induction k with
  | zero => rw [pow_zero, mul_one, add_zero]
  | succ k ih =>
    have hm' : m * 2 ^ k ≠ 0 := mul_ne_zero hm (Nat.two_pow_pos k).ne'
    rw [pow_succ, ← mul_assoc, mul_comm, Nat.log2_two_mul hm', ih, add_assoc]

theorem magnitude_decrease (m : ℕ) (h : t ≤ e) : magnitude (m * 2 ^ (e - t).toNat) t = magnitude m e := by
  obtain ⟨k, rfl⟩ := Int.le.dest h
  have hk : (t + k - t).toNat = k := by omega
  rw [hk, magnitude, magnitude, add_comm t, units_mul, zpow_natCast]
  push_cast
  ring

theorem rounds_round (s : Sign) (m : ℕ) (hm : m ≠ 0) (e : ℤ) :
    Rounds (round Format.binary64 s m e) (signed s (magnitude m e)) := by
  obtain ⟨t, ht⟩ : ∃ t : ℤ, t = max (m.log2 + e - 52) (-1074) := ⟨_, rfl⟩
  have hlog := log2_mul_two_pow hm (e - min e t).toNat
  have hrounds := rounds_roundWithAccuracy (m := m * 2 ^ (e - min e t).toNat) (e := min e t) s (a := .exact) rfl (by omega)
  rw [add_zero, ← magnitude, magnitude_decrease m (min_le_left e t)] at hrounds
  have hshift : (e - min e t).toNat = (e - t).toNat := by omega
  simp only [UnpackedFloat.round, targetExponent_eq, ← ht, decreaseExponent_eq]
  rwa [hshift] at hrounds

theorem rounds_normalize (k e : ℤ) (z : Sign) :
    Rounds (UnpackedFloat.normalize Format.binary64 k e z) ((k * 2 ^ e : ℝ) : EReal) := by
  unfold UnpackedFloat.normalize
  rcases lt_trichotomy k 0 with hk | rfl | hk
  · have hrounds := rounds_round .negative (-k).toNat (by omega) e
    have hcast : (((-k).toNat : ℕ) : ℝ) = -k := by exact_mod_cast Int.toNat_of_nonneg (by omega : 0 ≤ -k)
    rw [signed, magnitude, hcast, neg_mul, neg_neg] at hrounds
    rw [Int.compare_eq_lt.2 hk]
    exact hrounds
  · rw [Int.cast_zero, zero_mul]
    exact ⟨trivial, rfl, rfl⟩
  · have hrounds := rounds_round .positive k.toNat (by omega) e
    have hcast : ((k.toNat : ℕ) : ℝ) = k := by exact_mod_cast Int.toNat_of_nonneg hk.le
    rw [signed, magnitude, hcast] at hrounds
    rw [Int.compare_eq_gt.2 hk]
    exact hrounds

variable {u v : UnpackedFloat}

theorem apply_cast (s : Sign) (m : ℕ) (e : ℤ) : ((s.apply m : ℤ) : ℝ) * 2 ^ e = signed s (magnitude m e) := by
  cases s <;> simp [Sign.apply, signed, magnitude]

theorem rounds_of_value (hu : IsCanonical u) (hn : u.isNaN = false) : Rounds u (unpackedValue u) := ⟨hu, hn, rfl⟩

theorem rounds_add (hu : IsCanonical u) (hv : IsCanonical v) (hn : (UnpackedFloat.add Format.binary64 u v).isNaN = false) :
    Rounds (UnpackedFloat.add Format.binary64 u v) (unpackedValue u + unpackedValue v) := by
  rcases u with ⟨_ | _⟩ | _ | s | ⟨s, m, e, hm⟩ <;> rcases v with ⟨_ | _⟩ | _ | s' | ⟨s', m', e', hm'⟩
  case finite.finite =>
    have hrounds := rounds_normalize (s.apply (m * 2 ^ (e - min e e').toNat : ℕ) + s'.apply (m' * 2 ^ (e' - min e e').toNat : ℕ))
      (min e e') .positive
    rw [Int.cast_add, add_mul, apply_cast, apply_cast, magnitude_decrease m (min_le_left e e'),
      magnitude_decrease m' (min_le_right e e'), EReal.coe_add] at hrounds
    simp only [UnpackedFloat.add, decreaseExponent_eq]
    exact hrounds
  case zero.zero =>
    simp only [UnpackedFloat.add, unpackedValue, add_zero]
    split_ifs
    · exact ⟨trivial, rfl, rfl⟩
    · exact ⟨trivial, rfl, rfl⟩
  case zero.finite => simpa [UnpackedFloat.add, unpackedValue] using rounds_of_value hv rfl
  case finite.zero => simpa [UnpackedFloat.add, unpackedValue] using rounds_of_value hu rfl
  all_goals first
    | exact ⟨trivial, rfl, rfl⟩
    | cases hn

theorem unpacked_sub_eq (u v : UnpackedFloat) :
    UnpackedFloat.sub Format.binary64 u v = UnpackedFloat.add Format.binary64 u v.neg := by
  have happly : ∀ (s : Sign) (k : ℤ), (-s).apply k = -s.apply k := by
    intro s k
    cases s
    · exact (neg_neg k).symm
    · rfl
  cases u <;> cases v <;> simp [UnpackedFloat.sub, UnpackedFloat.add, UnpackedFloat.neg, happly, Int.sub_eq_add_neg]

theorem unpackedValue_neg (u : UnpackedFloat) : unpackedValue u.neg = -unpackedValue u := by
  rcases u with ⟨_ | _⟩ | _ | s | ⟨_ | _, m, e, hm⟩
  case finite.negative =>
    have hsign : -Sign.negative = Sign.positive := rfl
    simp [UnpackedFloat.neg, hsign, unpackedValue, signed]
  case finite.positive =>
    have hsign : -Sign.positive = Sign.negative := rfl
    simp [UnpackedFloat.neg, hsign, unpackedValue, signed]
  all_goals first
    | rfl
    | exact neg_zero.symm

theorem IsCanonical.neg (h : IsCanonical u) : IsCanonical u.neg := by
  cases u with
  | finite s m e hm => exact h
  | infinity s => trivial
  | notANumber => trivial
  | zero s => trivial

theorem rounds_sub (hu : IsCanonical u) (hv : IsCanonical v) (hn : (UnpackedFloat.sub Format.binary64 u v).isNaN = false) :
    Rounds (UnpackedFloat.sub Format.binary64 u v) (unpackedValue u - unpackedValue v) := by
  rw [unpacked_sub_eq] at hn ⊢
  rw [sub_eq_add_neg, ← unpackedValue_neg]
  exact rounds_add hu hv.neg hn

theorem signed_mul (s s' : Sign) (x y : ℝ) : signed (s * s') (x * y) = signed s x * signed s' y := by
  cases s with
  | negative =>
    cases s' with
    | negative => exact (neg_mul_neg x y).symm
    | positive => exact (neg_mul x y).symm
  | positive =>
    cases s' with
    | negative => exact (mul_neg x y).symm
    | positive => rfl

theorem magnitude_mul (m n : ℕ) (d e : ℤ) : magnitude (m * n) (d + e) = magnitude m d * magnitude n e := by
  rw [magnitude, magnitude, magnitude, units_mul, Nat.cast_mul, mul_mul_mul_comm]

/-- The product of two mantissas in canonical form has 53 binary places at least, or else the least exponent. -/
theorem mul_exponent_le {n : ℕ} {d : ℤ} (hm : 0 < m) (hn : 0 < n) (he : e = -1074 ∨ 2 ^ 52 ≤ m) (hd : d = -1074 ∨ 2 ^ 52 ≤ n) :
    e + d ≤ max ((m * n).log2 + (e + d) - 52) (-1074) := by
  have hlog : 2 ^ 52 ≤ m * n → 52 ≤ (m * n).log2 := fun h => (Nat.le_log2 (mul_pos hm hn).ne').2 h
  rcases he with rfl | he
  · rcases hd with rfl | hd
    · omega
    · have hle : 52 ≤ (m * n).log2 := hlog (hd.trans (Nat.le_mul_of_pos_left n hm))
      omega
  · have hle : 52 ≤ (m * n).log2 := hlog (he.trans (Nat.le_mul_of_pos_right m hn))
    omega

theorem infinity_mul (s s' : Sign) (hx : 0 < x) :
    unpackedValue (.infinity (s * s')) = unpackedValue (.infinity s) * (signed s' x : ℝ) := by
  cases s with
  | negative =>
    cases s' with
    | negative => exact (EReal.bot_mul_coe_of_neg (neg_neg_of_pos hx)).symm
    | positive => exact (EReal.bot_mul_coe_of_pos hx).symm
  | positive =>
    cases s' with
    | negative => exact (EReal.top_mul_coe_of_neg (neg_neg_of_pos hx)).symm
    | positive => exact (EReal.top_mul_coe_of_pos hx).symm

theorem sign_mul_comm (s s' : Sign) : s * s' = s' * s := by cases s <;> cases s' <;> rfl

theorem rounds_mul (hu : IsCanonical u) (hv : IsCanonical v) (hn : (UnpackedFloat.mul Format.binary64 u v).isNaN = false) :
    Rounds (UnpackedFloat.mul Format.binary64 u v) (unpackedValue u * unpackedValue v) := by
  rcases u with s | _ | s | ⟨s, m, e, hm⟩ <;> rcases v with s' | _ | s' | ⟨s', m', e', hm'⟩
  case finite.finite =>
    have hle := mul_exponent_le hm hm' hu.2.2 hv.2.2
    have hrounds := rounds_roundWithAccuracy (s * s') (a := .exact) rfl hle
    rw [add_zero, ← magnitude, magnitude_mul, signed_mul, EReal.coe_mul] at hrounds
    exact hrounds
  case infinity.finite => exact ⟨trivial, rfl, congrArg rounded (infinity_mul s s' (magnitude_pos hm' e'))⟩
  case finite.infinity =>
    have hmul := infinity_mul s' s (magnitude_pos hm e)
    rw [sign_mul_comm, mul_comm] at hmul
    exact ⟨trivial, rfl, congrArg rounded hmul⟩
  case infinity.infinity => cases s <;> cases s' <;> exact ⟨trivial, rfl, rfl⟩
  case zero.zero => exact ⟨trivial, rfl, congrArg rounded (zero_mul _).symm⟩
  case zero.finite => exact ⟨trivial, rfl, congrArg rounded (zero_mul _).symm⟩
  case finite.zero => exact ⟨trivial, rfl, congrArg rounded (mul_zero _).symm⟩
  all_goals cases hn

theorem describes_accuracyOfFraction {k n : ℕ} (h : k < n) : Describes (accuracyOfFraction k n) (k / n) := by
  have hn : (0 : ℝ) < n := Nat.cast_pos.2 (Nat.zero_lt_of_lt h)
  unfold accuracyOfFraction
  split_ifs with hk
  · simp [Describes, hk]
  · have hk' : (0 : ℝ) < k := Nat.cast_pos.2 (Nat.pos_of_ne_zero hk)
    have htwice : (k / n + k / n : ℝ) = ((2 * k : ℕ) : ℝ) / n := by rw [← add_div, ← two_mul, Nat.cast_mul, Nat.cast_ofNat]
    rcases lt_trichotomy (2 * k) n with hlt | heq | hgt
    · rw [Nat.compare_eq_lt.2 hlt, Describes, htwice]
      exact ⟨by positivity, (div_lt_one hn).2 (Nat.cast_lt.2 hlt)⟩
    · rw [Nat.compare_eq_eq.2 heq, Describes, htwice, heq]
      exact div_self hn.ne'
    · rw [Nat.compare_eq_gt.2 hgt, Describes, htwice]
      exact ⟨(one_lt_div hn).2 (Nat.cast_lt.2 hgt), (div_lt_one hn).2 (Nat.cast_lt.2 h)⟩

theorem two_pow_le_magnitude (hm : 0 < m) (e : ℤ) : (2 : ℝ) ^ (m.log2 + e) ≤ magnitude m e := by
  have hlog : (2 : ℝ) ^ m.log2 ≤ m := by exact_mod_cast Nat.log2_self_le hm.ne'
  rw [units_mul, zpow_natCast]
  exact mul_le_mul_of_nonneg_right hlog (by positivity)

theorem magnitude_lt_two_pow (m : ℕ) (e : ℤ) : magnitude m e < (2 : ℝ) ^ (m.log2 + 1 + e) := by
  have hlog : (m : ℝ) < 2 ^ (m.log2 + 1) := by exact_mod_cast Nat.lt_log2_self (n := m)
  have hcast : (m.log2 : ℤ) + 1 = (m.log2 + 1 : ℕ) := by push_cast; rfl
  rw [units_mul, hcast, zpow_natCast]
  exact mul_lt_mul_of_pos_right hlog (by positivity)

theorem div_exponent_le {k n : ℕ} {f : ℤ} (hm : 0 < m) (hn : 0 < n) (hd : d < 1)
    (hq : (k + d) * (2 : ℝ) ^ t = magnitude m e / magnitude n f)
    (ht : t ≤ max ((m.log2 + e - (n.log2 + f)) - 53) (-1074)) : t ≤ max (k.log2 + t - 52) (-1074) := by
  have hlt : (2 : ℝ) ^ (m.log2 + e - (n.log2 + 1 + f)) < 2 ^ (53 + (k.log2 + t - 52)) := by
    calc (2 : ℝ) ^ (m.log2 + e - (n.log2 + 1 + f)) = 2 ^ (m.log2 + e) / 2 ^ (n.log2 + 1 + f) := zpow_sub₀ two_ne_zero _ _
      _ ≤ magnitude m e / 2 ^ (n.log2 + 1 + f) := div_le_div_of_nonneg_right (two_pow_le_magnitude hm e) (by positivity)
      _ < magnitude m e / magnitude n f :=
        div_lt_div_of_pos_left (magnitude_pos hm e) (magnitude_pos hn f) (magnitude_lt_two_pow n f)
      _ = (k + d) * 2 ^ t := hq.symm
      _ < 2 ^ (53 + (k.log2 + t - 52)) := lt_of_exponent hd le_rfl
  have hexp := (zpow_lt_zpow_iff_right₀ (by norm_num : (1 : ℝ) < 2)).1 hlt
  omega

theorem divCore_eq (m n : ℕ) (e f : ℤ) : ∃ t : ℤ, t ≤ e - f ∧ t ≤ max ((m.log2 + e - (n.log2 + f)) - 53) (-1074) ∧
    divCore Format.binary64 m e n f = (m * 2 ^ (e - f - t).toNat / n, t,
      accuracyOfFraction (m * 2 ^ (e - f - t).toNat % n) n) := by
  have htarget : Format.binary64.targetExponent (totalExponent m e - totalExponent n f) =
      max ((m.log2 + e - (n.log2 + f)) - 53) (-1074) := by
    simp only [Format.targetExponent, totalExponent, Format.mantissaBits, Format.minExponent]
    omega
  refine ⟨min (e - f) (max ((m.log2 + e - (n.log2 + f)) - 53) (-1074)), min_le_left _ _, min_le_right _ _, ?_⟩
  simp only [divCore, htarget, Nat.shiftLeft_eq]

theorem quotient_eq {n : ℕ} {f : ℤ} (hn : 0 < n) (ht : t ≤ e - f) :
    ((m * 2 ^ (e - f - t).toNat / n : ℕ) + ((m * 2 ^ (e - f - t).toNat % n : ℕ) : ℝ) / n) * 2 ^ t = magnitude m e / magnitude n f := by
  have hn' : (n : ℝ) ≠ 0 := Nat.cast_ne_zero.2 hn.ne'
  have hdiv : ((m * 2 ^ (e - f - t).toNat / n : ℕ) : ℝ) + ((m * 2 ^ (e - f - t).toNat % n : ℕ) : ℝ) / n =
      (m * 2 ^ (e - f - t).toNat : ℕ) / n := by
    rw [eq_div_iff hn', add_mul, div_mul_cancel₀ _ hn']
    exact_mod_cast Nat.div_add_mod' _ n
  have hmag : magnitude m e = magnitude (m * 2 ^ (e - f - t).toNat) (t + f) := by
    have hshift : (e - (t + f)).toNat = (e - f - t).toNat := by omega
    rw [← magnitude_decrease m (by omega : t + f ≤ e), hshift]
  rw [hdiv, hmag, magnitude, magnitude, units_mul]
  field_simp

theorem rounds_div {n : ℕ} {f : ℤ} (hn : 0 < n) (hnan : u.isNaN = false) :
    Rounds (UnpackedFloat.div Format.binary64 u (.finite .positive n f hn)) (unpackedValue u / (magnitude n f : ℝ)) := by
  have hsign : ∀ s : Sign, s / .positive = s := by
    intro s
    cases s <;> rfl
  have hpos : (0 : EReal) < (magnitude n f : ℝ) := EReal.coe_pos.2 (magnitude_pos hn f)
  cases u with
  | notANumber => cases hnan
  | infinity s =>
    refine ⟨trivial, rfl, congrArg rounded ?_⟩
    cases s with
    | negative => exact (EReal.bot_div_of_pos_ne_top hpos (EReal.coe_ne_top _)).symm
    | positive => exact (EReal.top_div_of_pos_ne_top hpos (EReal.coe_ne_top _)).symm
  | zero s => exact ⟨trivial, rfl, congrArg rounded EReal.zero_div.symm⟩
  | finite s m e hm =>
    obtain ⟨t, hte, ht, hcore⟩ := divCore_eq m n e f
    have hq := quotient_eq (m := m) hn hte
    have hd := describes_accuracyOfFraction (Nat.mod_lt (m * 2 ^ (e - f - t).toNat) hn)
    have hrounds := rounds_roundWithAccuracy s hd (div_exponent_le hm hn hd.bounds.2 hq ht)
    have hdiv : signed s (magnitude m e / magnitude n f) = signed s (magnitude m e) / magnitude n f := by
      cases s with
      | negative => exact (neg_div _ _).symm
      | positive => rfl
    simp only [UnpackedFloat.div, hcore, hsign]
    rwa [hq, hdiv, EReal.coe_div] at hrounds

end BehaviorTree
