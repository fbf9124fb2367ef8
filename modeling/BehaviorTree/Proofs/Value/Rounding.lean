import Mathlib

/-!
Rounding of real numbers to 53 binary places. A number is counted in units, powers of two that depend on its size and that are never
smaller than the least positive float; the count goes to the nearest integer, a half to the even one. What is then too large for a
float becomes an infinity.
-/

set_option autoImplicit false

namespace BehaviorTree

noncomputable def nearestInt (x : ℝ) : ℤ :=
  if x < ⌊x⌋ + 1 / 2 then ⌊x⌋
  else if ⌊x⌋ + 1 / 2 < x then ⌊x⌋ + 1
  else ⌊x⌋ + ⌊x⌋ % 2

variable {x y : ℝ} {k : ℤ}

theorem floor_le_nearestInt (x : ℝ) : ⌊x⌋ ≤ nearestInt x := by
  unfold nearestInt
  split_ifs <;> omega

theorem nearestInt_le_floor_add_one (x : ℝ) : nearestInt x ≤ ⌊x⌋ + 1 := by
  unfold nearestInt
  split_ifs <;> omega

theorem nearestInt_intCast (k : ℤ) : nearestInt k = k := by
  unfold nearestInt
  rw [Int.floor_intCast, if_pos (by norm_num)]

theorem nearestInt_mono : Monotone nearestInt := by
  intro x y hxy
  rcases (Int.floor_mono hxy).lt_or_eq with hlt | heq
  · calc nearestInt x ≤ ⌊x⌋ + 1 := nearestInt_le_floor_add_one x
      _ ≤ ⌊y⌋ := hlt
      _ ≤ nearestInt y := floor_le_nearestInt y
  · unfold nearestInt
    rw [heq]
    split_ifs <;> first | omega | linarith

theorem le_nearestInt (h : (k : ℝ) ≤ x) : k ≤ nearestInt x := nearestInt_intCast k ▸ nearestInt_mono h

theorem nearestInt_le (h : x ≤ k) : nearestInt x ≤ k := nearestInt_intCast k ▸ nearestInt_mono h

theorem nearestInt_neg (x : ℝ) : nearestInt (-x) = -nearestInt x := by
  by_cases hx : x = ⌊x⌋
  · rw [hx, ← Int.cast_neg, nearestInt_intCast, nearestInt_intCast]
  · have hlt : (⌊x⌋ : ℝ) < x := lt_of_le_of_ne (Int.floor_le x) (Ne.symm hx)
    have hfloor : ⌊-x⌋ = -⌊x⌋ - 1 := by
      rw [Int.floor_eq_iff]
      push_cast
      constructor <;> linarith [Int.lt_floor_add_one x]
    unfold nearestInt
    rw [hfloor]
    push_cast
    split_ifs <;> first | omega | linarith

theorem units_mul (a e : ℤ) : (2 : ℝ) ^ (a + e) = 2 ^ a * 2 ^ e := zpow_add₀ two_ne_zero a e

theorem div_units {e t : ℤ} (x : ℝ) (h : e ≤ t) : x * 2 ^ e / 2 ^ t = x / 2 ^ (t - e).toNat := by
  obtain ⟨k, rfl⟩ := Int.le.dest h
  have hk : (e + k - e).toNat = k := by omega
  rw [hk, add_comm e, units_mul, zpow_natCast]
  exact mul_div_mul_right x _ (by positivity)

theorem nearestInt_le_of_lt_units {e : ℤ} (h : x < 2 ^ (53 + e)) : nearestInt (x / 2 ^ e) ≤ 2 ^ 53 := by
  refine nearestInt_le ?_
  rw [div_le_iff₀ (by positivity)]
  rw [units_mul] at h
  exact_mod_cast h.le

theorem le_nearestInt_of_units_le {e : ℤ} (h : 2 ^ (52 + e) ≤ x) : 2 ^ 52 ≤ nearestInt (x / 2 ^ e) := by
  refine le_nearestInt ?_
  rw [le_div_iff₀ (by positivity)]
  rw [units_mul] at h
  exact_mod_cast h

noncomputable def magnitude (m : ℕ) (e : ℤ) : ℝ := m * 2 ^ e

theorem magnitude_pos {m : ℕ} (hm : 0 < m) (e : ℤ) : 0 < magnitude m e := mul_pos (Nat.cast_pos.2 hm) (zpow_pos two_pos e)

noncomputable def unitExponent (x : ℝ) : ℤ := max (Int.log 2 |x| - 52) (-1074)

noncomputable def roundReal (x : ℝ) : ℝ := nearestInt (x / 2 ^ unitExponent x) * 2 ^ unitExponent x

theorem roundReal_zero : roundReal 0 = 0 := by
  rw [roundReal, zero_div, ← Int.cast_zero, nearestInt_intCast, Int.cast_zero, zero_mul]

theorem roundReal_neg (x : ℝ) : roundReal (-x) = -roundReal x := by
  have hunit : unitExponent (-x) = unitExponent x := by rw [unitExponent, unitExponent, abs_neg]
  rw [roundReal, roundReal, hunit, neg_div, nearestInt_neg, Int.cast_neg, neg_mul]

theorem roundReal_nonneg (h : 0 ≤ x) : 0 ≤ roundReal x := by
  have hcount : 0 ≤ nearestInt (x / 2 ^ unitExponent x) := le_nearestInt (by rw [Int.cast_zero]; positivity)
  exact mul_nonneg (Int.cast_nonneg hcount) (by positivity)

theorem lt_units (x : ℝ) : |x| < 2 ^ (53 + unitExponent x) := by
  have hlog : |x| < 2 ^ (Int.log 2 |x| + 1) := Int.lt_zpow_succ_log_self (by norm_num) |x|
  refine hlog.trans_le (zpow_le_zpow_right₀ (by norm_num) ?_)
  unfold unitExponent
  omega

theorem units_le (hx : x ≠ 0) (h : -1074 < unitExponent x) : 2 ^ (52 + unitExponent x) ≤ |x| := by
  have hlog : (2 : ℝ) ^ Int.log 2 |x| ≤ |x| := Int.zpow_log_le_self (by norm_num) (abs_pos.2 hx)
  have hunit : 52 + unitExponent x = Int.log 2 |x| := by
    unfold unitExponent at h ⊢
    omega
  rwa [hunit]

theorem unitExponent_le {e : ℤ} (hx : x ≠ 0) (hlt : |x| < 2 ^ (53 + e)) (he : -1074 ≤ e) : unitExponent x ≤ e := by
  have hlog : Int.log 2 |x| < 53 + e := (Int.lt_zpow_iff_log_lt (by norm_num) (abs_pos.2 hx)).1 hlt
  unfold unitExponent
  omega

theorem unitExponent_mono (hx : 0 < x) (h : x ≤ y) : unitExponent x ≤ unitExponent y := by
  unfold unitExponent
  rw [abs_of_pos hx, abs_of_pos (hx.trans_le h)]
  have hlog : Int.log 2 x ≤ Int.log 2 y := Int.log_mono_right hx h
  omega

theorem unitExponent_eq {e : ℤ} (hx : x ≠ 0) (hlt : |x| < 2 ^ (53 + e)) (he : -1074 ≤ e) (hle : e = -1074 ∨ 2 ^ (52 + e) ≤ |x|) :
    unitExponent x = e := by
  refine (unitExponent_le hx hlt he).antisymm ?_
  rcases hle with rfl | hle
  · exact le_max_right _ _
  · have hlog : 52 + e ≤ Int.log 2 |x| := (Int.zpow_le_iff_le_log (by norm_num) (abs_pos.2 hx)).1 hle
    unfold unitExponent
    omega

theorem roundReal_eq {e : ℤ} (hlt : |x| < 2 ^ (53 + e)) (he : -1074 ≤ e) (hle : e = -1074 ∨ 2 ^ (52 + e) ≤ |x|) :
    roundReal x = nearestInt (x / 2 ^ e) * 2 ^ e := by
  rcases eq_or_ne x 0 with rfl | hx
  · rw [roundReal_zero, zero_div, ← Int.cast_zero, nearestInt_intCast, Int.cast_zero, zero_mul]
  · rw [roundReal, unitExponent_eq hx hlt he hle]

theorem abs_units (k e : ℤ) : |(k : ℝ) * 2 ^ e| = ((|k| : ℤ) : ℝ) * 2 ^ e := by
  rw [abs_mul, abs_of_pos (by positivity : (0 : ℝ) < 2 ^ e), Int.cast_abs]

theorem unitExponent_le_of_short {e : ℤ} (hk0 : k ≠ 0) (hk : |k| < 2 ^ 53) (he : -1074 ≤ e) : unitExponent (k * 2 ^ e) ≤ e := by
  refine unitExponent_le (mul_ne_zero (Int.cast_ne_zero.2 hk0) (by positivity)) ?_ he
  rw [abs_units, units_mul]
  exact mul_lt_mul_of_pos_right (by exact_mod_cast hk) (by positivity)

theorem unitExponent_of_power {e : ℤ} (hk0 : k ≠ 0) (hk : |k| = 2 ^ 53) (he : -1074 ≤ e) : unitExponent (k * 2 ^ e) = e + 1 := by
  have hpow : |(k : ℝ) * 2 ^ e| = 2 ^ (53 + e) := by
    rw [abs_units, hk, units_mul]
    norm_num
  refine unitExponent_eq (mul_ne_zero (Int.cast_ne_zero.2 hk0) (by positivity)) ?_ (by omega) (.inr ?_)
  · rw [hpow]
    exact zpow_lt_zpow_right₀ (by norm_num) (by omega)
  · rw [hpow]
    exact zpow_le_zpow_right₀ (by norm_num) (by omega)

theorem exists_units_of_short {e : ℤ} (hk0 : k ≠ 0) (hk : |k| ≤ 2 ^ 53) (he : -1074 ≤ e) :
    ∃ j : ℤ, (k : ℝ) * 2 ^ e = j * 2 ^ unitExponent (k * 2 ^ e) := by
  -- below the bound the unit is not larger than `2^e`, and at the bound it is `2^(e+1)`
  rcases hk.lt_or_eq with hlt | heq
  · obtain ⟨n, hn⟩ := Int.le.dest (unitExponent_le_of_short hk0 hlt he)
    refine ⟨k * 2 ^ n, ?_⟩
    nth_rewrite 1 [← hn]
    rw [add_comm, units_mul, zpow_natCast]
    push_cast
    ring
  · have heven : k = 2 * (k / 2) := by
      rcases (abs_eq (by norm_num)).1 heq with rfl | rfl <;> norm_num
    refine ⟨k / 2, ?_⟩
    rw [unitExponent_of_power hk0 heq he, add_comm e, units_mul]
    nth_rewrite 1 [heven]
    push_cast
    ring

theorem roundReal_of_short {e : ℤ} (hk : |k| ≤ 2 ^ 53) (he : -1074 ≤ e) : roundReal (k * 2 ^ e) = k * 2 ^ e := by
  rcases eq_or_ne k 0 with rfl | hk0
  · rw [Int.cast_zero, zero_mul, roundReal_zero]
  · obtain ⟨j, hj⟩ := exists_units_of_short hk0 hk he
    have hunit : (2 : ℝ) ^ unitExponent ((k : ℝ) * 2 ^ e) ≠ 0 := by positivity
    have hquot : (k : ℝ) * 2 ^ e / 2 ^ unitExponent ((k : ℝ) * 2 ^ e) = j := by rw [div_eq_iff hunit, ← hj]
    rw [roundReal, hquot, nearestInt_intCast, ← hj]

theorem abs_nearestInt_le (x : ℝ) : |nearestInt (x / 2 ^ unitExponent x)| ≤ 2 ^ 53 := by
  obtain ⟨hlow, hhigh⟩ := abs_lt.1 (lt_units x)
  have hneg : nearestInt (-x / 2 ^ unitExponent x) ≤ 2 ^ 53 := nearestInt_le_of_lt_units (by linarith)
  rw [neg_div, nearestInt_neg] at hneg
  exact abs_le.2 ⟨by linarith, nearestInt_le_of_lt_units hhigh⟩

theorem roundReal_roundReal (x : ℝ) : roundReal (roundReal x) = roundReal x :=
  roundReal_of_short (abs_nearestInt_le x) (le_max_right _ _)

theorem roundReal_mono_of_pos (hx : 0 < x) (h : x ≤ y) : roundReal x ≤ roundReal y := by
  have hy : 0 < y := hx.trans_le h
  rcases (unitExponent_mono hx h).eq_or_lt with heq | hlt
  · have hcount : nearestInt (x / 2 ^ unitExponent x) ≤ nearestInt (y / 2 ^ unitExponent x) :=
      nearestInt_mono (by gcongr)
    rw [roundReal, roundReal, ← heq]
    gcongr
  · -- the unit of y is larger, so that a power of two lies between the two
    have hxlt := lt_units x
    have hyle := units_le hy.ne' ((le_max_right _ _).trans_lt hlt)
    rw [abs_of_pos hx] at hxlt
    rw [abs_of_pos hy] at hyle
    have hxcount : (nearestInt (x / 2 ^ unitExponent x) : ℝ) ≤ 2 ^ 53 := by exact_mod_cast nearestInt_le_of_lt_units hxlt
    have hycount : (2 ^ 52 : ℝ) ≤ nearestInt (y / 2 ^ unitExponent y) := by exact_mod_cast le_nearestInt_of_units_le hyle
    calc roundReal x ≤ 2 ^ 53 * 2 ^ unitExponent x := mul_le_mul_of_nonneg_right hxcount (by positivity)
      _ = 2 ^ 52 * 2 ^ (1 + unitExponent x) := by rw [units_mul]; ring
      _ ≤ 2 ^ 52 * 2 ^ unitExponent y := by
        gcongr
        · norm_num
        · omega
      _ ≤ roundReal y := mul_le_mul_of_nonneg_right hycount (by positivity)

theorem roundReal_mono : Monotone roundReal := by
  intro x y h
  rcases lt_trichotomy x 0 with hx | rfl | hx
  · rcases lt_or_ge y 0 with hy | hy
    · have hneg := roundReal_mono_of_pos (neg_pos.2 hy) (neg_le_neg h)
      rw [roundReal_neg, roundReal_neg] at hneg
      exact neg_le_neg_iff.1 hneg
    · have hneg := roundReal_nonneg (neg_nonneg.2 hx.le)
      rw [roundReal_neg] at hneg
      exact (neg_nonneg.1 hneg).trans (roundReal_nonneg hy)
  · rw [roundReal_zero]
    exact roundReal_nonneg h
  · exact roundReal_mono_of_pos hx h

noncomputable def overflowBound : ℝ := 2 ^ (1024 : ℤ)

theorem overflowBound_pos : 0 < overflowBound := zpow_pos two_pos _

noncomputable def limited (x : ℝ) : EReal :=
  if overflowBound ≤ x then ⊤ else if x ≤ -overflowBound then ⊥ else x

theorem limited_mono : Monotone limited := by
  intro x y h
  have hpos : 0 < overflowBound := overflowBound_pos
  unfold limited
  split_ifs
  all_goals first
    | exact le_top
    | exact bot_le
    | exact EReal.coe_le_coe_iff.2 h
    | linarith

theorem limited_neg (x : ℝ) : limited (-x) = -limited x := by
  have hpos : 0 < overflowBound := overflowBound_pos
  unfold limited
  split_ifs
  all_goals first
    | rfl
    | linarith

theorem limited_of_lt (h : |x| < overflowBound) : limited x = x := by
  obtain ⟨hlow, hhigh⟩ := abs_lt.1 h
  rw [limited, if_neg hhigh.not_ge, if_neg hlow.not_ge]

theorem limited_zero : limited 0 = 0 := by
  rw [limited_of_lt (by rw [abs_zero]; exact overflowBound_pos), EReal.coe_zero]

noncomputable def rounded : EReal → EReal := fun x => EReal.rec ⊥ (fun r => limited (roundReal r)) ⊤ x

@[simp] theorem rounded_bot : rounded ⊥ = ⊥ := rfl

@[simp] theorem rounded_top : rounded ⊤ = ⊤ := rfl

@[simp] theorem rounded_coe (x : ℝ) : rounded x = limited (roundReal x) := rfl

theorem rounded_mono : Monotone rounded := by
  intro x y h
  induction x with
  | bot => exact bot_le
  | top => rw [top_le_iff.1 h]
  | coe x =>
    induction y with
    | bot => exact absurd h (not_le.2 (EReal.bot_lt_coe x))
    | top => exact le_top
    | coe y => exact limited_mono (roundReal_mono (EReal.coe_le_coe_iff.1 h))

theorem rounded_zero : rounded 0 = 0 := by
  rw [← EReal.coe_zero, rounded_coe, roundReal_zero, limited_zero, EReal.coe_zero]

theorem rounded_neg (r : EReal) : rounded (-r) = -rounded r := by
  induction r with
  | bot => rfl
  | top => rfl
  | coe x => rw [← EReal.coe_neg, rounded_coe, rounded_coe, roundReal_neg, limited_neg]

theorem rounded_rounded (r : EReal) : rounded (rounded r) = rounded r := by
  induction r with
  | bot => rfl
  | top => rfl
  | coe x =>
    rw [rounded_coe]
    unfold limited
    split_ifs with hhigh hlow
    · rfl
    · rfl
    · rw [rounded_coe, roundReal_roundReal, limited, if_neg hhigh, if_neg hlow]

theorem rounded_roundReal (x : ℝ) : rounded (roundReal x) = rounded x := by
  rw [rounded_coe, rounded_coe, roundReal_roundReal]

end BehaviorTree
