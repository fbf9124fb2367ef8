import BehaviorTree.Decimal.Notation
import BehaviorTree.Proofs.Value.Conversion

/-!
The shortest decimal of a float stands for the float: of all floats that is the one nearest to it.
-/

set_option autoImplicit false

namespace BehaviorTree

/-- A number that is not further from an integer than a half is rounded to it; exactly half-way the integer has to be even. -/
theorem nearestInt_eq {x : ℝ} {k : ℤ} (hlow : k - 1 / 2 ≤ x) (hhigh : x ≤ k + 1 / 2)
    (hends : k % 2 = 0 ∨ k - 1 / 2 < x ∧ x < k + 1 / 2) : nearestInt x = k := by
  rcases lt_or_ge x k with hlt | hge
  · have hfloor : ⌊x⌋ = k - 1 := by
      rw [Int.floor_eq_iff]
      push_cast
      constructor <;> linarith
    unfold nearestInt
    rw [hfloor]
    push_cast
    split_ifs with hbelow habove
    · linarith
    · omega
    · rcases hends with heven | hstrict
      · omega
      · linarith [hstrict.1]
  · have hfloor : ⌊x⌋ = k := by
      rw [Int.floor_eq_iff]
      constructor <;> linarith
    unfold nearestInt
    rw [hfloor]
    split_ifs with hbelow habove
    · rfl
    · linarith
    · rcases hends with heven | hstrict
      · omega
      · linarith [hstrict.2]

namespace Decimal

noncomputable def Dec.value (d : Dec) : ℝ := d.digits * 10 ^ d.exp

theorem Dec.value_mk (digits : ℕ) (exp : ℤ) : (Dec.mk digits exp).value = digits * 10 ^ exp := rfl

variable {d : Dec} {x : Binary}

theorem pow_toNat {b : ℝ} (hb : 0 < b) (i : ℤ) : b ^ i.toNat = b ^ i * b ^ (-i).toNat := by
  rw [← zpow_natCast, ← zpow_natCast, ← zpow_add₀ hb.ne']
  congr 1
  omega

theorem cmpScaled_spec (a : ℕ) (i : ℤ) (n : ℕ) (j : ℤ) :
    (cmpScaled a i n j = .lt ↔ (a : ℝ) * 10 ^ i < n * 2 ^ j) ∧ (cmpScaled a i n j = .eq ↔ (a : ℝ) * 10 ^ i = n * 2 ^ j) ∧
      (cmpScaled a i n j = .gt ↔ (n : ℝ) * 2 ^ j < a * 10 ^ i) := by
  obtain ⟨scale, hscale⟩ : ∃ scale : ℝ, scale = 2 ^ (-j).toNat * 10 ^ (-i).toNat := ⟨_, rfl⟩
  have hpos : 0 < scale := by rw [hscale]; positivity
  have hleft : ((a * 10 ^ i.toNat * 2 ^ (-j).toNat : ℕ) : ℝ) = a * 10 ^ i * scale := by
    push_cast
    rw [hscale, pow_toNat (by norm_num) i]
    ring
  have hright : ((n * 2 ^ j.toNat * 10 ^ (-i).toNat : ℕ) : ℝ) = n * 2 ^ j * scale := by
    push_cast
    rw [hscale, pow_toNat (by norm_num) j]
    ring
  rw [← mul_lt_mul_iff_left₀ hpos, ← mul_left_inj' hpos.ne', ← mul_lt_mul_iff_left₀ (b := (n : ℝ) * 2 ^ j) hpos, ← hleft, ← hright,
    Nat.cast_lt, Nat.cast_inj, Nat.cast_lt]
  exact ⟨Nat.compare_eq_lt, Nat.compare_eq_eq, Nat.compare_eq_gt⟩

theorem Binary.interval_of_readsBack (h : x.readsBack d = true) :
    ((if x.narrowBelow then 4 * x.m - 1 else 4 * x.m - 2 : ℕ) : ℝ) * 2 ^ (x.q - 2) ≤ d.value ∧
      d.value ≤ (4 * x.m + 2 : ℕ) * 2 ^ (x.q - 2) ∧
      (x.m % 2 = 0 ∨ ((if x.narrowBelow then 4 * x.m - 1 else 4 * x.m - 2 : ℕ) : ℝ) * 2 ^ (x.q - 2) < d.value ∧
        d.value < (4 * x.m + 2 : ℕ) * 2 ^ (x.q - 2)) := by
  obtain ⟨-, hbeloweq, hbelowgt⟩ := cmpScaled_spec d.digits d.exp (if x.narrowBelow then 4 * x.m - 1 else 4 * x.m - 2) (x.q - 2)
  obtain ⟨habovelt, haboveeq, -⟩ := cmpScaled_spec d.digits d.exp (4 * x.m + 2) (x.q - 2)
  simp only [readsBack, Bool.and_eq_true, Bool.or_eq_true, beq_iff_eq] at h
  rw [hbelowgt, hbeloweq, habovelt, haboveeq] at h
  rw [Dec.value]
  refine ⟨?_, ?_, ?_⟩
  · rcases h.1 with hlt | heq
    · exact hlt.le
    · exact heq.2.ge
  · rcases h.2 with hlt | heq
    · exact hlt.le
    · exact heq.2.le
  · by_cases heven : x.m % 2 = 0
    · exact .inl heven
    · simp only [heven, false_and, or_false] at h
      exact .inr h

variable {y : ℝ}

theorem roundReal_of_below {e : ℤ} (he : -1074 < e) (hlow : (2 ^ 52 - 1 / 4) * 2 ^ e ≤ y) (hhigh : y < 2 ^ 52 * 2 ^ e) :
    roundReal y = 2 ^ 52 * 2 ^ e := by
  have hunit : (2 : ℝ) ^ e = 2 * 2 ^ (e - 1) := by
    rw [← zpow_one_add₀ two_ne_zero]
    congr 1
    omega
  have hpos : (0 : ℝ) < 2 ^ (e - 1) := by positivity
  have hplaces : (2 : ℝ) ^ (53 + (e - 1)) = 2 ^ 53 * 2 ^ (e - 1) ∧ (2 : ℝ) ^ (52 + (e - 1)) = 2 ^ 52 * 2 ^ (e - 1) :=
    ⟨units_mul 53 (e - 1), units_mul 52 (e - 1)⟩
  rw [hunit] at hlow hhigh
  have habs : |y| = y := abs_of_nonneg (by linarith)
  have hround : roundReal y = nearestInt (y / 2 ^ (e - 1)) * 2 ^ (e - 1) := by
    refine roundReal_eq ?_ (by omega) (.inr ?_)
    · rw [habs, hplaces.1]
      linarith
    · rw [habs, hplaces.2]
      linarith
  have hcount : nearestInt (y / 2 ^ (e - 1)) = 2 ^ 53 := by
    refine nearestInt_eq ?_ ?_ (.inl (by norm_num))
    · rw [le_div_iff₀ hpos]
      push_cast
      linarith
    · rw [div_le_iff₀ hpos]
      push_cast
      linarith
  rw [hround, hcount, hunit]
  push_cast
  ring

theorem roundReal_of_near {m : ℕ} {e : ℤ} (hm : m < 2 ^ 53) (he : -1074 ≤ e) (hfull : e = -1074 ∨ 2 ^ 52 * 2 ^ e ≤ y)
    (hpos : 0 ≤ y) (hlow : (m - 1 / 2) * 2 ^ e ≤ y) (hhigh : y ≤ (m + 1 / 2) * 2 ^ e)
    (hends : m % 2 = 0 ∨ (m - 1 / 2) * 2 ^ e < y ∧ y < (m + 1 / 2) * 2 ^ e) : roundReal y = magnitude m e := by
  have hunit : (0 : ℝ) < 2 ^ e := by positivity
  have hm' : (m : ℝ) ≤ 2 ^ 53 - 1 := by
    rw [le_sub_iff_add_le]
    exact_mod_cast hm
  have habs : |y| = y := abs_of_nonneg hpos
  have hplaces : (2 : ℝ) ^ (53 + e) = 2 ^ 53 * 2 ^ e ∧ (2 : ℝ) ^ (52 + e) = 2 ^ 52 * 2 ^ e := ⟨units_mul 53 e, units_mul 52 e⟩
  have hround : roundReal y = nearestInt (y / 2 ^ e) * 2 ^ e := by
    refine roundReal_eq ?_ he (hfull.imp_right fun h => ?_)
    · rw [habs, hplaces.1]
      exact hhigh.trans_lt (mul_lt_mul_of_pos_right (by linarith) hunit)
    · rwa [habs, hplaces.2]
  have hcount : nearestInt (y / 2 ^ e) = m := by
    refine nearestInt_eq ?_ ?_ (hends.imp (fun h => by omega) fun h => ⟨?_, ?_⟩)
    · rw [le_div_iff₀ hunit]
      exact_mod_cast hlow
    · rw [div_le_iff₀ hunit]
      exact_mod_cast hhigh
    · rw [lt_div_iff₀ hunit]
      exact_mod_cast h.1
    · rw [div_lt_iff₀ hunit]
      exact_mod_cast h.2
  rw [hround, hcount, magnitude, Int.cast_natCast]

theorem Binary.roundReal_of_readsBack (hx : x.IsFinite) (hm : 0 < x.m) (h : x.readsBack d = true) :
    roundReal d.value = magnitude x.m x.q := by
  obtain ⟨hlow, hhigh, hends⟩ := interval_of_readsBack h
  have hquarter : (2 : ℝ) ^ (x.q - 2) = 2 ^ x.q / 4 := by
    rw [zpow_sub₀ two_ne_zero]
    norm_num
  have hunit : (0 : ℝ) < 2 ^ x.q := by positivity
  have hlower : ((if x.narrowBelow then 4 * x.m - 1 else 4 * x.m - 2 : ℕ) : ℝ) = 4 * x.m - if x.narrowBelow then 1 else 2 := by
    split_ifs
    · rw [Nat.cast_sub (by omega)]
      push_cast
      rfl
    · rw [Nat.cast_sub (by omega)]
      push_cast
      rfl
  rw [hquarter] at hlow hhigh hends
  rw [hlower] at hlow hends
  push_cast at hhigh hends
  by_cases hbelow : x.narrowBelow = true ∧ d.value < 2 ^ 52 * 2 ^ x.q
  · obtain ⟨hpower, hleast⟩ := hx.narrow.1 hbelow.1
    rw [if_pos hbelow.1, hpower] at hlow
    push_cast at hlow
    rw [roundReal_of_below hleast (by linarith) hbelow.2, magnitude, hpower]
    norm_num
  · have hwide : (if x.narrowBelow then (1 : ℝ) else 2) ≤ 2 := by split_ifs <;> norm_num
    have hnear : (x.m - 1 / 2) * 2 ^ x.q ≤ (4 * x.m - if x.narrowBelow then (1 : ℝ) else 2) * (2 ^ x.q / 4) := by
      nlinarith
    have hpos : (1 : ℝ) ≤ x.m := by exact_mod_cast hm
    have hnonneg : 0 ≤ (x.m - 1 / 2) * (2 : ℝ) ^ x.q := mul_nonneg (by linarith) hunit.le
    refine roundReal_of_near hx.short hx.least ?_ (hnonneg.trans (hnear.trans hlow)) (hnear.trans hlow) (by linarith)
      (hends.imp_right fun h => ⟨hnear.trans_lt h.1, by linarith [h.2]⟩)
    by_cases hnarrow : x.narrowBelow = true
    · exact .inr (not_lt.1 fun hlt => hbelow ⟨hnarrow, hlt⟩)
    · rcases eq_or_ne x.q (-1074) with hleast | hleast
      · exact .inl hleast
      · -- the interval is wide on both sides, so that the mantissa is no power of two
        have hmore : 2 ^ 52 + 1 ≤ x.m := by
          have hfull := hx.full.resolve_left hleast
          have hne : x.m ≠ 2 ^ 52 := fun heq => hnarrow (hx.narrow.2 ⟨heq, lt_of_le_of_ne hx.least hleast.symm⟩)
          omega
        have hmore' : (2 : ℝ) ^ 52 + 1 ≤ x.m := by exact_mod_cast hmore
        rw [if_neg hnarrow] at hlow
        exact .inr (by nlinarith)

theorem Dec.value_go (fuel : ℕ) (d : Dec) : (Dec.strip.go fuel d).value = d.value := by
  induction fuel generalizing d with
  | zero => rfl
  | succ fuel ih =>
    unfold Dec.strip.go
    split_ifs with hzero
    · rw [ih, Dec.value, Dec.value, zpow_add_one₀ (by norm_num)]
      have hten : ((d.digits / 10 : ℕ) : ℝ) * 10 = d.digits := by exact_mod_cast Nat.div_mul_cancel (Nat.dvd_of_mod_eq_zero hzero.2)
      rw [← hten]
      ring
    · rfl

theorem Dec.value_strip (d : Dec) : d.strip.value = d.value := Dec.value_go _ d

theorem Binary.value_exact (x : Binary) : x.exact.value = magnitude x.m x.q := by
  have htwo : (2 : ℝ) ^ x.q.toNat = 2 ^ x.q * 2 ^ (-x.q).toNat := pow_toNat two_pos x.q
  have hten : (10 : ℝ) ^ (-((-x.q).toNat : ℤ)) = ((2 * 5) ^ (-x.q).toNat)⁻¹ := by
    rw [zpow_neg, zpow_natCast]
    norm_num
  rw [Dec.value, exact, magnitude]
  simp only [Nat.pow_eq]
  push_cast
  rw [htwo, hten, mul_pow]
  field_simp

theorem Binary.readsBack_of_onGrid {i : ℤ} (h : x.onGrid? i = some d) : x.readsBack d = true := by
  unfold onGrid? at h
  dsimp only at h
  split at h
  · rename_i hlo _
    rwa [← Option.some.inj h]
  · rename_i _ hhi
    rwa [← Option.some.inj h]
  · cases h
  · rename_i hlo hhi
    split at h
    · rwa [← Option.some.inj h]
    · rwa [← Option.some.inj h]
    · rw [← Option.some.inj h]
      split_ifs
      · exact hlo
      · exact hhi

theorem Binary.roundReal_shortest (hx : x.IsFinite) (hm : 0 < x.m) : roundReal x.shortest.value = magnitude x.m x.q := by
  rw [shortest, Dec.value_strip]
  cases hgrid : (List.range 17).findSome? fun n : ℕ => x.onGrid? (x.scale - (n + 1 : ℕ)) with
  | none =>
    have hk : |(x.m : ℤ)| ≤ 2 ^ 53 := by
      rw [Nat.abs_cast]
      exact_mod_cast hx.short.le
    rw [Option.getD_none, value_exact]
    exact_mod_cast roundReal_of_short hk hx.least
  | some d =>
    obtain ⟨n, -, hn⟩ := List.exists_of_findSome?_eq_some hgrid
    exact roundReal_of_readsBack hx hm (readsBack_of_onGrid hn)

end Decimal

open Float.Model Float.Model.UnpackedFloat

theorem unpacked_eq_of_value {u v : UnpackedFloat} (hu : IsCanonical u) (hv : IsCanonical v) (hnan : v.isNaN = false) {s : Sign} {m : ℕ}
    {e : ℤ} {hm : 0 < m} (hfinite : u = .finite s m e hm) (h : unpackedValue v = unpackedValue u) : v = u := by
  have hnumber : u.isNaN = false := by rw [hfinite]; rfl
  have hrank : floatRank v = floatRank u := le_antisymm ((unpackedValue_le_iff hv hu hnan hnumber).1 h.le)
    ((unpackedValue_le_iff hu hv hnumber hnan).1 h.ge)
  subst hfinite
  rcases v with ⟨_ | _⟩ | _ | t | ⟨_ | _, n, d, hn⟩ <;> cases s <;> simp [floatRank] at hrank
  all_goals
    obtain ⟨rfl, rfl⟩ := hrank
    rfl

theorem eq_of_isNearest_shortest {x y : Float} {s : Sign} {m : ℕ} {e : ℤ} {hm : 0 < m} (hx : x.toModel.unpack = .finite s m e hm)
    (hy : IsNearest y (signed s (Decimal.Binary.ofBits x.toBits).shortest.value : ℝ)) : y = x := by
  obtain ⟨hmantissa, hexponent⟩ := binary_of_finite hx
  have hshortest := Decimal.Binary.roundReal_shortest (isFinite_ofBits x) (hmantissa ▸ hm)
  rw [hmantissa, hexponent] at hshortest
  have hvalue : floatValue y = floatValue x := by
    have hcanonical : IsCanonical (.finite s m e hm) := hx ▸ unpack_isCanonical x.toModel
    have hlt : |signed s (magnitude m e)| < overflowBound := by
      rw [abs_signed, abs_of_pos (magnitude_pos hm e)]
      exact magnitude_lt_overflowBound hcanonical.1 (exponent_lt_of_finite hx)
    rw [hy.value, ← rounded_roundReal, roundReal_signed, hshortest, rounded_signed_magnitude hcanonical, limited_of_lt hlt, floatValue, hx,
      unpackedValue]
  exact unpack_injective (unpacked_eq_of_value (unpack_isCanonical _) (unpack_isCanonical _) hy.number hx hvalue)

end BehaviorTree
