import BehaviorTree.Graph.Grid
import BehaviorTree.Proofs.Result
import BehaviorTree.Proofs.Value.Conversion

/-!
The grid keeps the order of coordinates: what is further left is not further right after it has been moved to a multiple of the grid
size. Different coordinates can become the same.
-/

set_option autoImplicit false

namespace BehaviorTree

open Float.Model Float.Model.UnpackedFloat

theorem one_le_floatValue {x : Float} {k : ℤ} (hk : 1 ≤ k) (hx : IsNearest x (k : ℝ)) : 1 ≤ floatValue x := by
  have hone : rounded ((1 : ℝ) : EReal) = 1 := by
    have hshort := roundReal_of_short (k := 1) (e := 0) (by norm_num) (by norm_num)
    rw [Int.cast_one, zpow_zero, mul_one] at hshort
    have hbound : |(1 : ℝ)| < overflowBound := by
      rw [abs_one, overflowBound]
      exact one_lt_zpow₀ one_lt_two (by norm_num)
    rw [rounded_coe, hshort, limited_of_lt hbound, EReal.coe_one]
  rw [hx.value, ← hone]
  exact rounded_mono (EReal.coe_le_coe_iff.2 (by exact_mod_cast hk))

theorem unpack_of_pos {x : Float} (hinf : x.isInf = false) (hpos : 0 < floatValue x) :
    ∃ n f, ∃ hn : 0 < n, x.toModel.unpack = .finite .positive n f hn := by
  have hinf' : x.toModel.unpack.isInf = false := hinf
  rw [floatValue] at hpos
  cases hu : x.toModel.unpack with
  | notANumber => simp [hu, unpackedValue] at hpos
  | infinity s =>
    rw [hu] at hinf'
    cases hinf'
  | zero s => simp [hu, unpackedValue] at hpos
  | finite s m e hm =>
    cases s with
    | negative =>
      have hneg : signed .negative (magnitude m e) < 0 := neg_neg_of_pos (magnitude_pos hm e)
      rw [hu, unpackedValue, EReal.coe_pos] at hpos
      exact absurd hpos hneg.not_gt
    | positive => exact ⟨m, e, hm, rfl⟩

namespace GridSettings

variable {g : GridSettings} {size : ℤ} {x y a b : Float}

theorem toFloat_int_eq_ok {k : ℤ} : Number.toFloat (.int k) = .ok a ↔ Decimal.ofInt? k = some a := by
  unfold Number.toFloat
  cases hk : Decimal.ofInt? k with
  | none => simp [hk]
  | some b => simp [hk]

/-- The quotient by the size is rounded to a float and then to an integer, and its multiple of the size to a float. -/
theorem nearestMultiple_eq_ok (hsize : 1 ≤ size) (h : nearestMultiple size (.float x) = .ok a) :
    x.isNaN = false ∧ ∃ c, Decimal.ofInt? size = some c ∧ 0 < floatValue c ∧
      ∃ r : ℝ, rounded (floatValue x / floatValue c) = r ∧ IsNearest a ((nearestInt r * size : ℤ) : ℝ) := by
  obtain ⟨q, hquot, hround⟩ := bind_eq_ok.1 h
  obtain ⟨c, hc, rfl⟩ := map_eq_ok.1 hquot
  rw [toFloat_int_eq_ok] at hc
  cases hk : Decimal.roundFloat (x / c) with
  | error f => simp [hk] at hround
  | ok k =>
    rw [hk] at hround
    obtain ⟨hnan, r, hr, rfl⟩ := roundFloat_eq_ok hk
    have hx : x.isNaN = false := (isNaN_of_div hnan).1
    obtain ⟨hinf, hnearest⟩ := isNearest_ofInt hc
    have hpos : 0 < floatValue c := zero_lt_one.trans_le (one_le_floatValue hsize hnearest)
    obtain ⟨n, f, hn, hu⟩ := unpack_of_pos hinf hpos
    have hvalue : floatValue c = (magnitude n f : ℝ) := by rw [floatValue, hu, unpackedValue, signed]
    refine ⟨hx, c, hc, hpos, r, ?_, (isNearest_ofInt (toFloat_int_eq_ok.1 hround)).2⟩
    rw [hvalue, ← (isNearest_div hu hx).value, hr]

theorem nearestMultiple_mono (hsize : 1 ≤ size) (h : x ≤ y) (ha : nearestMultiple size (.float x) = .ok a)
    (hb : nearestMultiple size (.float y) = .ok b) : a ≤ b := by
  obtain ⟨hx, c, hc, hpos, r, hr, hnearest⟩ := nearestMultiple_eq_ok hsize ha
  obtain ⟨hy, c', hc', -, q, hq, hnearest'⟩ := nearestMultiple_eq_ok hsize hb
  obtain rfl := Option.some.inj (hc.symm.trans hc')
  have hle : r ≤ q := by
    rw [← EReal.coe_le_coe_iff, ← hr, ← hq]
    exact rounded_mono (EReal.div_le_div_right_of_nonneg hpos.le (floatValue_le_of_le h))
  refine hnearest.le hnearest' (EReal.coe_le_coe_iff.2 ?_)
  exact_mod_cast mul_le_mul_of_nonneg_right (nearestInt_mono hle) (by omega)

theorem snapFloat_mono (hsize : 1 ≤ g.size) (h : x ≤ y) (ha : g.snapFloat x = .ok a) (hb : g.snapFloat y = .ok b) : a ≤ b := by
  unfold snapFloat at ha hb
  split_ifs at ha hb with hsnap
  · exact nearestMultiple_mono hsize h ha hb
  · obtain rfl := Except.ok.inj ha
    obtain rfl := Except.ok.inj hb
    exact h

theorem isNaN_of_snapFloat (hsize : 1 ≤ g.size) (ha : g.snapFloat x = .ok a) (hnan : a.isNaN = false) : x.isNaN = false := by
  unfold snapFloat at ha
  split_ifs at ha with hsnap
  · exact (nearestMultiple_eq_ok hsize ha).1
  · obtain rfl := Except.ok.inj ha
    exact hnan

theorem isNaN_of_nearestMultiple {n : Number} (h : nearestMultiple size n = .ok a) : a.isNaN = false := by
  obtain ⟨q, _, hround⟩ := bind_eq_ok.1 h
  cases hk : Decimal.roundFloat q with
  | error f => simp [hk] at hround
  | ok k =>
    rw [hk] at hround
    exact (isNearest_ofInt (toFloat_int_eq_ok.1 hround)).2.number

theorem snapFloat_isNaN (ha : g.snapFloat x = .ok a) (h : g.snap = true ∨ x.isNaN = false) : a.isNaN = false := by
  unfold snapFloat at ha
  split_ifs at ha with hsnap
  · exact isNaN_of_nearestMultiple ha
  · obtain rfl := Except.ok.inj ha
    exact h.resolve_left hsnap

end GridSettings

end BehaviorTree
