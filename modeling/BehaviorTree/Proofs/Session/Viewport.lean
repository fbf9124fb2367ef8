import BehaviorTree.Proofs.Session.Configuration
import BehaviorTree.Proofs.Session.CustomTypes
import BehaviorTree.Proofs.Value.FloatArithmetic

/-!
The zoom. An update of the viewport sets one field after the other, and only then brings the scale between its limits. If one of them
cannot be set, those before it stay set all the same. So the scale stays within its limits exactly as long as no update that fails sets
one beyond them first; loading and resetting leave the viewport as it is.
-/

set_option autoImplicit false

namespace BehaviorTree

def ViewportConfig.Admits (c : ViewportConfig) (scale : Float) : Prop := c.minScale ≤ scale ∧ scale ≤ c.maxScale

instance (c : ViewportConfig) (scale : Float) : Decidable (c.Admits scale) := inferInstanceAs (Decidable (_ ∧ _))

theorem Viewport.clamp_within {v : Viewport} (h : v.minScale ≤ v.maxScale) (hs : v.scale.isNaN = false) :
    v.minScale ≤ v.clamp.scale ∧ v.clamp.scale ≤ v.maxScale := by
  obtain ⟨hmin, hmax⟩ := isNaN_of_le h
  unfold clamp
  dsimp only
  split_ifs with hlow hhigh hhigh
  · exact ⟨h, float_le_refl hmax⟩
  · exact ⟨float_le_refl hmin, h⟩
  · exact ⟨h, float_le_refl hmax⟩
  · exact ⟨float_le_of_not_lt hs hmin hlow, float_le_of_not_lt hmax hs hhigh⟩

theorem Viewport.isNaN_of_clamp {v : Viewport} (h : v.clamp.scale.isNaN = false) : v.scale.isNaN = false := by
  unfold clamp at h
  dsimp only at h
  split_ifs at h with hlow hhigh hhigh
  · exact (isNaN_of_le (float_le_of_lt hlow)).1
  · exact (isNaN_of_le (float_le_of_lt hlow)).1
  · exact (isNaN_of_le (float_le_of_lt hhigh)).2
  · exact h

namespace Session

variable {s : Session} {v w t : Viewport} {m : String × Value} {ms : Table Value} {c : Call} {x y : Float}

/-- Can a field of the viewport be set to the value? -/
def isSettable (m : String × Value) : Bool :=
  match setField {} m.1 0.0, m.2.toFloat with
  | some (.ok _), .ok _ => true
  | _, _ => false

/-- The viewport with one more field set, if that can be done. -/
def assign (v : Viewport) (m : String × Value) : Viewport :=
  match m.2.toFloat with
  | .error _ => v
  | .ok x =>
    match setField v m.1 x with
    | some (.ok w) => w
    | _ => v

def assignAll (v : Viewport) (ms : Table Value) : Viewport := ms.foldl assign v

theorem setField_alike (v w : Viewport) (name : String) (x y : Float) :
    (setField v name x).map (Except.map fun _ => ()) = (setField w name y).map (Except.map fun _ => ()) := by
  unfold setField
  simp only [apply_ite (Option.map (Except.map fun _ => ())), Option.map_some, Except.map]

theorem setField_ok {name : String} (h : setField w name y = some (.ok t)) (v : Viewport) (x : Float) :
    ∃ u, setField v name x = some (.ok u) := by
  have halike := setField_alike v w name x y
  rw [h] at halike
  cases hv : setField v name x with
  | none => simp [hv] at halike
  | some r =>
    cases r with
    | error f => simp [hv, Except.map] at halike
    | ok u => exact ⟨u, rfl⟩

theorem setField_none {name : String} (h : setField w name y = none) (v : Viewport) (x : Float) : setField v name x = none := by
  have halike := setField_alike v w name x y
  rw [h] at halike
  simpa using halike

theorem isSettable_iff : isSettable m = true ↔ ∃ x, m.2.toFloat = .ok x ∧ setField v m.1 x = some (.ok (assign v m)) := by
  unfold isSettable
  constructor
  · split
    · rename_i u x hu hx
      obtain ⟨w, hw⟩ := setField_ok hu v x
      have hassign : assign v m = w := by simp only [assign, hx, hw]
      exact fun _ => ⟨x, hx, hassign ▸ hw⟩
    · exact nofun
  · rintro ⟨x, hx, hset⟩
    obtain ⟨u, hu⟩ := setField_ok hset {} 0.0
    rw [hu, hx]

theorem setFields_cons (h : isSettable m = true) : setFields v (m :: ms) = setFields (assign v m) ms := by
  obtain ⟨x, hx, hset⟩ := (isSettable_iff (v := v)).1 h
  obtain ⟨u, hu⟩ := setField_ok hset v 0.0
  obtain ⟨name, value⟩ := m
  simp only [setFields, hu, hx, hset]

theorem setFields_stuck (h : isSettable m = false) : ∃ f, setFields v (m :: ms) = (.error f, v) := by
  obtain ⟨name, value⟩ := m
  unfold setFields
  split
  · exact ⟨_, rfl⟩
  · exact ⟨_, rfl⟩
  · rename_i r x hr hx
    split
    · exact ⟨_, rfl⟩
    · rename_i w hw
      have hset : isSettable (name, value) = true := (isSettable_iff (v := v)).2 ⟨x, hx, by simp only [assign, hx, hw]⟩
      exact absurd (h.symm.trans hset) nofun
    · rename_i hnone
      exact absurd (hr.symm.trans (setField_none hnone v 0.0)) nofun

theorem setFields_eq (v : Viewport) (ms : Table Value) : (setFields v ms).2 = assignAll v (ms.takeWhile isSettable) := by
  induction ms generalizing v with
  | nil => rfl
  | cons m r ih =>
    cases hm : isSettable m with
    | true =>
      rw [setFields_cons hm, List.takeWhile_cons_of_pos hm]
      exact ih (assign v m)
    | false =>
      have hstuck : ∃ f, setFields v (m :: r) = (.error f, v) := setFields_stuck hm
      obtain ⟨f, hf⟩ := hstuck
      rw [hf, List.takeWhile_cons_of_neg (by simp [hm])]
      rfl

/-- An update either fails, with some of the fields set, or ends with the scale brought between its limits. -/
theorem updateViewport_cases (s : Session) (ms : Table Value) :
    let v := assignAll s.viewport (ms.takeWhile isSettable)
    (∃ f, s.updateViewport ms = (.error f, { s with viewport := v })) ∨
      s.updateViewport ms = (.ok v.clamp, { s with viewport := v.clamp }) := by
  intro v
  have hset : (setFields s.viewport ms).2 = v := setFields_eq s.viewport ms
  unfold updateViewport
  split
  · rename_i f w hw
    rw [hw] at hset
    obtain rfl : w = v := hset
    exact .inl ⟨f, rfl⟩
  · rename_i w hw
    rw [hw] at hset
    obtain rfl : w = v := hset
    split_ifs
    · exact .inl ⟨_, rfl⟩
    · exact .inr rfl

theorem setField_scale {name : String} (h : name ≠ "scale") :
    (setField v name x).map (Except.map Viewport.scale) = (setField v name x).map (Except.map fun _ => v.scale) := by
  unfold setField
  simp only [if_neg h, apply_ite (Option.map (Except.map Viewport.scale)), apply_ite (Option.map (Except.map fun _ => v.scale)),
    Option.map_some, Option.map_none, Except.map]

theorem scale_assign (h : m.2.toFloat = .ok x) : (assign v m).scale = if m.1 = "scale" then x else v.scale := by
  simp only [assign, h]
  split_ifs with hname
  · rw [setField, if_pos hname]
  · have hscale := setField_scale (v := v) (x := x) hname
    split
    · rename_i w hw
      rw [hw] at hscale
      exact Except.ok.inj (Option.some.inj hscale)
    · rfl

theorem scale_assignAll (h : ∀ m ∈ ms, isSettable m = true) :
    (∃ value x, Table.lookup ms.reverse "scale" = some value ∧ value.toFloat = .ok x ∧ (assignAll v ms).scale = x) ∨
      Table.lookup ms.reverse "scale" = none ∧ (assignAll v ms).scale = v.scale := by
  induction ms using List.reverseRecOn with
  | nil => exact .inr ⟨rfl, rfl⟩
  | append_singleton r m ih =>
    obtain ⟨x, hx, _⟩ := (isSettable_iff (v := v)).1 (h m (by simp))
    have hlast : assignAll v (r ++ [m]) = assign (assignAll v r) m := List.foldl_concat ..
    rw [hlast, scale_assign hx, List.reverse_concat, Table.lookup]
    split_ifs with hm
    · exact .inl ⟨m.2, x, rfl, hx, rfl⟩
    · exact ih fun n hn => h n (List.mem_append_left _ hn)

/-- Does a new value leave the limits alone, and is it a number if it is a scale? -/
def SparesLimits (m : String × Value) : Prop :=
  ∀ x, m.2.toFloat = .ok x → m.1 ≠ "min_scale" ∧ m.1 ≠ "max_scale" ∧ (m.1 = "scale" → x.isNaN = false)

instance (m : String × Value) : Decidable (SparesLimits m) :=
  match h : m.2.toFloat with
  | .error _ => isTrue fun _ hx => nomatch h.symm.trans hx
  | .ok x => decidable_of_iff (m.1 ≠ "min_scale" ∧ m.1 ≠ "max_scale" ∧ (m.1 = "scale" → x.isNaN = false))
      ⟨fun hm _ hy => Except.ok.inj (h.symm.trans hy) ▸ hm, fun hm => hm x h⟩

structure HasLimits (c : ViewportConfig) (v : Viewport) : Prop where
  least : v.minScale = c.minScale
  greatest : v.maxScale = c.maxScale
  number : c.defaultScale.isNaN = false → v.scale.isNaN = false

variable {limits : ViewportConfig}

theorem HasLimits.assign (h : HasLimits limits v) (hm : SparesLimits m) : HasLimits limits (assign v m) := by
  unfold Session.assign
  split
  · exact h
  · rename_i x hx
    obtain ⟨hmin, hmax, hscale⟩ := hm x hx
    unfold setField
    rw [if_neg hmin, if_neg hmax]
    split_ifs with hname
    · exact ⟨h.least, h.greatest, fun _ => hscale hname⟩
    all_goals exact ⟨h.least, h.greatest, h.number⟩

theorem HasLimits.assignAll (h : HasLimits limits v) (hms : ∀ m ∈ ms, SparesLimits m) : HasLimits limits (assignAll v ms) := by
  induction ms generalizing v with
  | nil => exact h
  | cons m r ih => exact ih (h.assign (hms m List.mem_cons_self)) fun n hn => hms n (List.mem_cons_of_mem _ hn)

theorem HasLimits.clamp_within (h : HasLimits limits v) (hlimits : limits.minScale ≤ limits.maxScale)
    (hdefault : limits.defaultScale.isNaN = false) : limits.Admits v.clamp.scale := by
  have hle : v.minScale ≤ v.maxScale := h.least ▸ h.greatest ▸ hlimits
  rw [ViewportConfig.Admits, ← h.least, ← h.greatest]
  exact Viewport.clamp_within hle (h.number hdefault)

theorem HasLimits.clamp (h : HasLimits limits v) (hlimits : limits.minScale ≤ limits.maxScale) : HasLimits limits v.clamp :=
  ⟨h.least, h.greatest, fun hdefault => (isNaN_of_le (h.clamp_within hlimits hdefault).1).2⟩

/-- The new values for fields of the viewport that a call brings, if it is an update of the viewport. They are handed over by name,
so that the name of the session itself cannot be among them. -/
def Call.updates? : Call → Option (Table Value)
  | .request "update_viewport" [] => some []
  | .request "update_viewport" [.object ms] => if Table.holds ms "self" then none else some ms
  | _ => none

theorem request_updateViewport (s : Session) (arguments : List Value) :
    s.request "update_viewport" arguments =
      match (Call.request "update_viewport" arguments).updates? with
      | some ms => answered Viewport.toValue (s.updateViewport ms)
      | none => s.refused := by
  have hown : "update_viewport".startsWith storeMark = false := by decide +kernel
  have htakes (n : Nat) : Store.takes operations "update_viewport" n = decide (n ≤ 1) := by
    rw [Store.takes, show Table.lookup operations "update_viewport" = some (0, 1) by decide]
    simp
  rw [request, hown, htakes]
  rcases arguments with _ | ⟨a, _ | ⟨b, r⟩⟩
  · rfl
  · cases a with
    | object ms =>
      cases hself : Table.holds ms "self" with
      | true =>
        rw [Call.updates?, hself]
        exact if_pos hself
      | false =>
        rw [Call.updates?, hself]
        exact if_neg (ne_true_of_eq_false hself)
    | _ => rfl
  · simp [Call.updates?]

theorem after_update (h : c.updates? = some ms) : s.after c = (s.updateViewport ms).2 := by
  have hname : ∃ arguments, c = .request "update_viewport" arguments := by
    unfold Call.updates? at h
    split at h
    · exact ⟨_, rfl⟩
    · exact ⟨_, rfl⟩
    · cases h
  obtain ⟨arguments, rfl⟩ := hname
  rw [after, request_updateViewport, h]
  rfl

theorem viewport_apply (s : Session) (l : Loaded) : (s.apply l).2.viewport = s.viewport := by
  unfold apply
  split <;> rfl

theorem viewport_loadSource (s : Session) (source : Value) : (s.loadSource source).2.viewport = s.viewport := by
  rcases loadSource_cases s source with ⟨f, hload⟩ | ⟨l, t, _, _, happly, hload⟩
  · rw [hload]
  · rw [hload, ← viewport_apply s l, happly]

theorem viewport_after (h : c.updates? = none) : (s.after c).viewport = s.viewport := by
  cases c with
  | request name arguments =>
    cases hmark : name.startsWith storeMark with
    | true =>
      rw [after, request, hmark]
      rfl
    | false =>
      by_cases hname : name = "update_viewport"
      · subst hname
        rw [after, request_updateViewport, h]
        rfl
      · exact (keeps_act (act_request s arguments hmark)).viewport.resolve_right hname
  | loadSource source => exact viewport_loadSource s source
  | loadFile files path =>
    rw [after]
    rcases loadFile_cases s files path with ⟨f, hload⟩ | ⟨source, hload⟩
    · rw [hload]
    · rw [hload]
      exact viewport_loadSource s source
  | apply l => exact viewport_apply s l

theorem hasLimits_after (hs : HasLimits limits s.viewport) (hlimits : limits.minScale ≤ limits.maxScale)
    (hc : ∀ ms, c.updates? = some ms → ∀ m ∈ ms, SparesLimits m) : HasLimits limits (s.after c).viewport := by
  cases hu : c.updates? with
  | none => rwa [viewport_after hu]
  | some ms =>
    have hset : HasLimits limits (assignAll s.viewport (ms.takeWhile isSettable)) :=
      hs.assignAll fun m hm => hc ms hu m (List.takeWhile_subset _ hm)
    rw [after_update hu]
    rcases updateViewport_cases s ms with ⟨f, hf⟩ | hok
    · rw [hf]
      exact hset
    · rw [hok]
      exact hset.clamp hlimits

theorem hasLimits_afterAll {cs : List Call} (hs : HasLimits limits s.viewport) (hlimits : limits.minScale ≤ limits.maxScale)
    (hcs : ∀ c ∈ cs, ∀ ms, c.updates? = some ms → ∀ m ∈ ms, SparesLimits m) : HasLimits limits (s.afterAll cs).viewport := by
  induction cs generalizing s with
  | nil => exact hs
  | cons c r ih =>
    exact ih (hasLimits_after hs hlimits (hcs c List.mem_cons_self)) fun d hd => hcs d (List.mem_cons_of_mem _ hd)

theorem scale_within_after (hs : HasLimits limits s.viewport) (hlimits : limits.minScale ≤ limits.maxScale)
    (hdefault : limits.defaultScale.isNaN = false) (hscale : limits.Admits s.viewport.scale)
    (hc : ∀ ms, c.updates? = some ms → ∀ m ∈ ms, SparesLimits m)
    (hfailed : ∀ ms f value x, c.updates? = some ms → (s.updateViewport ms).1 = .error f →
      Table.lookup (ms.takeWhile isSettable).reverse "scale" = some value → value.toFloat = .ok x → limits.Admits x) :
    limits.Admits (s.after c).viewport.scale := by
  cases hu : c.updates? with
  | none => rwa [viewport_after hu]
  | some ms =>
    rw [after_update hu]
    rcases updateViewport_cases s ms with ⟨f, hf⟩ | hok
    · rw [hf]
      rcases scale_assignAll (v := s.viewport) fun m hm => List.mem_takeWhile_imp hm with ⟨value, x, hlast, hx, hset⟩ | ⟨_, hset⟩
      · rw [hset]
        exact hfailed ms f value x hu (congrArg Prod.fst hf) hlast hx
      · rwa [hset]
    · rw [hok]
      have hset : HasLimits limits (assignAll s.viewport (ms.takeWhile isSettable)) :=
        hs.assignAll fun m hm => hc ms hu m (List.takeWhile_subset _ hm)
      exact hset.clamp_within hlimits hdefault

theorem viewport_failed {f : Fault} (h : c.updates? = some ms) (hf : (s.updateViewport ms).1 = .error f) :
    (s.after c).viewport = assignAll s.viewport (ms.takeWhile isSettable) := by
  rw [after_update h]
  rcases updateViewport_cases s ms with ⟨g, hg⟩ | hok
  · rw [hg]
  · rw [hok] at hf
    cases hf

theorem hasLimits_unclamped (limits : ViewportConfig) :
    HasLimits limits { scale := limits.defaultScale, minScale := limits.minScale, maxScale := limits.maxScale } :=
  ⟨rfl, rfl, fun hdefault => hdefault⟩

theorem hasLimits_ofConfig (hlimits : limits.minScale ≤ limits.maxScale) : HasLimits limits (.ofConfig limits) :=
  (hasLimits_unclamped limits).clamp hlimits

theorem ofConfig_within_iff (hlimits : limits.minScale ≤ limits.maxScale) :
    limits.Admits (Viewport.ofConfig limits).scale ↔ limits.defaultScale.isNaN = false := by
  constructor
  · intro hscale
    have hnumber : (Viewport.ofConfig limits).scale.isNaN = false := (isNaN_of_le hscale.1).2
    have hunclamped := Viewport.isNaN_of_clamp hnumber
    exact hunclamped
  · exact (hasLimits_unclamped limits).clamp_within hlimits

/-- Whatever a session is asked for, loads, resets and requests to its store included, as long as nothing gives other limits or a
scale that is no number, the scale stays within the limits of the configuration exactly if the one that the session starts with is a
number, and every update of the viewport that fails sets such a scale, or none, before the field that cannot be set. What such an update
does to the viewport is to set the fields before that one, and nothing else changes the viewport but updates. -/
theorem zoom_stays_within_iff (config : EditorConfig) (catalog : Catalog) (cs : List Call)
    (hlimits : config.viewport.minScale ≤ config.viewport.maxScale)
    (hcs : ∀ c ∈ cs, ∀ ms, c.updates? = some ms → ∀ m ∈ ms, SparesLimits m) :
    let after (p : List Call) : Session := (start config catalog).afterAll p
    ((∀ p, p <+: cs → config.viewport.Admits (after p).viewport.scale) ↔
        config.viewport.defaultScale.isNaN = false ∧
          ∀ p c ms f value x, p ++ [c] <+: cs → c.updates? = some ms → ((after p).updateViewport ms).1 = .error f →
            Table.lookup (ms.takeWhile isSettable).reverse "scale" = some value → value.toFloat = .ok x →
              config.viewport.Admits x) ∧
      (∀ p, p <+: cs → (after p).viewport.minScale = config.viewport.minScale ∧
        (after p).viewport.maxScale = config.viewport.maxScale) ∧
        (∀ p c ms f, p ++ [c] <+: cs → c.updates? = some ms → ((after p).updateViewport ms).1 = .error f →
          (after (p ++ [c])).viewport = assignAll (after p).viewport (ms.takeWhile isSettable)) ∧
          ∀ p c, p ++ [c] <+: cs → c.updates? = none → (after (p ++ [c])).viewport = (after p).viewport := by
  intro after
  have hstart : config.viewport.Admits (start config catalog).viewport.scale ↔ config.viewport.defaultScale.isNaN = false :=
    ofConfig_within_iff hlimits
  have hafter (p : List Call) (hp : p <+: cs) : HasLimits config.viewport (after p).viewport :=
    hasLimits_afterAll (hasLimits_ofConfig hlimits) hlimits fun c hc => hcs c (hp.subset hc)
  have hnext (p : List Call) (c : Call) : after (p ++ [c]) = (after p).after c := afterAll_concat _ p c
  refine ⟨⟨fun hall => ⟨hstart.1 (hall [] List.nil_prefix), fun p c ms f value x hp hu hf hlast hx => ?_⟩,
      fun ⟨hdefault, hfailed⟩ p hp => ?_⟩,
    fun p hp => ⟨(hafter p hp).least, (hafter p hp).greatest⟩, fun p c ms f _ hu hf => ?_, fun p c _ hu => ?_⟩
  · have hwithin := hall (p ++ [c]) hp
    rw [hnext, viewport_failed hu hf] at hwithin
    rcases scale_assignAll (v := (after p).viewport) fun m hm => List.mem_takeWhile_imp hm with
      ⟨value', x', hlast', hx', hset⟩ | ⟨hnone, _⟩
    · obtain rfl := Option.some.inj (hlast.symm.trans hlast')
      obtain rfl := Except.ok.inj (hx.symm.trans hx')
      rwa [hset] at hwithin
    · rw [hnone] at hlast
      cases hlast
  · induction p using List.reverseRecOn with
    | nil => exact hstart.2 hdefault
    | append_singleton p c ih =>
      have hbefore : p <+: cs := (List.prefix_append p _).trans hp
      rw [hnext]
      exact scale_within_after (hafter p hbefore) hlimits hdefault (ih hbefore) (hcs c (hp.subset (by simp))) fun ms f value x =>
        hfailed p c ms f value x hp
  · rw [hnext, viewport_failed hu hf]
  · rw [hnext, viewport_after hu]

/-- A scale beyond the limits; then two updates that fail, one after it has set a scale and one before. -/
def zoomingRun : List Call :=
  [.request "update_viewport" [.object [("scale", .float 50.0), ("offset_x", .float 3.0)]],
    .request "update_viewport" [.object [("scale", .float 2.0), ("zoom", .float 1.0)]],
    .request "update_viewport" [.object [("min_scale", .text "low"), ("scale", .float 50.0)]], .request "reset" []]

theorem zoomingRun_stays_within :
    (∀ c ∈ zoomingRun, ∀ ms, c.updates? = some ms → ∀ m ∈ ms, SparesLimits m) ∧
      (∀ p, p <+: zoomingRun → ViewportConfig.Admits {} ((start {} .standard).afterAll p).viewport.scale) ∧
        ((start {} .standard).afterAll zoomingRun).viewport.scale = 2.0 := by
  have hspares : ∀ c ∈ zoomingRun, ∀ ms, c.updates? = some ms → ∀ m ∈ ms, SparesLimits m := by
    intro c hc ms hu
    simp only [zoomingRun, List.mem_cons, List.not_mem_nil, or_false] at hc
    rcases hc with rfl | rfl | rfl | rfl
    · obtain rfl := Option.some.inj hu
      decide +kernel
    · obtain rfl := Option.some.inj hu
      decide +kernel
    · obtain rfl := Option.some.inj hu
      decide +kernel
    · cases hu
  have hzoom := (zoom_stays_within_iff {} .standard zoomingRun (by decide +kernel) hspares).1
  refine ⟨hspares, hzoom.2 ⟨by decide +kernel, fun p c ms f value x hp => ?_⟩, by decide +kernel⟩
  obtain ⟨i, hi, rfl, rfl⟩ := exists_of_concat_prefix hp
  match i, hi with
  | 0, _ =>
    intro hu hf
    obtain rfl := Option.some.inj hu
    have hok : ((start {} .standard).updateViewport [("scale", .float 50.0), ("offset_x", .float 3.0)]).1.isOk = true := by
      decide +kernel
    exact absurd (hok.symm.trans (congrArg Except.isOk hf)) nofun
  | 1, _ =>
    intro hu _ hlast hx
    obtain rfl := Option.some.inj hu
    obtain rfl := Option.some.inj hlast
    obtain rfl := Except.ok.inj hx
    decide +kernel
  | 2, _ =>
    intro hu _ hlast
    obtain rfl := Option.some.inj hu
    cases hlast
  | 3, _ => exact nofun

/-- The field that is not there is found out too late: the scale beyond the limits stays. -/
theorem unknown_field_leaves_scale :
    let s := (start {} .standard).after (.request "update_viewport" [.object [("scale", .float 50.0), ("zoom", .float 1.0)]])
    (s.updateViewport [("scale", .float 50.0), ("zoom", .float 1.0)]).1.isOk = false ∧ s.viewport.scale = 50.0 ∧
      ViewportConfig.Admits {} (start {} .standard).viewport.scale ∧ ¬ ViewportConfig.Admits {} s.viewport.scale := by
  decide +kernel

end Session

end BehaviorTree
