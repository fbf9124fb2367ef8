import BehaviorTree.Table
import Mathlib.Data.List.Nodup

/-!
Tables whose keys differ. Looking up finds the only row of a key, erasing leaves out that row, and a table that keeps everything
under its own id is as good as the list of its values.
-/

set_option autoImplicit false

namespace BehaviorTree.Table

variable {α β : Type} {t u : Table α} {k j : String} {a b : α}

theorem mem_of_lookup (h : lookup t k = some a) : (k, a) ∈ t := by
  induction t with
  | nil => simp at h
  | cons r t ih =>
    obtain ⟨i, b⟩ := r
    rw [lookup] at h
    split_ifs at h with hi
    · simp_all
    · exact List.mem_cons_of_mem _ (ih h)

theorem lookup_isSome : (lookup t k).isSome ↔ k ∈ keys t := by
  induction t with
  | nil => simp [keys]
  | cons r t ih =>
    obtain ⟨i, b⟩ := r
    rw [lookup]
    split_ifs with hi
    · simp [keys, hi]
    · simpa [keys, hi, Ne.symm hi] using ih

theorem holds_iff : holds t k = true ↔ k ∈ keys t := lookup_isSome

theorem lookup_eq_none : lookup t k = none ↔ k ∉ keys t := by
  rw [← lookup_isSome]
  cases lookup t k <;> simp

theorem value_mem (h : lookup t k = some a) : a ∈ values t := List.mem_map_of_mem (mem_of_lookup h)

theorem lookup_of_mem (hn : (keys t).Nodup) (h : (k, a) ∈ t) : lookup t k = some a := by
  have hk : k ∈ keys t := List.mem_map_of_mem h
  obtain ⟨b, hb⟩ := Option.isSome_iff_exists.1 (lookup_isSome.2 hk)
  have hrow := List.inj_on_of_nodup_map hn (mem_of_lookup hb) h rfl
  rw [hb, (Prod.mk.inj hrow).2]

theorem lookup_map_key (f : String → α) (ks : List String) :
    lookup (ks.map fun k => (k, f k)) j = if j ∈ ks then some (f j) else none := by
  induction ks with
  | nil => simp
  | cons k ks ih =>
    rw [List.map_cons, lookup, ih]
    by_cases hk : k = j
    · simp [hk]
    · simp [hk, Ne.symm hk]

theorem lookup_filterMap_key (f : String → Option α) (ks : List String) :
    lookup (ks.filterMap fun k => (f k).map fun a => (k, a)) j = if j ∈ ks then f j else none := by
  induction ks with
  | nil => simp
  | cons k ks ih =>
    by_cases hk : k = j
    · subst hk
      cases hf : f k with
      | none => simp [hf, ih]
      | some a => simp [hf, lookup]
    · cases hf : f k with
      | none => simp [hf, ih, Ne.symm hk]
      | some a => simp [hf, ih, lookup, hk, Ne.symm hk]

theorem keys_filterMap_key (f : String → Option α) (ks : List String) :
    keys (ks.filterMap fun k => (f k).map fun a => (k, a)) = ks.filter fun k => (f k).isSome := by
  induction ks with
  | nil => rfl
  | cons k ks ih =>
    rw [keys] at ih
    cases hf : f k <;> simp [keys, hf, ih]

theorem lookup_append : lookup (t ++ u) k = (lookup t k).or (lookup u k) := by
  induction t with
  | nil => rfl
  | cons r t ih =>
    rw [List.cons_append, lookup, lookup, ih]
    split_ifs <;> rfl

theorem lookup_append_left (h : lookup t k = some a) : lookup (t ++ u) k = some a := by
  rw [lookup_append, h, Option.some_or]

theorem keys_map_key (f : String → α) (ks : List String) : keys (ks.map fun k => (k, f k)) = ks := by
  simp [keys, Function.comp_def]

theorem insert_fresh (h : k ∉ keys t) : insert t k a = t ++ [(k, a)] := by
  induction t with
  | nil => rfl
  | cons r t ih =>
    obtain ⟨i, b⟩ := r
    simp only [keys, List.map_cons, List.mem_cons, not_or] at h
    rw [insert, if_neg (Ne.symm h.1), ih h.2, List.cons_append]

theorem overlay_fresh (hn : (keys u).Nodup) (hd : ∀ k ∈ keys u, k ∉ keys t) : overlay t u = t ++ u := by
  induction u generalizing t with
  | nil => simp [overlay]
  | cons r u ih =>
    rw [keys, List.map_cons, List.nodup_cons] at hn
    rw [overlay, List.foldl_cons, ← overlay, insert_fresh (hd r.1 List.mem_cons_self), ih hn.2]
    · simp
    · intro k hk
      have hne : k ≠ r.1 := fun h => hn.1 (h ▸ hk)
      simpa [keys, hne] using hd k (List.mem_cons_of_mem _ hk)

theorem ofRows_of_nodup (hn : (keys u).Nodup) : ofRows u = u := by
  rw [ofRows, overlay_fresh hn (by simp [keys]), List.nil_append]

theorem insert_same (h : lookup t k = some a) : insert t k a = t := by
  induction t with
  | nil => simp at h
  | cons r t ih =>
    obtain ⟨i, b⟩ := r
    rw [lookup] at h
    rw [insert]
    split_ifs at h ⊢ with hi
    · rw [Option.some.inj h]
    · rw [ih h]

theorem mem_of_mem_insert {r : String × α} (h : r ∈ insert t k a) : r ∈ t ∨ r = (k, a) := by
  induction t with
  | nil => exact .inr (List.mem_singleton.1 h)
  | cons q t ih =>
    obtain ⟨i, b⟩ := q
    rw [insert] at h
    split_ifs at h with hi
    · rcases List.mem_cons.1 h with rfl | h
      · exact .inr (by rw [hi])
      · exact .inl (List.mem_cons_of_mem _ h)
    · rcases List.mem_cons.1 h with rfl | h
      · exact .inl List.mem_cons_self
      · exact (ih h).imp_left (List.mem_cons_of_mem _)

theorem nodup_keys_insert (h : (keys t).Nodup) : (keys (insert t k a)).Nodup := by
  rw [keys_insert]
  split_ifs with hthere
  · exact h
  · exact List.nodup_append_comm.2 (List.nodup_cons.2 ⟨hthere, h⟩)

theorem keys_prefix_insert (t : Table α) (k : String) (a : α) : keys t <+: keys (insert t k a) := by
  rw [keys_insert]
  split_ifs
  · exact List.prefix_rfl
  · exact List.prefix_append _ _

theorem keys_prefix_overlay (t u : Table α) : keys t <+: keys (overlay t u) := by
  induction u generalizing t with
  | nil => exact List.prefix_rfl
  | cons r u ih => exact (keys_prefix_insert t r.1 r.2).trans (ih _)

theorem lookup_overlay_of_notMem (h : k ∉ keys u) : lookup (overlay t u) k = lookup t k := by
  induction u generalizing t with
  | nil => rfl
  | cons r u ih =>
    simp only [keys, List.map_cons, List.mem_cons, not_or] at h
    rw [overlay, List.foldl_cons, ← overlay, ih h.2, lookup_insert, if_neg (Ne.symm h.1)]

theorem lookup_overlay (h : (keys u).Nodup) : lookup (overlay t u) k = (lookup u k).or (lookup t k) := by
  induction u generalizing t with
  | nil => rfl
  | cons r u ih =>
    rw [keys, List.map_cons, List.nodup_cons] at h
    rw [overlay, List.foldl_cons, ← overlay, ih h.2, lookup, lookup_insert]
    split_ifs with hk
    · rw [lookup_eq_none.2 (hk ▸ h.1)]
      rfl
    · rfl

theorem lookup_overlay_of_same (h : lookup t k = some a) (hu : ∀ r ∈ u, r.1 = k → r.2 = a) :
    lookup (overlay t u) k = some a := by
  induction u generalizing t with
  | nil => exact h
  | cons r u ih =>
    rw [overlay, List.foldl_cons, ← overlay]
    refine ih ?_ fun q hq => hu q (List.mem_cons_of_mem _ hq)
    rw [lookup_insert]
    split_ifs with hk
    · rw [hu r List.mem_cons_self hk]
    · exact h

theorem overlay_same (h : ∀ r ∈ u, lookup t r.1 = some r.2) : overlay t u = t := by
  induction u with
  | nil => rfl
  | cons r u ih =>
    rw [overlay, List.foldl_cons, insert_same (h r List.mem_cons_self), ← overlay]
    exact ih fun r hr => h r (List.mem_cons_of_mem _ hr)

def mapValues (f : α → β) (t : Table α) : Table β := t.map fun r => (r.1, f r.2)

variable {f : α → β}

theorem mapValues_cons {r : String × α} : mapValues f (r :: t) = (r.1, f r.2) :: mapValues f t := rfl

theorem keys_mapValues : keys (mapValues f t) = keys t := by simp [keys, mapValues, Function.comp_def]

theorem values_mapValues : values (mapValues f t) = (values t).map f := by simp [values, mapValues, Function.comp_def]

theorem lookup_mapValues : lookup (mapValues f t) k = (lookup t k).map f := by
  induction t with
  | nil => rfl
  | cons r t ih =>
    rw [mapValues_cons, lookup, lookup]
    split_ifs with hi
    · rfl
    · exact ih

theorem mapValues_mapValues {γ : Type} {g : β → γ} : mapValues g (mapValues f t) = mapValues (g ∘ f) t := by
  simp [mapValues, Function.comp_def]

theorem mapValues_insert : mapValues f (insert t k a) = insert (mapValues f t) k (f a) := by
  induction t with
  | nil => rfl
  | cons r t ih =>
    obtain ⟨i, b⟩ := r
    rw [mapValues_cons, insert, insert]
    split_ifs with hi
    · rfl
    · rw [mapValues_cons, ih]

theorem mapValues_overlay : mapValues f (overlay t u) = overlay (mapValues f t) (mapValues f u) := by
  induction u generalizing t with
  | nil => rfl
  | cons r u ih =>
    rw [overlay, List.foldl_cons, ← overlay, ih, mapValues_insert]
    rfl

theorem mapValues_erase : mapValues f (erase t k) = erase (mapValues f t) k := by
  induction t with
  | nil => rfl
  | cons r t ih =>
    obtain ⟨i, b⟩ := r
    rw [mapValues_cons, erase, erase]
    split_ifs with hi
    · rfl
    · rw [mapValues_cons, ih]

theorem erase_of_notMem (h : k ∉ keys t) : erase t k = t := by
  induction t with
  | nil => rfl
  | cons r t ih =>
    obtain ⟨i, b⟩ := r
    simp only [keys, List.map_cons, List.mem_cons, not_or] at h
    rw [erase, if_neg (Ne.symm h.1), ih h.2]

theorem keys_erase (t : Table α) (k : String) : keys (erase t k) = (keys t).erase k := by
  induction t with
  | nil => rfl
  | cons r t ih =>
    obtain ⟨i, b⟩ := r
    rw [erase]
    split_ifs with hi
    · simp [keys, hi]
    · simpa [keys, hi] using ih

theorem erase_eq_filter (hn : (keys t).Nodup) : erase t k = t.filter fun r => r.1 ≠ k := by
  induction t with
  | nil => rfl
  | cons r t ih =>
    obtain ⟨i, b⟩ := r
    rw [keys, List.map_cons, List.nodup_cons] at hn
    rw [erase]
    split_ifs with hi
    · have hrest : ∀ r ∈ t, r.1 ≠ k := fun r hr hk => hn.1 (List.mem_map.2 ⟨r, hr, hk.trans hi.symm⟩)
      rw [List.filter_cons_of_neg (by simp [hi]), List.filter_eq_self.2 (by simpa using hrest)]
    · rw [List.filter_cons_of_pos (by simp [hi]), ih hn.2]

/-- Do the keys differ, and is every one the id of its value? -/
structure IsKeyed (id : α → String) (t : Table α) : Prop where
  nodup : (keys t).Nodup
  own : ∀ r ∈ t, id r.2 = r.1

variable {id : α → String}

theorem IsKeyed.map_values (h : IsKeyed id t) : (values t).map id = keys t := by
  rw [values, keys, List.map_map]
  exact List.map_congr_left h.own

theorem IsKeyed.values_nodup (h : IsKeyed id t) : ((values t).map id).Nodup := h.map_values ▸ h.nodup

theorem IsKeyed.lookup_eq_some (h : IsKeyed id t) : lookup t k = some a ↔ a ∈ values t ∧ id a = k := by
  refine ⟨fun hl => ⟨value_mem hl, h.own _ (mem_of_lookup hl)⟩, fun ⟨hv, hk⟩ => lookup_of_mem h.nodup ?_⟩
  obtain ⟨⟨i, b⟩, hr, rfl⟩ := List.mem_map.1 hv
  have hi := h.own _ hr
  exact hk ▸ hi ▸ hr

theorem isKeyed_mapValues {key : β → String} : IsKeyed key (mapValues f t) ↔ IsKeyed (key ∘ f) t := by
  constructor
  · rintro ⟨hn, ho⟩
    exact ⟨keys_mapValues (f := f) ▸ hn, fun r hr => ho _ (List.mem_map_of_mem hr)⟩
  · rintro ⟨hn, ho⟩
    refine ⟨keys_mapValues (f := f) ▸ hn, fun r hr => ?_⟩
    obtain ⟨q, hq, rfl⟩ := List.mem_map.1 hr
    exact ho q hq

theorem IsKeyed.sublist (h : IsKeyed id t) (hs : u.Sublist t) : IsKeyed id u where
  nodup := h.nodup.sublist (hs.map _)
  own r hr := h.own r (hs.subset hr)

theorem isKeyed_nil : IsKeyed id ([] : Table α) := ⟨by simp [keys], by simp⟩

def under (id : α → String) (as : List α) : Table α := as.map fun a => (id a, a)

theorem keys_under (as : List α) : keys (under id as) = as.map id := by simp [keys, under, Function.comp_def]

theorem values_under (as : List α) : values (under id as) = as := by simp [values, under, Function.comp_def]

theorem IsKeyed.append_under {as : List α} (h : IsKeyed id t) (hn : (as.map id).Nodup) (hd : ∀ a ∈ as, id a ∉ keys t) :
    IsKeyed id (t ++ under id as) where
  nodup := by
    rw [keys, List.map_append, ← keys, ← keys, keys_under, List.nodup_append]
    refine ⟨h.nodup, hn, ?_⟩
    rintro _ hk _ ha rfl
    obtain ⟨a, hmem, rfl⟩ := List.mem_map.1 ha
    exact hd a hmem hk
  own r hr := by
    rcases List.mem_append.1 hr with hr | hr
    · exact h.own r hr
    · obtain ⟨a, _, rfl⟩ := List.mem_map.1 hr
      rfl

theorem IsKeyed.append_row (h : IsKeyed id t) (hk : id a ∉ keys t) : IsKeyed id (t ++ [(id a, a)]) := by
  have hnodup : ([a].map id).Nodup := by simp
  exact h.append_under hnodup (by simpa using hk)

theorem values_append : values (t ++ u) = values t ++ values u := List.map_append

theorem keys_append : keys (t ++ u) = keys t ++ keys u := List.map_append

theorem values_filter (p : α → Bool) : values (t.filter fun r => p r.2) = (values t).filter p := by
  rw [values, values, List.filter_map]
  rfl

end BehaviorTree.Table
