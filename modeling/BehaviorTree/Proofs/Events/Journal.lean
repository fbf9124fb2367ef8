import BehaviorTree.Events.Journal

/-!
What a journal holds. Its counts go up with each event that is recorded, and of the events it keeps the last ones, as many as it has
room for.
-/

set_option autoImplicit false

namespace BehaviorTree.Journal

theorem count_record (j : Journal) (e : Event) (topic : Topic) :
    (j.record e).count topic = j.count topic + if e.topic = topic then 1 else 0 := by
  obtain ⟨capacity, counts, recent⟩ := j
  simp only [record, count]
  induction counts with
  | nil => by_cases ht : e.topic = topic <;> simp [bump, ht]
  | cons r counts ih =>
    obtain ⟨t, n⟩ := r
    rw [bump]
    by_cases hsame : t = e.topic
    · rw [if_pos hsame, hsame]
      by_cases ht : e.topic = topic <;> simp [ht]
    · rw [if_neg hsame]
      by_cases ht : t = topic
      · have hother : e.topic ≠ topic := fun he => hsame (ht.trans he.symm)
        simp [ht, hother]
      · simpa [ht] using ih

theorem lastOf_append {α : Type} (capacity : Option Nat) (xs ys : List α) :
    lastOf capacity (lastOf capacity xs ++ ys) = lastOf capacity (xs ++ ys) := by
  cases capacity with
  | none => rfl
  | some n =>
    have hkept : xs.drop (xs.length - n) ++ ys = (xs ++ ys).drop (xs.length - n) :=
      (List.drop_append_of_le_length (Nat.sub_le _ _)).symm
    simp only [lastOf, hkept, List.drop_drop, List.length_drop, List.length_append]
    congr 1
    omega

theorem lastOf_suffix {α : Type} (capacity : Option Nat) (xs : List α) : lastOf capacity xs <:+ xs := by
  cases capacity with
  | none => exact List.suffix_refl xs
  | some n => exact List.drop_suffix _ xs

theorem length_lastOf {α : Type} (capacity : Option Nat) (xs : List α) :
    (lastOf capacity xs).length = capacity.elim xs.length fun n => min n xs.length := by
  cases capacity with
  | none => rfl
  | some n =>
    rw [lastOf, List.length_drop, Option.elim]
    omega

def recordAll (j : Journal) (es : List Event) : Journal := es.foldl record j

variable {j : Journal} {es kept : List Event}

theorem count_recordAll (j : Journal) (es : List Event) (topic : Topic) :
    (j.recordAll es).count topic = j.count topic + es.countP fun e => e.topic = topic := by
  induction es generalizing j with
  | nil => rfl
  | cons e r ih =>
    have hrest : (j.recordAll (e :: r)).count topic = ((j.record e).recordAll r).count topic := rfl
    rw [hrest, ih, count_record, List.countP_cons]
    simp only [decide_eq_true_eq]
    omega

theorem recent_recordAll (h : j.recent = lastOf j.capacity kept) : (j.recordAll es).recent = lastOf j.capacity (kept ++ es) := by
  induction es generalizing j kept with
  | nil => rw [List.append_nil, ← h, recordAll, List.foldl_nil]
  | cons e r ih =>
    have hone : (j.record e).recent = lastOf j.capacity (kept ++ [e]) := by
      rw [record, h, lastOf_append]
    rw [List.append_cons]
    exact ih hone

end BehaviorTree.Journal
