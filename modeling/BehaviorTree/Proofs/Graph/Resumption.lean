import BehaviorTree.Proofs.Graph.IdSequence
import Mathlib.Order.Bounds.Basic

/-!
A sequence that goes on from the ids in use. Its next number is the least above all of theirs, whatever their order and however often one
occurs, and then no call returns an id in use or one returned before.
-/

set_option autoImplicit false

namespace BehaviorTree

namespace IdSequence

variable {s : IdSequence} {ids js : List String} {id : String} {k n : Nat} {ns ms : List Nat} {ts cs ds : List Char}

/-- Is an id the tag followed by the digits of a number? -/
def HasNumber (s : IdSequence) (id : String) (n : Nat) : Prop := ∃ ds, id.toList = s.tag.toList ++ ds ∧ Text.numeral? ds = some n

/-- Are the digits of an id few enough to be converted? -/
def IsConvertible (s : IdSequence) (id : String) : Prop :=
  ∀ ds, id.toList = s.tag.toList ++ ds → (Text.numeral? ds).isSome → ds.length ≤ Decimal.digitLimit

/-- What so many calls return one after the other. A number that cannot be written is passed over. -/
def returned : Nat → IdSequence → List String
  | 0, _ => []
  | k + 1, s => (if s.isExhausted then [] else [s.issue.1]) ++ returned k s.issue.2

theorem afterTag?_eq_some : afterTag? ts cs = some ds ↔ cs = ts ++ ds := by
  induction ts generalizing cs with
  | nil => simp [afterTag?]
  | cons t ts ih =>
    cases cs with
    | nil => simp [afterTag?]
    | cons c cs =>
      rw [afterTag?, List.cons_append, List.cons.injEq]
      split_ifs with htag
      · rw [ih, eq_comm (a := c), and_iff_right htag]
      · have hne : c ≠ t := fun he => htag he.symm
        simp [hne]

theorem suffix?_cases (s : IdSequence) (id : String) :
    (s.suffix? id = .ok none ∧ ∀ n, ¬ s.HasNumber id n) ∨
      ∃ ds n, id.toList = s.tag.toList ++ ds ∧ Text.numeral? ds = some n ∧
        s.suffix? id = if Decimal.digitLimit < ds.length then .error (.tooManyDigits ds.length) else .ok (some n) := by
  unfold suffix?
  cases hafter : afterTag? s.tag.toList id.toList with
  | none =>
    refine .inl ⟨rfl, fun n ⟨ds, htext, _⟩ => ?_⟩
    rw [afterTag?_eq_some.2 htext] at hafter
    cases hafter
  | some ds =>
    have htext := afterTag?_eq_some.1 hafter
    cases hnumeral : Text.numeral? ds with
    | none =>
      refine .inl ⟨by simp [hnumeral], fun n ⟨es, htext', hn⟩ => ?_⟩
      rw [List.append_cancel_left (htext.symm.trans htext'), hn] at hnumeral
      cases hnumeral
    | some n => exact .inr ⟨ds, n, htext, hnumeral, by simp [hnumeral]⟩

theorem isConvertible_iff : s.IsConvertible id ↔ s.Reads id := by
  rcases s.suffix?_cases id with ⟨hread, hnone⟩ | ⟨ds, n, htext, hn, hread⟩
  · refine ⟨fun _ => ⟨none, hread⟩, fun _ ds htext hsome => ?_⟩
    obtain ⟨n, hn⟩ := Option.isSome_iff_exists.1 hsome
    exact absurd ⟨ds, htext, hn⟩ (hnone n)
  · rw [Reads, hread]
    split_ifs with hlong
    · refine ⟨fun h => absurd (h ds htext (hn ▸ rfl)) (Nat.not_le.2 hlong), nofun⟩
    · refine ⟨fun _ => ⟨some n, rfl⟩, fun _ es htext' _ => ?_⟩
      rw [← List.append_cancel_left (htext.symm.trans htext')]
      exact Nat.not_lt.1 hlong

theorem suffix?_eq_ok (h : s.IsConvertible id) : s.suffix? id = .ok (some n) ↔ s.HasNumber id n := by
  rcases s.suffix?_cases id with ⟨hread, hnone⟩ | ⟨ds, m, htext, hm, hread⟩
  · rw [hread]
    exact ⟨nofun, fun hn => absurd hn (hnone n)⟩
  · have hshort : ¬ Decimal.digitLimit < ds.length := Nat.not_lt.2 (h ds htext (hm ▸ rfl))
    rw [hread, if_neg hshort]
    refine ⟨fun heq => ⟨ds, htext, hm.trans (Except.ok.inj heq)⟩, fun ⟨es, htext', hn⟩ => ?_⟩
    rw [← List.append_cancel_left (htext.symm.trans htext'), hm] at hn
    rw [hn]

theorem exists_of_mem_suffixes (h : s.suffixes ids = .ok ns) (hn : n ∈ ns) : ∃ id ∈ ids, s.suffix? id = .ok (some n) := by
  induction ids generalizing ns with
  | nil =>
    obtain rfl := Except.ok.inj h
    cases hn
  | cons id r ih =>
    rw [suffixes] at h
    split at h
    · cases h
    · rename_i found hfound
      split at h
      · cases h
      · rename_i ms hms
        obtain rfl := Except.ok.inj h
        rcases List.mem_append.1 hn with hn | hn
        · exact ⟨id, List.mem_cons_self, (Option.mem_toList.1 hn) ▸ hfound⟩
        · obtain ⟨j, hj, hread⟩ := ih hms hn
          exact ⟨j, List.mem_cons_of_mem _ hj, hread⟩

theorem mem_suffixes_iff (h : ∀ id ∈ ids, s.IsConvertible id) (hns : s.suffixes ids = .ok ns) :
    n ∈ ns ↔ ∃ id ∈ ids, s.HasNumber id n := by
  refine ⟨fun hn => ?_, fun ⟨id, hid, hn⟩ => ?_⟩
  · obtain ⟨id, hid, hread⟩ := exists_of_mem_suffixes hns hn
    exact ⟨id, hid, (suffix?_eq_ok (h id hid)).1 hread⟩
  · obtain ⟨found, hfound, hmem⟩ := mem_suffixes hns hid
    have hread := (suffix?_eq_ok (h id hid)).2 hn
    exact hmem n (Except.ok.inj (hfound.symm.trans hread))

theorem above_le (h : ∀ n ∈ ns, n < k) : above ns ≤ k := by
  induction ns with
  | nil => exact Nat.zero_le k
  | cons n r ih =>
    obtain ⟨hn, hr⟩ := List.forall_mem_cons.1 h
    exact Nat.max_le.2 ⟨hn, ih hr⟩

theorem isLeast_above (ns : List Nat) : IsLeast {k | ∀ n ∈ ns, n < k} (above ns) := ⟨fun _ => lt_above, fun _ => above_le⟩

theorem above_congr (h : ∀ n, n ∈ ns ↔ n ∈ ms) : above ns = above ms := by
  have hsame : {k | ∀ n ∈ ns, n < k} = {k | ∀ n ∈ ms, n < k} := Set.ext fun k => forall_congr' fun n => by rw [h n]
  exact (isLeast_above ns).unique (hsame ▸ isLeast_above ms)

theorem isLeast_of_suffixes (h : ∀ id ∈ ids, s.IsConvertible id) (hns : s.suffixes ids = .ok ns) :
    IsLeast {k | ∀ id ∈ ids, ∀ n, s.HasNumber id n → n < k} (above ns) := by
  have hset : {k | ∀ id ∈ ids, ∀ n, s.HasNumber id n → n < k} = {k | ∀ n ∈ ns, n < k} := by
    ext k
    simp only [Set.mem_ofPred_eq, mem_suffixes_iff h hns]
    exact ⟨fun hk n ⟨id, hid, hn⟩ => hk id hid n hn, fun hk id hid n hn => hk n ⟨id, hid, hn⟩⟩
  exact hset ▸ isLeast_above ns

theorem resumeAfter_congr (h : ∀ id ∈ ids, s.IsConvertible id) (hjs : ∀ id, id ∈ js ↔ id ∈ ids) : s.resumeAfter js = s.resumeAfter ids := by
  have hconvertible : ∀ id ∈ js, s.IsConvertible id := fun id hid => h id ((hjs id).1 hid)
  obtain ⟨ns, hns⟩ := exists_suffixes.2 fun id hid => isConvertible_iff.1 (h id hid)
  obtain ⟨ms, hms⟩ := exists_suffixes.2 fun id hid => isConvertible_iff.1 (hconvertible id hid)
  have hsame : ∀ n, n ∈ ms ↔ n ∈ ns := fun n => by
    rw [mem_suffixes_iff hconvertible hms, mem_suffixes_iff h hns]
    exact exists_congr fun id => by rw [hjs id]
  rw [resumeAfter, resumeAfter, hms, hns, Except.map, Except.map, above_congr hsame]

theorem IsAheadOf.returned (h : s.IsAheadOf ids) (k : Nat) :
    (IdSequence.returned k s).Nodup ∧ ∀ id ∈ IdSequence.returned k s, id ∉ ids := by
  induction k generalizing s ids with
  | zero => exact ⟨List.nodup_nil, fun _ hid => absurd hid List.not_mem_nil⟩
  | succ k ih =>
    -- what the first call returns counts as in use for the others
    obtain ⟨hnodup, hnew⟩ := ih h.issue
    have hrest : ∀ id ∈ IdSequence.returned k s.issue.2, id ∉ ids ∧ id ≠ s.issue.1 := fun id hid => by
      simpa using hnew id hid
    rw [IdSequence.returned]
    split_ifs with hexhausted
    · exact ⟨hnodup, fun id hid => (hrest id hid).1⟩
    · rw [List.singleton_append]
      refine ⟨List.nodup_cons.2 ⟨fun hmem => (hrest _ hmem).2 rfl, hnodup⟩, List.forall_mem_cons.2 ⟨h.issue_notMem, ?_⟩⟩
      exact fun id hid => (hrest id hid).1

/-- The number of an id that was written is read back from it. If the ids in use have no more digits than can be converted, the sequence goes
on with the least number above all of theirs, zero if they have none, whatever their order and however often one occurs. However many ids are
then asked for, none of those returned is in use or was returned before. -/
theorem resumption_avoids_ids_in_use (s : IdSequence) (ids : List String) (h : ∀ id ∈ ids, s.IsConvertible id) :
    (∀ n : Nat, s.suffix? (s.render n) =
      if Decimal.isTooLong n then .error (.tooManyDigits (Decimal.natText n).length) else .ok (some n)) ∧
    (∀ id ∈ ids, ∀ n, s.suffix? id = .ok (some n) ↔ s.HasNumber id n) ∧
    ∃ m : Nat, s.resumeAfter ids = .ok { s with next := m } ∧
      IsLeast {k | ∀ id ∈ ids, ∀ n, s.HasNumber id n → n < k} m ∧
      ((∀ id ∈ ids, ∀ n, ¬ s.HasNumber id n) → m = 0) ∧
      (∀ js : List String, (∀ id, id ∈ js ↔ id ∈ ids) → s.resumeAfter js = s.resumeAfter ids) ∧
      ∀ k, (returned k { s with next := m }).Nodup ∧ ∀ id ∈ returned k { s with next := m }, id ∉ ids := by
  obtain ⟨ns, hns⟩ := exists_suffixes.2 fun id hid => isConvertible_iff.1 (h id hid)
  have hleast := isLeast_of_suffixes h hns
  refine ⟨fun n => ?_, fun id hid n => suffix?_eq_ok (h id hid), above ns, by rw [resumeAfter, hns]; rfl, hleast, fun hnone => ?_,
    fun js => resumeAfter_congr h, (isAheadOf_above hns).returned⟩
  · simpa [Decimal.isTooLong] using s.suffix?_render n
  · exact Nat.le_zero.1 (hleast.2 fun id hid n hn => absurd hn (hnone id hid n))

/-- The tag is taken literally, zeros in front and digits of other scripts count as digits, and what is no number of this tag is left out. -/
theorem resumption_after_mixed_ids :
    let s : IdSequence := ⟨"a.b+", 5⟩
    let ids := ["a.b+007", "axb+90", "a.b+", "a.b+٣", "a.b+7", "a.b+1x", "other"]
    (∀ id ∈ ids, s.IsConvertible id) ∧ s.resumeAfter ids = .ok ⟨"a.b+", 8⟩ ∧
      IsLeast {k | ∀ id ∈ ids, ∀ n, s.HasNumber id n → n < k} 8 ∧ s.suffix? (s.render 90) = .ok (some 90) ∧
        ∀ k, (returned k ⟨"a.b+", 8⟩).Nodup ∧ ∀ id ∈ returned k ⟨"a.b+", 8⟩, id ∉ ids := by
  intro s ids
  have hresumed : s.resumeAfter ids = .ok ⟨"a.b+", 8⟩ := by decide +kernel
  have hread : s.suffixes ids = .ok [7, 3, 7] := by decide +kernel
  have hconvertible : ∀ id ∈ ids, s.IsConvertible id := fun id hid => isConvertible_iff.2 (exists_suffixes.1 ⟨_, hread⟩ id hid)
  obtain ⟨hrender, -, m, hm, hleast, -, -, hlater⟩ := resumption_avoids_ids_in_use s ids hconvertible
  obtain rfl : m = 8 := by
    have hnext := congrArg IdSequence.next (Except.ok.inj (hm.symm.trans hresumed))
    exact Int.ofNat_inj.1 hnext
  have hshort : ¬ Decimal.isTooLong (90 : Nat) := by decide +kernel
  exact ⟨hconvertible, hresumed, hleast, (hrender 90).trans (if_neg hshort), hlater⟩

end IdSequence

end BehaviorTree
