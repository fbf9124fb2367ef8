import BehaviorTree.Graph.IdSequence
import BehaviorTree.Proofs.Text.Digits

/-!
Ids still to be issued. The number of an issued id can be read back from it, so a sequence that is set above every number in use
issues none of the ids in use, whatever else stands among them.
-/

set_option autoImplicit false

namespace BehaviorTree

theorem Decimal.isTooLong_natCast_iff (n : Nat) : Decimal.isTooLong n = true ↔ 10 ^ Decimal.digitLimit ≤ n := by
  have hpos : 0 < Decimal.digitLimit := by decide
  rw [Decimal.isTooLong, Int.natAbs_natCast, decide_eq_true_eq, Decimal.natText, ← not_le, Nat.length_toDigits_le_iff (by decide) hpos,
    not_lt]

namespace IdSequence

variable {s t : IdSequence} {ids js : List String} {id : String} {n : Nat} {ns : List Nat}

theorem afterTag?_append (ts cs : List Char) : afterTag? ts (ts ++ cs) = some cs := by
  induction ts with
  | nil => rfl
  | cons t ts ih => rw [List.cons_append, afterTag?, if_pos rfl, ih]

theorem toList_render (s : IdSequence) (n : Nat) : (s.render n).toList = s.tag.toList ++ Decimal.natText n := by
  simp [render, Value.intText, Decimal.intText]

theorem suffix?_render (s : IdSequence) (n : Nat) :
    s.suffix? (s.render n) =
      if Decimal.digitLimit < (Decimal.natText n).length then .error (.tooManyDigits (Decimal.natText n).length)
      else .ok (some n) := by
  rw [suffix?, toList_render, afterTag?_append]
  simp only [Option.bind_some, Text.numeral?_natText, Option.map_some]

theorem render_natCast_injective (s : IdSequence) {m n : Nat} (h : s.render m = s.render n) : m = n := by
  have htexts : s.tag.toList ++ Decimal.natText m = s.tag.toList ++ Decimal.natText n := by
    rw [← toList_render, ← toList_render, h]
  have hread := congrArg Text.numeral? (List.append_cancel_left htexts)
  rw [Text.numeral?_natText, Text.numeral?_natText] at hread
  exact Option.some.inj hread

theorem render_injective (s : IdSequence) {a b : Int} (ha : 0 ≤ a) (hb : 0 ≤ b) (h : s.render a = s.render b) : a = b := by
  obtain ⟨m, rfl⟩ := Int.eq_ofNat_of_zero_le ha
  obtain ⟨n, rfl⟩ := Int.eq_ofNat_of_zero_le hb
  exact congrArg Int.ofNat (s.render_natCast_injective h)

theorem lt_above (h : n ∈ ns) : n < above ns := by
  induction ns with
  | nil => cases h
  | cons m r ih =>
    rw [above]
    rcases List.mem_cons.1 h with rfl | h
    · omega
    · have := ih h
      omega

theorem mem_suffixes (h : s.suffixes ids = .ok ns) (hid : id ∈ ids) :
    ∃ found, s.suffix? id = .ok found ∧ ∀ n, found = some n → n ∈ ns := by
  induction ids generalizing ns with
  | nil => cases hid
  | cons j r ih =>
    rw [suffixes] at h
    split at h
    · cases h
    · rename_i found hfound
      split at h
      · cases h
      · rename_i ms hms
        obtain rfl := Except.ok.inj h
        rcases List.mem_cons.1 hid with rfl | hid
        · exact ⟨found, hfound, by rintro n rfl; simp⟩
        · obtain ⟨found', hfound', hmem⟩ := ih hms hid
          exact ⟨found', hfound', fun n hn => List.mem_append_right _ (hmem n hn)⟩

/-- Can the number of an id be read, if it has one? -/
def Reads (s : IdSequence) (id : String) : Prop := ∃ found, s.suffix? id = .ok found

theorem reads_of_tag (h : s.tag = t.tag) (hid : s.Reads id) : t.Reads id := by
  unfold Reads suffix? at hid ⊢
  rwa [← h]

theorem reads_issue (hn : 0 ≤ s.next) (hw : s.isExhausted = false) : s.Reads s.issue.1 := by
  obtain ⟨n, hnext⟩ := Int.eq_ofNat_of_zero_le hn
  have hshort : ¬ Decimal.digitLimit < (Decimal.natText n).length := by
    simpa [isExhausted, Decimal.isTooLong, hnext] using hw
  have hread := s.suffix?_render n
  rw [if_neg hshort] at hread
  refine ⟨some n, ?_⟩
  rw [issue, hnext]
  exact hread

theorem exists_suffixes : (∃ ns, s.suffixes ids = .ok ns) ↔ ∀ id ∈ ids, s.Reads id := by
  refine ⟨fun ⟨ns, h⟩ id hid => (mem_suffixes h hid).imp fun _ h => h.1, fun h => ?_⟩
  induction ids with
  | nil => exact ⟨[], rfl⟩
  | cons id r ih =>
    obtain ⟨⟨found, hfound⟩, hr⟩ := List.forall_mem_cons.1 h
    obtain ⟨ns, hns⟩ := ih hr
    exact ⟨found.toList ++ ns, by rw [suffixes, hfound, hns]⟩

/-- Can the number of every id be read, and is the next number above it? -/
def IsAbove (s : IdSequence) (ids : List String) : Prop :=
  ∀ id ∈ ids, ∃ found, s.suffix? id = .ok found ∧ ∀ n, found = some n → (n : Int) < s.next

theorem isAbove_above (h : s.suffixes ids = .ok ns) : IsAbove { s with next := above ns } ids := fun _ hid => by
  obtain ⟨found, hfound, hmem⟩ := mem_suffixes h hid
  exact ⟨found, hfound, fun n hn => Int.ofNat_lt.2 (lt_above (hmem n hn))⟩

structure IsAheadOf (s : IdSequence) (ids : List String) : Prop where
  nonneg : 0 ≤ s.next
  unissued : ∀ k, s.next ≤ k → s.render k ∉ ids

theorem isAheadOf_nil (h : s.next = 0) : s.IsAheadOf [] := ⟨Int.le_of_eq h.symm, fun _ _ => List.not_mem_nil⟩

theorem IsAheadOf.issue_notMem (h : s.IsAheadOf ids) : s.issue.1 ∉ ids := h.unissued s.next (Int.le_refl _)

theorem IsAheadOf.mono (h : s.IsAheadOf ids) (hsub : js ⊆ ids) : s.IsAheadOf js :=
  ⟨h.nonneg, fun k hk hmem => h.unissued k hk (hsub hmem)⟩

theorem IsAheadOf.issue (h : s.IsAheadOf ids) : s.issue.2.IsAheadOf (ids ++ [s.issue.1]) where
  nonneg := Int.le_add_one h.nonneg
  unissued k hk hmem := by
    have hnext : s.next + 1 ≤ k := hk
    have hpos := h.nonneg
    rcases List.mem_append.1 hmem with hmem | hmem
    · exact h.unissued k (by omega) hmem
    · have hsame : s.render k = s.render s.next := List.mem_singleton.1 hmem
      have := s.render_injective (by omega) hpos hsame
      omega

theorem isAheadOf_above (h : s.suffixes ids = .ok ns) : IsAheadOf { s with next := above ns } ids where
  nonneg := Int.natCast_nonneg _
  unissued k hk hmem := by
    have hle : (above ns : Int) ≤ k := hk
    obtain ⟨n, rfl⟩ := Int.eq_ofNat_of_zero_le (Int.le_trans (Int.natCast_nonneg _) hle)
    obtain ⟨found, hfound, hbelow⟩ := mem_suffixes h hmem
    have hread := s.suffix?_render n
    split_ifs at hread with hlong
    · exact absurd (hfound.symm.trans hread) nofun
    · have hn : found = some n := Except.ok.inj (hfound.symm.trans hread)
      have := lt_above (hbelow n hn)
      omega

end IdSequence

end BehaviorTree
