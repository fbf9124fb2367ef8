import BehaviorTree.Proofs.Text.Encoding

/-!
Texts with and without halves. A text is made of characters if and only if there is no half in it, and then of just one list of them; so
what is encoded is decoded as the same text.
-/

set_option autoImplicit false

namespace BehaviorTree.Text

variable {c : Char} {cs ds rest : List Char} {bytes : List Nat}

theorem toNat_lt (c : Char) : c.toNat < 0x110000 := by
  have hvalid : c.toNat < 0xD800 ∨ 0xDFFF < c.toNat ∧ c.toNat < 0x110000 := c.valid
  omega

theorem kept_of_lt (h : c.toNat < markCode) : kept c = [c] := if_pos h

theorem exists_kept_of_not_lt (h : ¬ c.toNat < markCode) :
    ∃ d, kept c = [mark, d] ∧ isSecond d = true ∧ Char.ofNat (d.toNat + shift) = c := by
  have hlt := toNat_lt c
  simp only [markCode, firstHalf] at h
  have hd : (Char.ofNat (c.toNat - shift)).toNat = c.toNat - shift := toNat_ofNat (by unfold shift; omega)
  have hsum : c.toNat - shift + shift = c.toNat := Nat.sub_add_cancel (by unfold shift; omega)
  refine ⟨Char.ofNat (c.toNat - shift), if_neg (by simpa [markCode, firstHalf] using h), ?_, ?_⟩
  · rw [isSecond, hd, hsum, markCode, firstHalf, Bool.and_eq_true, decide_eq_true_eq, decide_eq_true_eq]
    omega
  · rw [hd, hsum, Char.ofNat_toNat]

theorem toNat_mark : mark.toNat = markCode := by decide

theorem chars?_cons_of_lt (h : c.toNat < markCode) (rest : List Char) : chars? (c :: rest) = (chars? rest).map (c :: ·) := by
  rw [chars?.eq_def]
  exact if_pos h

theorem chars?_mark {d : Char} (h : isSecond d = true) (rest : List Char) :
    chars? (mark :: d :: rest) = (chars? rest).map (Char.ofNat (d.toNat + shift) :: ·) := by
  rw [chars?.eq_def]
  simp [toNat_mark, h]

theorem chars?_kept_append (c : Char) (rest : List Char) : chars? (kept c ++ rest) = (chars? rest).map (c :: ·) := by
  by_cases hc : c.toNat < markCode
  · rw [kept_of_lt hc, List.singleton_append, chars?_cons_of_lt hc]
  · obtain ⟨d, hkept, hsecond, hd⟩ := exists_kept_of_not_lt hc
    rw [hkept, List.cons_append, List.singleton_append, chars?_mark hsecond, hd]

theorem chars?_ofChars_append (cs rest : List Char) : chars? (ofChars cs ++ rest) = (chars? rest).map (cs ++ ·) := by
  induction cs with
  | nil => exact (Option.map_id' ..).symm
  | cons c r ih =>
    rw [ofChars, List.flatMap_cons, ← ofChars, List.append_assoc, chars?_kept_append, ih]
    cases chars? rest <;> rfl

theorem chars?_ofChars (cs : List Char) : chars? (ofChars cs) = some cs := by
  rw [← List.append_nil (ofChars cs), chars?_ofChars_append]
  exact congrArg some (List.append_nil cs)

theorem ofChars_ne_nil (h : cs ≠ []) : ofChars cs ≠ [] := fun hnil => by
  have hchars := chars?_ofChars cs
  rw [hnil] at hchars
  exact h (Option.some.inj hchars).symm

theorem kept_of_isSecond {d : Char} (h : isSecond d = true) : kept (Char.ofNat (d.toNat + shift)) = [mark, d] := by
  rw [isSecond, Bool.and_eq_true, decide_eq_true_eq, decide_eq_true_eq] at h
  have hd : (Char.ofNat (d.toNat + shift)).toNat = d.toNat + shift :=
    toNat_ofNat (.inr ⟨Nat.lt_of_lt_of_le (by decide) h.1, h.2⟩)
  rw [kept, hd, Nat.add_sub_cancel, Char.ofNat_toNat, if_neg (Nat.not_lt.2 h.1)]

theorem ofChars_of_chars? (h : chars? cs = some ds) : ofChars ds = cs := by
  induction cs using chars?.induct generalizing ds with
  | case1 =>
    obtain rfl := Option.some.inj h
    rfl
  | case2 c r hc ih =>
    rw [chars?_cons_of_lt hc] at h
    obtain ⟨es, hes, rfl⟩ := Option.map_eq_some_iff.1 h
    rw [ofChars, List.flatMap_cons, ← ofChars, ih hes, kept_of_lt hc, List.singleton_append]
  | case3 c hc d r hmark ih =>
    rw [Bool.and_eq_true, decide_eq_true_eq] at hmark
    obtain ⟨rfl, hsecond⟩ := hmark
    rw [chars?_mark hsecond] at h
    obtain ⟨es, hes, rfl⟩ := Option.map_eq_some_iff.1 h
    rw [ofChars, List.flatMap_cons, ← ofChars, ih hes, kept_of_isSecond hsecond]
    rfl
  | case4 c hc d r hmark =>
    rw [chars?.eq_def] at h
    simp [hc, hmark] at h
  | case5 c hc =>
    rw [chars?.eq_def] at h
    simp [hc] at h

theorem chars?_eq_some : chars? cs = some ds ↔ cs = ofChars ds :=
  ⟨fun h => (ofChars_of_chars? h).symm, fun h => h ▸ chars?_ofChars ds⟩

theorem utf8?_eq_some : utf8? cs = some bytes ↔ ∃ ds, cs = ofChars ds ∧ utf8 ds = bytes := by
  simp only [utf8?, Option.map_eq_some_iff, chars?_eq_some]

def IsPlain (cs : List Char) : Prop := ∀ c ∈ cs, c.toNat < markCode

instance (cs : List Char) : Decidable (IsPlain cs) := List.decidableBAll _ cs

theorem isPlain_cons : IsPlain (c :: cs) ↔ c.toNat < markCode ∧ IsPlain cs := List.forall_mem_cons

theorem isPlain_append : IsPlain (cs ++ ds) ↔ IsPlain cs ∧ IsPlain ds := List.forall_mem_append

theorem ofChars_of_isPlain (h : IsPlain cs) : ofChars cs = cs := by
  induction cs with
  | nil => rfl
  | cons c r ih =>
    obtain ⟨hc, hr⟩ := isPlain_cons.1 h
    rw [ofChars, List.flatMap_cons, ← ofChars, ih hr, kept_of_lt hc, List.singleton_append]

theorem utf8?_of_isPlain (h : IsPlain cs) : utf8? cs = some (utf8 cs) := utf8?_eq_some.2 ⟨cs, (ofChars_of_isPlain h).symm, rfl⟩

theorem chars?_isPlain_append (h : IsPlain cs) (rest : List Char) : chars? (cs ++ rest) = (chars? rest).map (cs ++ ·) := by
  rw [← ofChars_of_isPlain h, chars?_ofChars_append, ofChars_of_isPlain h]

/-- Is there a half of a character in a text, or what stands for no text? -/
def hasHalf (cs : List Char) : Bool := (chars? cs).isNone

theorem isSome_utf8? (cs : List Char) : (utf8? cs).isSome = !hasHalf cs := by
  rw [utf8?, Option.isSome_map, hasHalf, Option.not_isNone]

theorem hasHalf_mark {d : Char} (h : isSecond d = true) (rest : List Char) : hasHalf (mark :: d :: rest) = hasHalf rest := by
  rw [hasHalf, chars?_mark h, Option.isNone_map, ← hasHalf]

theorem hasHalf_of_not {d : Char} (hc : ¬ c.toNat < markCode) (hd : ¬ (c = mark ∧ isSecond d = true)) (rest : List Char) :
    hasHalf (c :: d :: rest) = true := by
  rw [hasHalf, chars?.eq_def]
  simp [hc, hd]

theorem hasHalf_isPlain_append (h : IsPlain cs) (rest : List Char) : hasHalf (cs ++ rest) = hasHalf rest := by
  rw [hasHalf, chars?_isPlain_append h, Option.isNone_map, ← hasHalf]

theorem hasHalf_of_isPlain (h : IsPlain cs) : hasHalf cs = false := by
  rw [← List.append_nil cs, hasHalf_isPlain_append h]
  rfl

end BehaviorTree.Text
