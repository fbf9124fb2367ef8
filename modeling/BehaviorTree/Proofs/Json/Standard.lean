import BehaviorTree.Proofs.Json.Scanning

/-!
What of JSON text is standard. The writer has words of its own for the floats that are no numbers. They stand in a line if and only if
there is such a float in the value, and texts never look like them.
-/

set_option autoImplicit false

namespace BehaviorTree.Json

inductive Place where
  | outside
  | inside
  | escaped

/-- The words `NaN` and `Infinity` have these letters, which nothing else has that stands outside of texts. -/
def isForeign (c : Char) : Bool := c = 'N' || c = 'I'

/-- Is there a word outside of the texts that JSON does not have? -/
def hasForeignWord : Place → List Char → Bool
  | _, [] => false
  | .outside, c :: r => if c = '"' then hasForeignWord .inside r else isForeign c || hasForeignWord .outside r
  | .inside, c :: r =>
    if c = '"' then hasForeignWord .outside r
    else if c = '\\' then hasForeignWord .escaped r
    else hasForeignWord .inside r
  | .escaped, _ :: r => hasForeignWord .inside r

def isStandard (cs : List Char) : Bool := !hasForeignWord .outside cs

variable {cs : List Char}

theorem adds_of_no_quote (h : '"' ∉ cs) : Adds (hasForeignWord .outside) cs (cs.any isForeign) := fun rest => by
  induction cs with
  | nil => rfl
  | cons c r ih =>
    obtain ⟨hc, hr⟩ := List.ne_and_not_mem_of_not_mem_cons h
    rw [List.cons_append, hasForeignWord, if_neg hc.symm, ih hr, List.any_cons, Bool.or_assoc]

theorem adds_of_isNumeric (h : Text.IsNumeric cs) : Adds (hasForeignWord .outside) cs false := by
  have hdigit : ∀ d ∈ ['"', 'N', 'I'], d.isDigit = false ∧ d ∉ ['-', '+', '.', 'e'] := by simp
  have hnone : ∀ d ∈ ['"', 'N', 'I'], d ∉ cs := fun d hd hmem => by
    obtain ⟨hnot, hmark⟩ := hdigit d hd
    rcases h d hmem with hyes | hmem
    · rw [hnot] at hyes
      cases hyes
    · exact hmark hmem
  have hany : cs.any isForeign = false := by
    rw [List.any_eq_false]
    intro c hc hforeign
    rw [isForeign, Bool.or_eq_true, decide_eq_true_eq, decide_eq_true_eq] at hforeign
    rcases hforeign with rfl | rfl
    · exact hnone _ (by decide) hc
    · exact hnone _ (by decide) hc
  exact hany ▸ adds_of_no_quote (hnone _ (by decide))

def StaysInside (cs : List Char) : Prop := ∀ rest, hasForeignWord .inside (cs ++ rest) = hasForeignWord .inside rest

theorem staysInside_of_plain (hquote : '"' ∉ cs) (hbackslash : '\\' ∉ cs) : StaysInside cs := fun rest => by
  induction cs with
  | nil => rfl
  | cons c r ih =>
    obtain ⟨hc, hr⟩ := List.ne_and_not_mem_of_not_mem_cons hquote
    obtain ⟨hc', hr'⟩ := List.ne_and_not_mem_of_not_mem_cons hbackslash
    rw [List.cons_append, hasForeignWord, if_neg hc.symm, if_neg hc'.symm, ih hr hr']

theorem staysInside_hexadecimal (width n : Nat) : StaysInside (Text.hexadecimal width n) := by
  have hdigits : ∀ m < 16, Text.hexDigit m ≠ '"' ∧ Text.hexDigit m ≠ '\\' := by decide
  have hmem : ∀ c ∈ Text.hexadecimal width n, c ≠ '"' ∧ c ≠ '\\' := List.forall_mem_map.2 fun i _ => hdigits _ (Nat.mod_lt _ (by decide))
  exact staysInside_of_plain (fun h => (hmem _ h).1 rfl) fun h => (hmem _ h).2 rfl

theorem staysInside_escapedChar (c : Char) : StaysInside (escapedChar c) := by
  unfold escapedChar
  split_ifs with hquote hbackslash
  · exact fun _ => rfl
  · exact fun _ => rfl
  · exact fun _ => rfl
  · exact fun _ => rfl
  · exact fun _ => rfl
  · exact fun _ => rfl
  · exact fun _ => rfl
  · exact staysInside_hexadecimal 4 c.toNat
  · exact staysInside_of_plain (by simpa using Ne.symm hquote) (by simpa using Ne.symm hbackslash)

theorem adds_textLiteral (s : String) : Adds (hasForeignWord .outside) (textLiteral s) false := fun rest => by
  have hescaped : ∀ cs : List Char, StaysInside (escaped cs) := fun cs => by
    induction cs with
    | nil => exact fun _ => rfl
    | cons c r ih =>
      intro rest
      rw [escaped, List.flatMap_cons, ← escaped, List.append_assoc, staysInside_escapedChar, ih]
  rw [textLiteral, List.cons_append, List.append_assoc, hasForeignWord, if_pos rfl, hescaped]
  rfl

theorem adds_floatLiteral (x : Float) : Adds (hasForeignWord .outside) (floatLiteral x) (x.isNaN || x.isInf) := by
  rcases Decimal.floatText_cases "NaN".toList "Infinity".toList x with ⟨hnan, heq⟩ | ⟨hnan, hinf, heq⟩ | ⟨hnan, hinf, hnumeric⟩
  · have hword : '"' ∉ "NaN".toList := by decide
    rw [hnan, floatLiteral, heq]
    exact adds_of_no_quote hword
  · have hword : '"' ∉ "Infinity".toList ∧ '"' ∉ '-' :: "Infinity".toList := by decide
    rw [hnan, hinf, floatLiteral, heq]
    split_ifs
    · exact adds_of_no_quote hword.2
    · exact adds_of_no_quote hword.1
  · rw [hnan, hinf]
    exact adds_of_isNumeric hnumeric

theorem isScan_hasForeignWord : IsScan (hasForeignWord .outside) Scalar.isNonFinite where
  nil := rfl
  mark := by
    have hplain : ∀ c ∈ ['[', ']', '{', '}', ',', ':', ' '], '"' ∉ [c] ∧ [c].any isForeign = false := by simp [isForeign]
    exact fun c hc => (hplain c hc).2 ▸ adds_of_no_quote (hplain c hc).1
  scalar v a h := by
    have hnull : '"' ∉ "null".toList := by decide
    have hbool : '"' ∉ "true".toList ∧ '"' ∉ "false".toList := by decide
    cases v with
    | null => cases h; exact adds_of_no_quote hnull
    | bool b =>
      cases h
      cases b with
      | true => exact adds_of_no_quote hbool.1
      | false => exact adds_of_no_quote hbool.2
    | int i => cases h; exact adds_of_isNumeric (Decimal.isNumeric_intText i)
    | float x => cases h; exact adds_floatLiteral x
    | text s => cases h; exact adds_textLiteral s
    | bytes bs => cases h; exact adds_textLiteral _
    | list vs => cases h
    | object ms => cases h

theorem isStandard_line (v : Value) : isStandard (line v) = !v.hasNonFinite := by
  rw [isStandard, isScan_hasForeignWord.scan_line, Value.someAtom_eq_anyScalar fun _ => rfl]
  rfl

end BehaviorTree.Json
