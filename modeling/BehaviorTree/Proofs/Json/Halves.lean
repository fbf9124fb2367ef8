import BehaviorTree.Proofs.Json.Scanning

/-!
Halves of characters in JSON text. The writer leaves them as they are, so that a line can be encoded if and only if there are none in the
texts of the value and the names of its members.
-/

set_option autoImplicit false

namespace BehaviorTree

def Scalar.hasHalf : Scalar → Bool
  | .text s => Text.hasHalf s.toList
  | _ => false

def Value.hasHalf (v : Value) : Bool := v.someAtom Scalar.hasHalf

namespace Json

open Text

variable {c d : Char} {cs : List Char}

theorem adds_of_isPlain (h : IsPlain cs) : Adds hasHalf cs false := hasHalf_isPlain_append h

theorem isPlain_escapedChar (h : c.toNat < markCode) : IsPlain (escapedChar c) := by
  unfold escapedChar
  split_ifs
  · decide
  · decide
  · decide
  · decide
  · decide
  · decide
  · decide
  · exact isPlain_cons.2 ⟨by decide, isPlain_cons.2 ⟨by decide, (isAscii_hexadecimal 4 _).isPlain⟩⟩
  · exact isPlain_cons.2 ⟨h, by decide⟩

theorem escapedChar_of_le (h : 0x7F ≤ c.toNat) : escapedChar c = [c] := by
  have hascii : ∀ d ∈ ['"', '\\', '\n', '\r', '\t'], d.toNat < 0x7F := by simp
  have hne : ∀ d ∈ ['"', '\\', '\n', '\r', '\t'], c ≠ d := fun d hd heq => by
    have hlt := hascii d hd
    rw [← heq] at hlt
    omega
  simp only [List.forall_mem_cons] at hne
  obtain ⟨hquote, hbackslash, hnewline, hreturn, htab, -⟩ := hne
  unfold escapedChar
  rw [if_neg hquote, if_neg hbackslash, if_neg hnewline, if_neg hreturn, if_neg htab, if_neg (by omega), if_neg (by omega),
    if_neg (by omega)]

theorem le_of_isSecond (h : isSecond d = true) : 0x7F ≤ d.toNat := by
  rw [isSecond, Bool.and_eq_true, decide_eq_true_eq] at h
  have hmark : markCode = 0x10F7FF := rfl
  have hshift : shift = 0x801 := rfl
  omega

theorem exists_escapedChar_eq_cons (d : Char) : ∃ e r, escapedChar d = e :: r ∧ (isSecond e = true → isSecond d = true) := by
  have hbackslash : isSecond '\\' = true → isSecond d = true := fun h => absurd h (by decide)
  unfold escapedChar
  split_ifs
  · exact ⟨_, _, rfl, hbackslash⟩
  · exact ⟨_, _, rfl, hbackslash⟩
  · exact ⟨_, _, rfl, hbackslash⟩
  · exact ⟨_, _, rfl, hbackslash⟩
  · exact ⟨_, _, rfl, hbackslash⟩
  · exact ⟨_, _, rfl, hbackslash⟩
  · exact ⟨_, _, rfl, hbackslash⟩
  · exact ⟨_, _, rfl, hbackslash⟩
  · exact ⟨_, _, rfl, id⟩

theorem hasHalf_escaped_append (cs rest : List Char) : hasHalf (escaped cs ++ '"' :: rest) = (hasHalf cs || hasHalf rest) := by
  have hcons (c : Char) (r : List Char) : escaped (c :: r) ++ '"' :: rest = escapedChar c ++ (escaped r ++ '"' :: rest) := by
    rw [escaped, List.flatMap_cons, ← escaped, List.append_assoc]
  have hquote : IsPlain ['"'] := by decide
  induction cs using chars?.induct with
  | case1 => exact hasHalf_isPlain_append hquote rest
  | case2 c r hc ih =>
    have hplain : IsPlain [c] := isPlain_cons.2 ⟨hc, by decide⟩
    rw [hcons, hasHalf_isPlain_append (isPlain_escapedChar hc), ih]
    exact congrArg (· || hasHalf rest) (hasHalf_isPlain_append hplain r).symm
  | case3 c hc d r hmark ih =>
    rw [Bool.and_eq_true, decide_eq_true_eq] at hmark
    obtain ⟨rfl, hsecond⟩ := hmark
    rw [hcons, hcons, escapedChar_of_le (by decide), escapedChar_of_le (le_of_isSecond hsecond)]
    change hasHalf (mark :: d :: (escaped r ++ '"' :: rest)) = _
    rw [hasHalf_mark hsecond, hasHalf_mark hsecond, ih]
  | case4 c hc d r hmark =>
    rw [Bool.and_eq_true, decide_eq_true_eq] at hmark
    obtain ⟨e, t, he, hsecond⟩ := exists_escapedChar_eq_cons d
    have hmark' : ¬ (c = mark ∧ isSecond e = true) := fun hboth => hmark (hboth.imp_right hsecond)
    have hle : 0x7F ≤ c.toNat := Nat.le_trans (by decide) (Nat.not_lt.1 hc)
    rw [hcons, hcons, escapedChar_of_le hle, he]
    exact (hasHalf_of_not hc hmark' _).trans (by rw [hasHalf_of_not hc hmark]; rfl)
  | case5 c hc =>
    have hle : 0x7F ≤ c.toNat := Nat.le_trans (by decide) (Nat.not_lt.1 hc)
    have hnone : hasHalf [c] = true := by
      rw [hasHalf, chars?.eq_def]
      simp [hc]
    have hsecond : ¬ (c = mark ∧ isSecond '"' = true) := fun hboth => absurd hboth.2 (by decide)
    rw [hcons, escapedChar_of_le hle, hnone]
    exact hasHalf_of_not hc hsecond rest

theorem adds_textLiteral_hasHalf (s : String) : Adds hasHalf (textLiteral s) (hasHalf s.toList) := fun rest => by
  have hquote : IsPlain ['"'] := by decide
  have happend : textLiteral s ++ rest = ['"'] ++ (escaped s.toList ++ '"' :: rest) := by simp [textLiteral]
  rw [happend, hasHalf_isPlain_append hquote, hasHalf_escaped_append]

theorem isScan_hasHalf : IsScan hasHalf Scalar.hasHalf where
  nil := rfl
  mark := by
    have hplain : IsPlain ['[', ']', '{', '}', ',', ':', ' '] := by decide
    exact fun c hc => adds_of_isPlain (List.forall_mem_singleton.2 (hplain c hc))
  scalar v a h := by
    have hnull : IsPlain "null".toList := by decide
    have hbool : ∀ b, IsPlain (line (.bool b)) := by decide
    cases v with
    | null => cases h; exact adds_of_isPlain hnull
    | bool b => cases h; exact adds_of_isPlain (hbool b)
    | int i => cases h; exact adds_of_isPlain (Decimal.isNumeric_intText i).isAscii.isPlain
    | float x => cases h; exact adds_of_isPlain (isAscii_floatLiteral x).isPlain
    | text s => cases h; exact adds_textLiteral_hasHalf s
    | bytes bs =>
      cases h
      have hadds := adds_textLiteral_hasHalf (quotedBytes bs)
      rwa [hasHalf_of_isPlain (isAscii_quotedBytes bs).isPlain] at hadds
    | list vs => cases h
    | object ms => cases h

theorem hasHalf_line (v : Value) : hasHalf (line v) = v.hasHalf := isScan_hasHalf.scan_line v

end Json

end BehaviorTree
