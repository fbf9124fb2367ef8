import BehaviorTree.Decimal.Notation
import BehaviorTree.Decimal.Reading
import Mathlib.Data.List.Induction
import Mathlib.Tactic.Ring

/-!
Decimal digits. A number is read back from its digits, and they do not start with a zero unless the number is zero.
-/

set_option autoImplicit false

namespace BehaviorTree

namespace Text

variable {c : Char} {cs rest : List Char}

def digitsOf (cs : List Char) : List Nat := cs.map fun c => c.toNat - 48

theorem digitValue?_of_isDigit (h : c.isDigit) : digitValue? c = some (c.toNat - 48) := by
  have hrange : 48 ≤ c.toNat ∧ c.toNat ≤ 57 := by simpa [Char.isDigit, UInt32.le_iff_toNat_le] using h
  rw [digitValue?, digitZeros, List.find?_cons_of_pos (by simpa using hrange)]
  rfl

theorem mapM_digitValue? (h : ∀ c ∈ cs, c.isDigit) : cs.mapM digitValue? = some (digitsOf cs) := by
  induction cs with
  | nil => rfl
  | cons c r ih =>
    obtain ⟨hc, hr⟩ := List.forall_mem_cons.1 h
    rw [List.mapM_cons, digitValue?_of_isDigit hc, ih hr]
    rfl

theorem isDigit_of_mem_natText {n : Nat} (h : c ∈ Decimal.natText n) : c.isDigit :=
  Nat.isDigit_of_mem_toDigits (by decide) (by decide) h

theorem digitsValue_natText (n : Nat) : digitsValue (digitsOf (Decimal.natText n)) = n := by
  rw [digitsValue, digitsOf, List.foldl_map]
  exact Nat.ofDigitChars_ten_toDigits

theorem numeral?_natText (n : Nat) : numeral? (Decimal.natText n) = some n := by
  have hsome : numeral? (Decimal.natText n) = ((Decimal.natText n).mapM digitValue?).map digitsValue := by
    unfold numeral?
    split
    · rename_i hnil
      exact absurd hnil Nat.toDigits_ne_nil
    · rfl
  rw [hsome, mapM_digitValue? fun c hc => isDigit_of_mem_natText hc, Option.map_some, digitsValue_natText]

theorem digitsOf_append (cs ds : List Char) : digitsOf (cs ++ ds) = digitsOf cs ++ digitsOf ds := List.map_append

theorem digitsValue_concat (ds : List Nat) (d : Nat) : digitsValue (ds ++ [d]) = 10 * digitsValue ds + d := by
  rw [digitsValue, List.foldl_append]
  rfl

theorem digitsValue_append (ds es : List Nat) : digitsValue (ds ++ es) = digitsValue ds * 10 ^ es.length + digitsValue es := by
  induction es using List.reverseRecOn with
  | nil => simp [digitsValue]
  | append_singleton es e ih =>
    rw [← List.append_assoc, digitsValue_concat, digitsValue_concat, ih, List.length_append, List.length_singleton, pow_succ]
    ring

theorem digitsValue_zeros (n : Nat) : digitsValue (digitsOf (List.replicate n '0')) = 0 := by
  induction n with
  | zero => rfl
  | succ n ih => exact ih

theorem head?_natText {n : Nat} (hn : n ≠ 0) : (Decimal.natText n).head? ≠ some '0' := by
  induction n using Nat.strongRecOn with
  | ind n ih =>
    rw [Decimal.natText, Nat.toDigits_eq_if (by decide)]
    split_ifs with hsmall
    · have hdigits : ∀ m < 10, m ≠ 0 → [m.digitChar].head? ≠ some '0' := by decide
      exact hdigits n hsmall hn
    · rw [List.head?_append, Option.or_of_isSome (List.isSome_head? (l := Nat.toDigits 10 (n / 10)) |>.2 Nat.toDigits_ne_nil)]
      exact ih (n / 10) (by omega) (by omega)

end Text

namespace Decimal

open Text

variable {c : Char} {cs rest : List Char}

theorem asciiDigit?_of_isDigit (h : c.isDigit) : asciiDigit? c = some (c.toNat - 48) := if_pos h

theorem spanDigits_append (hcs : ∀ c ∈ cs, c.isDigit) (hrest : ∀ c ∈ rest.head?, c.isDigit = false) :
    spanDigits asciiDigit? (cs ++ rest) = (digitsOf cs, rest) := by
  induction cs with
  | nil =>
    cases rest with
    | nil => rfl
    | cons c r =>
      have hnone : asciiDigit? c = none := if_neg (by simp [hrest c rfl])
      rw [List.nil_append, spanDigits, hnone]
      rfl
  | cons c cs ih =>
    obtain ⟨hc, hcs⟩ := List.forall_mem_cons.1 hcs
    rw [List.cons_append, spanDigits, asciiDigit?_of_isDigit hc]
    simp only [ih hcs]
    rfl

end Decimal

end BehaviorTree
