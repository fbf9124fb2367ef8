import BehaviorTree.Proofs.Result
import BehaviorTree.Proofs.Text.Half
import BehaviorTree.Json.Writer

/-!
The characters of JSON text. Control characters are escaped inside texts and stand nowhere else, but for the line ends of a value
that is written on several lines.
-/

set_option autoImplicit false

namespace BehaviorTree

namespace Text

def IsInline (cs : List Char) : Prop := ∀ c ∈ cs, 0x20 ≤ c.toNat

def IsAscii (cs : List Char) : Prop := ∀ c ∈ cs, 0x20 ≤ c.toNat ∧ c.toNat < 0x7F

def IsNumeric (cs : List Char) : Prop := ∀ c ∈ cs, c.isDigit = true ∨ c ∈ ['-', '+', '.', 'e']

def IsClean (cs : List Char) : Prop := ∀ c ∈ cs, c = '\n' ∨ 0x20 ≤ c.toNat

instance (cs : List Char) : Decidable (IsInline cs) := List.decidableBAll _ cs

instance (cs : List Char) : Decidable (IsAscii cs) := List.decidableBAll _ cs

instance (cs : List Char) : Decidable (IsNumeric cs) := List.decidableBAll _ cs

instance (cs : List Char) : Decidable (IsClean cs) := List.decidableBAll _ cs

variable {c : Char} {cs ds : List Char}

theorem isInline_cons : IsInline (c :: cs) ↔ 0x20 ≤ c.toNat ∧ IsInline cs := List.forall_mem_cons

theorem isInline_append : IsInline (cs ++ ds) ↔ IsInline cs ∧ IsInline ds := List.forall_mem_append

theorem isInline_replicate {n : Nat} (h : 0x20 ≤ c.toNat) : IsInline (List.replicate n c) := fun _ hd =>
  List.eq_of_mem_replicate hd ▸ h

theorem isAscii_cons : IsAscii (c :: cs) ↔ (0x20 ≤ c.toNat ∧ c.toNat < 0x7F) ∧ IsAscii cs := List.forall_mem_cons

theorem isAscii_append : IsAscii (cs ++ ds) ↔ IsAscii cs ∧ IsAscii ds := List.forall_mem_append

theorem isAscii_hexadecimal (width n : Nat) : IsAscii (hexadecimal width n) := by
  have hdigits : ∀ m < 16, 0x20 ≤ (hexDigit m).toNat ∧ (hexDigit m).toNat < 0x7F := by decide
  exact List.forall_mem_map.2 fun i _ => hdigits _ (Nat.mod_lt _ (by decide))

theorem isNumeric_cons : IsNumeric (c :: cs) ↔ (c.isDigit = true ∨ c ∈ ['-', '+', '.', 'e']) ∧ IsNumeric cs := List.forall_mem_cons

theorem isNumeric_append : IsNumeric (cs ++ ds) ↔ IsNumeric cs ∧ IsNumeric ds := List.forall_mem_append

theorem IsNumeric.isAscii (h : IsNumeric cs) : IsAscii cs := fun c hc => by
  have hmarks : IsAscii ['-', '+', '.', 'e'] := by decide
  rcases h c hc with hdigit | hmem
  · simp only [Char.isDigit, Bool.and_eq_true, decide_eq_true_eq] at hdigit
    exact ⟨Nat.le_trans (by decide) hdigit.1, Nat.lt_of_le_of_lt hdigit.2 (by decide)⟩
  · exact hmarks c hmem

theorem IsAscii.isInline (h : IsAscii cs) : IsInline cs := fun c hc => (h c hc).1

theorem IsAscii.isPlain (h : IsAscii cs) : IsPlain cs := fun c hc => Nat.lt_trans (h c hc).2 (by decide)

theorem isAscii_quotedBytes (bs : List Nat) : IsAscii (quotedBytes bs).toList := by
  have hquote : ∀ cs, quoteOf cs ∈ ['"', '\''] := fun cs => by
    unfold quoteOf
    split_ifs <;> simp
  have hquotes : IsAscii ['"', '\''] := by decide
  have hbytes : ∀ q ∈ ['"', '\''], ∀ b < 0x80, IsAscii (quotedByte q b) :=
    List.forall_mem_cons.2 ⟨by decide, List.forall_mem_singleton.2 (by decide)⟩
  rw [quotedBytes, String.toList_ofList]
  obtain ⟨q, hq⟩ : ∃ q, q = quoteOf (bs.map Char.ofNat) := ⟨_, rfl⟩
  have hmem := hquote (bs.map Char.ofNat)
  rw [← hq] at hmem ⊢
  refine isAscii_cons.2 ⟨by decide, isAscii_cons.2 ⟨hquotes q hmem, isAscii_append.2 ⟨fun c hc => ?_, isAscii_cons.2 ⟨hquotes q hmem, by decide⟩⟩⟩⟩
  obtain ⟨b, -, hc⟩ := List.mem_flatMap.1 hc
  by_cases hb : b < 0x80
  · exact hbytes q hmem b hb c hc
  · rw [quotedByte, if_neg hb] at hc
    exact isAscii_cons.2 ⟨by decide, isAscii_cons.2 ⟨by decide, isAscii_hexadecimal 2 b⟩⟩ c hc

theorem IsInline.not_mem_newline (h : IsInline cs) : '\n' ∉ cs := fun hn => absurd (h _ hn) (by decide)

theorem IsInline.isClean (h : IsInline cs) : IsClean cs := fun c hc => .inr (h c hc)

theorem isClean_cons : IsClean (c :: cs) ↔ (c = '\n' ∨ 0x20 ≤ c.toNat) ∧ IsClean cs := List.forall_mem_cons

theorem isClean_append : IsClean (cs ++ ds) ↔ IsClean cs ∧ IsClean ds := List.forall_mem_append

theorem IsClean.not_mem_return (h : IsClean cs) : '\r' ∉ cs := fun hr => absurd (h _ hr) (by decide)

end Text

namespace Decimal

open Text

theorem isNumeric_natText (n : Nat) : IsNumeric (natText n) := fun _ hc =>
  .inl (Nat.isDigit_of_mem_toDigits (by decide) (by decide) hc)

theorem isNumeric_signed {cs : List Char} {negative : Prop} [Decidable negative] (h : IsNumeric cs) :
    IsNumeric (if negative then '-' :: cs else cs) := by
  split_ifs
  · exact isNumeric_cons.2 ⟨by decide, h⟩
  · exact h

theorem isNumeric_intText (i : Int) : IsNumeric (intText i) := isNumeric_signed (isNumeric_natText _)

theorem isNumeric_exponentText (e : Int) : IsNumeric (exponentText e) := by
  unfold exponentText
  refine isNumeric_cons.2 ⟨by decide, isNumeric_cons.2 ⟨?_, ?_⟩⟩
  · split_ifs <;> decide
  · split_ifs
    · exact isNumeric_cons.2 ⟨by decide, isNumeric_natText _⟩
    · exact isNumeric_natText _

theorem isNumeric_decText (d : Dec) : IsNumeric d.text := by
  have hdigits := isNumeric_natText d.digits
  have hzeros (n : Nat) : IsNumeric (List.replicate n '0') := fun _ hc => List.eq_of_mem_replicate hc ▸ .inl (by decide)
  unfold Dec.text
  dsimp only
  split_ifs
  · exact isNumeric_append.2 ⟨isNumeric_append.2 ⟨hdigits, hzeros _⟩, by decide⟩
  · exact isNumeric_append.2 ⟨fun c hc => hdigits c (List.mem_of_mem_take hc),
      isNumeric_cons.2 ⟨by decide, fun c hc => hdigits c (List.mem_of_mem_drop hc)⟩⟩
  · exact isNumeric_cons.2 ⟨by decide, isNumeric_cons.2 ⟨by decide, isNumeric_append.2 ⟨hzeros _, hdigits⟩⟩⟩
  · split
    · rename_i a ha
      rw [ha] at hdigits
      exact isNumeric_cons.2 ⟨(isNumeric_cons.1 hdigits).1, isNumeric_exponentText _⟩
    · rename_i a r _ ha
      rw [ha] at hdigits
      obtain ⟨hfirst, hrest⟩ := isNumeric_cons.1 hdigits
      exact isNumeric_cons.2 ⟨hfirst, isNumeric_cons.2 ⟨by decide, isNumeric_append.2 ⟨hrest, isNumeric_exponentText _⟩⟩⟩
    · exact isNumeric_exponentText _

theorem floatText_cases (nan infinity : List Char) (x : Float) :
    (x.isNaN = true ∧ floatText nan infinity x = nan) ∨
      (x.isNaN = false ∧ x.isInf = true ∧ floatText nan infinity x = if signBit x then '-' :: infinity else infinity) ∨
      (x.isNaN = false ∧ x.isInf = false ∧ IsNumeric (floatText nan infinity x)) := by
  unfold floatText
  cases x.isNaN with
  | true => exact .inl ⟨rfl, rfl⟩
  | false =>
    cases x.isInf with
    | true => exact .inr (.inl ⟨rfl, rfl, rfl⟩)
    | false =>
      refine .inr (.inr ⟨rfl, rfl, isNumeric_signed ?_⟩)
      split_ifs
      · decide
      · exact isNumeric_decText _

end Decimal

namespace Json

open Text

theorem isAscii_floatLiteral (x : Float) : IsAscii (floatLiteral x) := by
  rcases Decimal.floatText_cases "NaN".toList "Infinity".toList x with ⟨-, heq⟩ | ⟨-, -, heq⟩ | ⟨-, -, hnumeric⟩
  · rw [floatLiteral, heq]
    decide
  · rw [floatLiteral, heq]
    split_ifs <;> decide
  · exact hnumeric.isAscii

theorem isInline_escapedChar (c : Char) : IsInline (escapedChar c) := by
  unfold escapedChar
  split_ifs with _ _ _ _ _ _ _ hcontrol
  · decide
  · decide
  · decide
  · decide
  · decide
  · decide
  · decide
  · exact isInline_cons.2 ⟨by decide, isInline_cons.2 ⟨by decide, (isAscii_hexadecimal 4 _).isInline⟩⟩
  · exact isInline_cons.2 ⟨Nat.not_lt.1 hcontrol, by decide⟩

theorem isInline_textLiteral (s : String) : IsInline (textLiteral s) := by
  have hescaped : IsInline (escaped s.toList) := fun c hc => by
    obtain ⟨d, _, hd⟩ := List.mem_flatMap.1 hc
    exact isInline_escapedChar d c hd
  exact isInline_cons.2 ⟨by decide, isInline_append.2 ⟨hescaped, by decide⟩⟩

theorem isInline_boolLiteral (b : Bool) : IsInline (boolLiteral b) := by
  cases b <;> decide

theorem forall_mem_joined {P : Char → Prop} {separator : List Char} {parts : List (List Char)} (hs : ∀ c ∈ separator, P c)
    (h : ∀ p ∈ parts, ∀ c ∈ p, P c) : ∀ c ∈ joined separator parts, P c := by
  induction parts using joined.induct with
  | case1 => exact List.forall_mem_nil _
  | case2 p => exact h p List.mem_cons_self
  | case3 p r hr ih =>
    obtain ⟨hp, hrest⟩ := List.forall_mem_cons.1 h
    rw [joined]
    · exact List.forall_mem_append.2 ⟨List.forall_mem_append.2 ⟨hp, hs⟩, ih hrest⟩
    · exact hr

theorem isInline_separator : IsInline [',', ' '] := by decide

mutual

theorem isInline_line : (v : Value) → IsInline (line v)
  | .null => (by decide : IsInline "null".toList)
  | .bool b => isInline_boolLiteral b
  | .int i => (Decimal.isNumeric_intText i).isAscii.isInline
  | .float x => (isAscii_floatLiteral x).isInline
  | .text s => isInline_textLiteral s
  | .bytes _ => isInline_textLiteral _
  | .list vs => isInline_cons.2 ⟨by decide, isInline_append.2 ⟨forall_mem_joined isInline_separator (isInline_lineElements vs), by decide⟩⟩
  | .object ms => isInline_cons.2 ⟨by decide, isInline_append.2 ⟨forall_mem_joined isInline_separator (isInline_lineMembers ms), by decide⟩⟩

theorem isInline_lineElements : (vs : List Value) → ∀ p ∈ lineElements vs, IsInline p
  | [] => fun _ h => absurd h List.not_mem_nil
  | v :: r => List.forall_mem_cons.2 ⟨isInline_line v, isInline_lineElements r⟩

theorem isInline_lineMembers : (ms : List (String × Value)) → ∀ p ∈ lineMembers ms, IsInline p
  | [] => fun _ h => absurd h List.not_mem_nil
  | (k, v) :: r => List.forall_mem_cons.2
    ⟨isInline_append.2 ⟨isInline_textLiteral k, isInline_cons.2 ⟨by decide, isInline_cons.2 ⟨by decide, isInline_line v⟩⟩⟩,
      isInline_lineMembers r⟩

end

theorem isClean_newline (depth : Nat) : IsClean (newline depth) :=
  isClean_cons.2 ⟨by decide, (isInline_replicate (by decide)).isClean⟩

theorem isClean_block {first last : Char} {depth : Nat} {parts : List (List Char)} (hfirst : IsClean [first]) (hlast : IsClean [last])
    (h : ∀ p ∈ parts, IsClean p) : IsClean (block first last depth parts) := by
  have hseparator : IsClean (',' :: newline (depth + 1)) := isClean_cons.2 ⟨by decide, isClean_newline _⟩
  have hjoined : IsClean _ := forall_mem_joined hseparator h
  unfold block
  split_ifs
  · exact isClean_append.2 ⟨hfirst, hlast⟩
  · exact isClean_append.2 ⟨hfirst,
      isClean_append.2 ⟨isClean_append.2 ⟨isClean_append.2 ⟨isClean_newline _, hjoined⟩, isClean_newline _⟩, hlast⟩⟩

mutual

theorem isClean_indented (depth : Nat) : (v : Value) → IsClean (indented depth v)
  | .null => (by decide : IsClean "null".toList)
  | .bool b => (isInline_boolLiteral b).isClean
  | .int i => ((Decimal.isNumeric_intText i).isAscii.isInline).isClean
  | .float x => ((isAscii_floatLiteral x).isInline).isClean
  | .text s => (isInline_textLiteral s).isClean
  | .bytes _ => (isInline_textLiteral _).isClean
  | .list vs => isClean_block (by decide) (by decide) (isClean_indentedElements (depth + 1) vs)
  | .object ms => isClean_block (by decide) (by decide) (isClean_indentedMembers (depth + 1) ms)

theorem isClean_indentedElements (depth : Nat) : (vs : List Value) → ∀ p ∈ indentedElements depth vs, IsClean p
  | [] => fun _ h => absurd h List.not_mem_nil
  | v :: r => List.forall_mem_cons.2 ⟨isClean_indented depth v, isClean_indentedElements depth r⟩

theorem isClean_indentedMembers (depth : Nat) : (ms : List (String × Value)) → ∀ p ∈ indentedMembers depth ms, IsClean p
  | [] => fun _ h => absurd h List.not_mem_nil
  | (k, v) :: r => List.forall_mem_cons.2
    ⟨isClean_append.2 ⟨(isInline_textLiteral k).isClean, isClean_cons.2 ⟨by decide, isClean_cons.2 ⟨by decide, isClean_indented depth v⟩⟩⟩,
      isClean_indentedMembers depth r⟩

end

end Json

end BehaviorTree
