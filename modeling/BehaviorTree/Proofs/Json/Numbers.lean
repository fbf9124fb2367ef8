import BehaviorTree.Json.Reader
import BehaviorTree.Json.Writer
import BehaviorTree.Proofs.Text.Digits
import BehaviorTree.Proofs.Value.Shortest

/-!
Numbers in JSON text. An integer is read back from its digits. The text of a float is a numeral that stands for its shortest decimal,
so that the float that is read is the one that was written.
-/

set_option autoImplicit false

namespace BehaviorTree

namespace Json

open Decimal Text
open Float.Model (UnpackedFloat)

variable {α : Type} {whole fraction rest : List Char} {exponent : Option Int} {p : Nat}

def Reads (step : Step α) (a : α) (rest : List Char) : Prop := ∃ q, step = .ok (a, q, rest)

def EndsNumber (rest : List Char) : Prop := ∀ c ∈ rest.head?, c.isDigit = false ∧ c ≠ '.' ∧ c ≠ 'e' ∧ c ≠ 'E'

structure IsNumeral (whole fraction : List Char) : Prop where
  digits : ∀ c ∈ whole ++ fraction, c.isDigit
  nonempty : whole ≠ []
  leading : whole = ['0'] ∨ whole.head? ≠ some '0'

def pointPart (fraction : List Char) : List Char := if fraction.isEmpty then [] else '.' :: fraction

def exponentPart : Option Int → List Char
  | none => []
  | some e => exponentText e

theorem wholeDigits?_append (h : IsNumeral whole fraction) (hrest : ∀ c ∈ rest.head?, c.isDigit = false) :
    wholeDigits? (whole ++ rest) = some (digitsOf whole, rest) := by
  have hdigits : ∀ c ∈ whole, c.isDigit := fun c hc => h.digits c (List.mem_append_left _ hc)
  have hspan := spanDigits_append hdigits hrest
  obtain ⟨c, r, rfl⟩ := List.exists_cons_of_ne_nil h.nonempty
  rcases h.leading with hzero | hzero
  · rw [hzero]
    rfl
  · unfold wholeDigits?
    split
    · rename_i heq
      obtain ⟨rfl, -⟩ := List.cons.inj heq
      exact absurd rfl hzero
    · rw [hspan]
      rfl

theorem fraction?_eq_none (hrest : ∀ c ∈ rest.head?, c ≠ '.') : fraction? rest = none := by
  unfold fraction?
  split
  · exact absurd rfl (hrest _ rfl)
  · rfl

theorem exponent?_eq_none (hrest : ∀ c ∈ rest.head?, c ≠ 'e' ∧ c ≠ 'E') : exponent? rest = none := by
  cases rest with
  | nil => rfl
  | cons c r =>
    obtain ⟨he, hE⟩ := hrest c rfl
    simp [exponent?, he, hE]

theorem fraction?_pointPart (hdigits : ∀ c ∈ fraction, c.isDigit) (hrest : ∀ c ∈ rest.head?, c.isDigit = false ∧ c ≠ '.') :
    (fraction? (pointPart fraction ++ rest)).getD ([], pointPart fraction ++ rest) = (digitsOf fraction, rest) := by
  cases fraction with
  | nil =>
    change (fraction? rest).getD ([], rest) = ([], rest)
    rw [fraction?_eq_none fun c hc => (hrest c hc).2]
    rfl
  | cons c r =>
    have hspan := spanDigits_append hdigits fun c hc => (hrest c hc).1
    change (fraction? ('.' :: ((c :: r) ++ rest))).getD _ = _
    rw [fraction?, hspan]
    rfl

theorem exists_exponent_digits (e : Int) : ∃ ds : List Char, ds ≠ [] ∧ (∀ c ∈ ds, c.isDigit) ∧ digitsValue (digitsOf ds) = e.natAbs ∧
    exponentText e = 'e' :: (if e < 0 then '-' else '+') :: ds := by
  have hdigits : ∀ c ∈ natText e.natAbs, c.isDigit := fun c hc => isDigit_of_mem_natText hc
  by_cases hshort : e.natAbs < 10
  · refine ⟨'0' :: natText e.natAbs, List.cons_ne_nil _ _, List.forall_mem_cons.2 ⟨rfl, hdigits⟩, ?_, ?_⟩
    · exact digitsValue_natText e.natAbs
    · rw [exponentText, if_pos hshort]
  · exact ⟨natText e.natAbs, Nat.toDigits_ne_nil, hdigits, digitsValue_natText _, by rw [exponentText, if_neg hshort]⟩

theorem exponent?_exponentText (e : Int) (hrest : ∀ c ∈ rest.head?, c.isDigit = false) :
    exponent? (exponentText e ++ rest) = some (e, rest) := by
  obtain ⟨ds, hne, hds, hvalue, htext⟩ := exists_exponent_digits e
  have hspan := spanDigits_append hds hrest
  obtain ⟨d, r, hcons⟩ : ∃ d r, digitsOf ds = d :: r := List.exists_cons_of_ne_nil (by simpa [digitsOf] using hne)
  rw [htext]
  rcases lt_or_ge e 0 with he | he
  · have hsign : withSign true e.natAbs = e := by
      rw [withSign, if_pos rfl]
      omega
    rw [if_pos he]
    change exponent? ('e' :: '-' :: (ds ++ rest)) = _
    simp only [exponent?, spanSign, hspan, hcons]
    rw [← hcons, hvalue, hsign]
    rfl
  · have hsign : withSign false e.natAbs = e := by
      rw [withSign, if_neg Bool.false_ne_true]
      omega
    rw [if_neg he.not_gt]
    change exponent? ('e' :: '+' :: (ds ++ rest)) = _
    simp only [exponent?, spanSign, hspan, hcons]
    rw [← hcons, hvalue, hsign]
    rfl

theorem exponent?_exponentPart (hrest : EndsNumber rest) :
    (exponent? (exponentPart exponent ++ rest)).getD (0, exponentPart exponent ++ rest) = (exponent.getD 0, rest) := by
  cases exponent with
  | none =>
    change (exponent? rest).getD (0, rest) = (0, rest)
    rw [exponent?_eq_none fun c hc => (hrest c hc).2.2]
    rfl
  | some e =>
    rw [exponentPart, exponent?_exponentText e fun c hc => (hrest c hc).1]
    rfl

theorem head?_exponentPart (hrest : EndsNumber rest) :
    ∀ c ∈ (exponentPart exponent ++ rest).head?, c.isDigit = false ∧ c ≠ '.' := by
  cases exponent with
  | none => exact fun c hc => ⟨(hrest c hc).1, (hrest c hc).2.1⟩
  | some e =>
    rintro c ⟨⟩
    decide

theorem head?_pointPart (hrest : EndsNumber rest) :
    ∀ c ∈ (pointPart fraction ++ (exponentPart exponent ++ rest)).head?, c.isDigit = false := by
  cases fraction with
  | nil => exact fun c hc => (head?_exponentPart hrest c hc).1
  | cons d r =>
    rintro c ⟨⟩
    rfl

def signedText (negative : Bool) (cs : List Char) : List Char := if negative then '-' :: cs else cs

theorem signedText_append (negative : Bool) (cs ds : List Char) : signedText negative cs ++ ds = signedText negative (cs ++ ds) := by
  cases negative <;> rfl

theorem readNumber_signedText {body : List Char} (hbody : body.head? ≠ some '-') (negative : Bool) :
    readNumber p (signedText negative body) =
      match wholeDigits? body with
      | none => .error (.at .value p)
      | some (whole, r) =>
        let (fraction, afterFraction) := (fraction? r).getD ([], r)
        let (exponent, rest) := (exponent? afterFraction).getD (0, afterFraction)
        let after := p + ((signedText negative body).length - rest.length)
        if afterFraction.length = r.length && rest.length = r.length then
          if Decimal.digitLimit < whole.length then .error (.tooManyDigits whole.length)
          else .ok (.int (Decimal.withSign negative (Text.digitsValue whole)), after, rest)
        else .ok (.float (Decimal.Numeral.value negative ⟨whole, fraction, exponent⟩), after, rest) := by
  cases negative with
  | true => rfl
  | false =>
    change readNumber p body = _
    unfold readNumber
    split
    rename_i sign cs hsplit
    split at hsplit
    · exact absurd rfl hbody
    · obtain ⟨rfl, rfl⟩ := Prod.mk.inj hsplit
      rfl

theorem IsNumeral.head?_ne (h : IsNumeral whole fraction) (cs : List Char) : (whole ++ cs).head? ≠ some '-' := by
  obtain ⟨c, r, rfl⟩ := List.exists_cons_of_ne_nil h.nonempty
  rintro ⟨⟩
  exact absurd (h.digits '-' List.mem_cons_self) (by decide)

theorem reads_numeral (h : IsNumeral whole fraction) (hfloat : fraction ≠ [] ∨ exponent ≠ none) (hrest : EndsNumber rest)
    (negative : Bool) :
    Reads (readNumber p (signedText negative (whole ++ (pointPart fraction ++ (exponentPart exponent ++ rest)))))
      (.float (Numeral.value negative ⟨digitsOf whole, digitsOf fraction, exponent.getD 0⟩)) rest := by
  have hfraction : ∀ c ∈ fraction, c.isDigit := fun c hc => h.digits c (List.mem_append_right _ hc)
  rw [readNumber_signedText (h.head?_ne _), wholeDigits?_append h (head?_pointPart hrest)]
  dsimp only
  rw [fraction?_pointPart hfraction (head?_exponentPart hrest)]
  dsimp only
  rw [exponent?_exponentPart hrest]
  dsimp only
  rw [if_neg]
  · exact ⟨_, rfl⟩
  · -- an integer ends with the digits before the point
    rcases hfloat with hne | hne
    · obtain ⟨c, r, rfl⟩ := List.exists_cons_of_ne_nil hne
      simp [pointPart]
      omega
    · obtain ⟨e, rfl⟩ := Option.ne_none_iff_exists'.1 hne
      simp [exponentPart, exponentText]
      omega

theorem readPlain_signedText {c : Char} (hc : c.isDigit) (negative : Bool) (body : List Char) :
    readPlain p (signedText negative (c :: body)) = readNumber p (signedText negative (c :: body)) := by
  have hne : c ≠ 'n' ∧ c ≠ 't' ∧ c ≠ 'f' ∧ c ≠ 'N' ∧ c ≠ 'I' ∧ c ≠ '-' := by
    refine ⟨?_, ?_, ?_, ?_, ?_, ?_⟩ <;> (rintro rfl; revert hc; decide)
  obtain ⟨hn, ht, hf, hN, hI, hminus⟩ := hne
  have hnone : (words.findSome? fun w =>
      (afterWord? w.1 (signedText negative (c :: body))).map fun r => (w.2, p + w.1.length, r)) = none := by
    cases negative <;> simp [words, afterWord?, signedText, hn.symm, ht.symm, hf.symm, hN.symm, hI.symm, hminus.symm]
  rw [readPlain, hnone]

theorem isNumeral_natText (n : Nat) : IsNumeral (natText n) [] := by
  refine ⟨fun c hc => isDigit_of_mem_natText (by simpa using hc), Nat.toDigits_ne_nil, ?_⟩
  rcases eq_or_ne n 0 with rfl | hn
  · exact .inl rfl
  · exact .inr (head?_natText hn)

theorem intText_eq (i : Int) : intText i = signedText (i < 0) (natText i.natAbs) := by
  unfold intText signedText
  simp only [decide_eq_true_eq]

theorem reads_intText {i : Int} (hi : isTooLong i = false) (hrest : EndsNumber rest) :
    Reads (readPlain p (intText i ++ rest)) (.int i) rest := by
  have hlength : ¬ digitLimit < (digitsOf (natText i.natAbs)).length := by
    rw [digitsOf, List.length_map]
    exact of_decide_eq_false hi
  have hsign : withSign (i < 0) i.natAbs = i := by
    rw [withSign]
    simp only [decide_eq_true_eq]
    split_ifs <;> omega
  have hnumeral := isNumeral_natText i.natAbs
  obtain ⟨c, r, hcons⟩ := List.exists_cons_of_ne_nil hnumeral.nonempty
  have hc : c.isDigit := hnumeral.digits c (by simp [hcons])
  have hplain := readPlain_signedText (p := p) hc (i < 0) (r ++ rest)
  rw [← List.cons_append, ← hcons] at hplain
  rw [intText_eq, signedText_append, hplain, readNumber_signedText (hnumeral.head?_ne _),
    wholeDigits?_append hnumeral fun c hc => (hrest c hc).1]
  simp only [fraction?_eq_none fun c hc => (hrest c hc).2.1, exponent?_eq_none fun c hc => (hrest c hc).2.2, Option.getD_none]
  simp only [decide_true, Bool.and_self, if_true, if_neg hlength, digitsValue_natText, hsign]
  exact ⟨_, rfl⟩

/-- Is this the text of a numeral with a point or an exponent that stands for the decimal? -/
def IsWritten (d : Dec) (cs : List Char) : Prop :=
  ∃ whole fraction exponent, IsNumeral whole fraction ∧ (fraction ≠ [] ∨ exponent ≠ none) ∧
    cs = whole ++ (pointPart fraction ++ exponentPart exponent) ∧
    (Dec.mk (digitsValue (digitsOf whole ++ digitsOf fraction)) (exponent.getD 0 - (digitsOf fraction).length)).value = d.value

variable {d : Dec}

theorem digits_natText (n : Nat) : ∀ c ∈ natText n, c.isDigit := fun _ hc => isDigit_of_mem_natText hc

theorem digits_zeros (n : Nat) : ∀ c ∈ List.replicate n '0', c.isDigit := fun c hc => by
  rw [List.eq_of_mem_replicate hc]
  rfl

theorem head?_append_natText {n : Nat} (hn : n ≠ 0) (cs : List Char) : (natText n ++ cs).head? ≠ some '0' := by
  have hhead := head?_natText hn
  obtain ⟨c, r, hcons⟩ := List.exists_cons_of_ne_nil (Nat.toDigits_ne_nil (b := 10) (n := n))
  rw [natText, hcons] at hhead ⊢
  exact hhead

theorem isWritten_whole (hd : d.digits ≠ 0) (hexp : 0 ≤ d.exp) :
    IsWritten d (natText d.digits ++ List.replicate d.exp.toNat '0' ++ ['.', '0']) := by
  refine ⟨natText d.digits ++ List.replicate d.exp.toNat '0', ['0'], none, ⟨?_, ?_, .inr (head?_append_natText hd _)⟩, .inl (by simp),
    by simp [pointPart, exponentPart], ?_⟩
  · exact List.forall_mem_append.2 ⟨List.forall_mem_append.2 ⟨digits_natText _, digits_zeros _⟩, digits_zeros 1⟩
  · simp [natText, Nat.toDigits_ne_nil]
  · have hzero : digitsValue (digitsOf ['0']) = 0 := rfl
    rw [Dec.value_mk, digitsValue_append, digitsOf_append, digitsValue_append, digitsValue_natText, digitsValue_zeros, hzero, Dec.value]
    have hlength : (digitsOf (List.replicate d.exp.toNat '0')).length = d.exp.toNat := by simp [digitsOf]
    have hexp' : (10 : ℝ) ^ d.exp = 10 ^ d.exp.toNat := by
      rw [← zpow_natCast, Int.toNat_of_nonneg hexp]
    rw [hlength, hexp']
    push_cast
    simp [digitsOf]

theorem leading_eq (d : Dec) : d.leading = d.exp + (natText d.digits).length - 1 := rfl

theorem length_digitsOf (cs : List Char) : (digitsOf cs).length = cs.length := List.length_map _

theorem isWritten_point (hd : d.digits ≠ 0) (hexp : d.exp < 0) (hleading : 0 ≤ d.leading) :
    IsWritten d ((natText d.digits).take (d.leading.toNat + 1) ++ '.' :: (natText d.digits).drop (d.leading.toNat + 1)) := by
  have hplace : d.leading.toNat + 1 < (natText d.digits).length ∧ d.exp = d.leading.toNat + 1 - (natText d.digits).length := by
    have hlength := leading_eq d
    omega
  have hdigits := digits_natText d.digits
  have hhead := head?_natText hd
  have hvalue := digitsValue_natText d.digits
  generalize natText d.digits = ds at *
  generalize d.leading.toNat = n at *
  have hdrop : ds.drop (n + 1) ≠ [] := by simp [hplace.1]
  refine ⟨ds.take (n + 1), ds.drop (n + 1), none, ⟨?_, ?_, .inr ?_⟩, .inl hdrop, ?_, ?_⟩
  · rwa [List.take_append_drop]
  · simpa using List.ne_nil_of_length_pos (by omega)
  · rwa [List.head?_take, if_neg (by omega)]
  · simp [pointPart, exponentPart, hdrop]
  · rw [Dec.value_mk, ← digitsOf_append, List.take_append_drop, hvalue, length_digitsOf, List.length_drop, Dec.value, hplace.2]
    congr 2
    simp
    omega

theorem isWritten_small (hleading : d.leading < 0) :
    IsWritten d ('0' :: '.' :: (List.replicate (-d.leading - 1).toNat '0' ++ natText d.digits)) := by
  have hlength := leading_eq d
  refine ⟨['0'], List.replicate (-d.leading - 1).toNat '0' ++ natText d.digits, none, ⟨?_, by simp, .inl rfl⟩, .inl ?_, ?_, ?_⟩
  · exact List.forall_mem_append.2 ⟨digits_zeros 1, List.forall_mem_append.2 ⟨digits_zeros _, digits_natText _⟩⟩
  · simp [natText, Nat.toDigits_ne_nil]
  · simp [pointPart, exponentPart, natText, Nat.toDigits_ne_nil]
  · have hzero : digitsValue (digitsOf ['0']) = 0 := rfl
    rw [Dec.value_mk, digitsValue_append, hzero, digitsOf_append, digitsValue_append, digitsValue_zeros, digitsValue_natText, Dec.value,
      List.length_append, length_digitsOf, length_digitsOf, List.length_replicate, zero_mul, zero_mul, zero_add, zero_add]
    congr 2
    simp only [Option.getD_none]
    push_cast
    omega

theorem isWritten_exponent (hd : d.digits ≠ 0) : IsWritten d (match natText d.digits with
    | [a] => a :: exponentText d.leading
    | a :: r => a :: '.' :: (r ++ exponentText d.leading)
    | [] => exponentText d.leading) := by
  have hlength := leading_eq d
  have hdigits := digits_natText d.digits
  have hhead := head?_natText hd
  have hvalue := digitsValue_natText d.digits
  have hne : natText d.digits ≠ [] := Nat.toDigits_ne_nil
  generalize natText d.digits = ds at *
  match ds with
  | [] => exact absurd rfl hne
  | [a] =>
    refine ⟨[a], [], some d.leading, ⟨hdigits, hne, .inr hhead⟩, .inr (by simp), rfl, ?_⟩
    have hexp : d.leading = d.exp := by rw [hlength]; simp
    rw [Dec.value_mk, ← digitsOf_append, List.append_nil, hvalue, Dec.value, hexp]
    simp [digitsOf]
  | a :: b :: r =>
    refine ⟨[a], b :: r, some d.leading, ⟨hdigits, by simp, .inr hhead⟩, .inr (by simp), by simp [pointPart, exponentPart], ?_⟩
    rw [Dec.value_mk, ← digitsOf_append, List.singleton_append, hvalue, Dec.value, length_digitsOf, Option.getD_some, hlength]
    congr 2
    simp only [List.length_cons]
    push_cast
    omega

theorem isWritten_text (hd : d.digits ≠ 0) : IsWritten d d.text := by
  unfold Dec.text
  dsimp only
  split_ifs with hplain hexp hleading
  · exact isWritten_whole hd hexp
  · exact isWritten_point hd (not_le.1 hexp) hleading
  · exact isWritten_small (not_le.1 hleading)
  · exact isWritten_exponent hd

theorem reads_word {w : List Char × Value} (hw : w ∈ words) (rest : List Char) : Reads (readPlain p (w.1 ++ rest)) w.2 rest := by
  simp only [words, List.mem_cons, List.not_mem_nil, or_false] at hw
  rcases hw with rfl | rfl | rfl | rfl | rfl | rfl <;> exact ⟨_, rfl⟩

theorem isNearest_value
    (hvalue : (Dec.mk (digitsValue (digitsOf whole ++ digitsOf fraction)) (exponent.getD 0 - (digitsOf fraction).length)).value = d.value)
    (negative : Bool) :
    IsNearest (Numeral.value negative ⟨digitsOf whole, digitsOf fraction, exponent.getD 0⟩)
      (if negative then -d.value else d.value : ℝ) := by
  have hnearest := isNearest_nearest negative (digitsValue (digitsOf whole ++ digitsOf fraction))
    (exponent.getD 0 - (digitsOf fraction).length)
  rwa [← Dec.value_mk, hvalue] at hnearest

inductive IsFloatText (x : Float) : List Char → Prop where
  | word {w : List Char × Value} (hw : w ∈ words) (hx : w.2 = .float x) : IsFloatText x w.1
  | numeral {whole fraction : List Char} {exponent : Option Int} (negative : Bool) (h : IsNumeral whole fraction)
      (hfloat : fraction ≠ [] ∨ exponent ≠ none)
      (hx : Numeral.value negative ⟨digitsOf whole, digitsOf fraction, exponent.getD 0⟩ = x) :
      IsFloatText x (signedText negative (whole ++ (pointPart fraction ++ exponentPart exponent)))

variable {x : Float}

theorem isFloatText_infinity {s : UnpackedFloat.Sign} (hu : x.toModel.unpack = .infinity s) :
    IsFloatText x (if signBit x then '-' :: "Infinity".toList else "Infinity".toList) := by
  have hsign := signBit_iff x
  rw [floatSign_eq (.inl hu)] at hsign
  cases s with
  | negative =>
    have hx : -1.0 / 0.0 = x := unpack_injective (Eq.trans rfl hu.symm)
    rw [if_pos (hsign.2 rfl)]
    exact .word (w := ("-Infinity".toList, .float (-1.0 / 0.0))) (by simp [words]) (congrArg Value.float hx)
  | positive =>
    have hx : 1.0 / 0.0 = x := unpack_injective (Eq.trans rfl hu.symm)
    rw [if_neg (by simp [hsign])]
    exact .word (w := ("Infinity".toList, .float (1.0 / 0.0))) (by simp [words]) (congrArg Value.float hx)

theorem isFloatText_zero {s : UnpackedFloat.Sign} (hu : x.toModel.unpack = .zero s) :
    IsFloatText x (signedText (signBit x) ['0', '.', '0']) := by
  have hsign := signBit_iff x
  rw [floatSign_eq (.inr (.inl hu))] at hsign
  have hx : Numeral.value (signBit x) ⟨digitsOf ['0'], digitsOf ['0'], 0⟩ = x := by
    refine unpack_injective (Eq.trans ?_ hu.symm)
    cases s with
    | negative =>
      rw [hsign.2 rfl]
      rfl
    | positive =>
      have hplus : signBit x = false := Bool.eq_false_iff.2 (by simp [hsign])
      rw [hplus]
      rfl
  exact @IsFloatText.numeral _ _ _ none _ ⟨digits_zeros 2, by simp, .inl rfl⟩ (.inl (by simp)) hx

theorem isFloatText_finite {s : UnpackedFloat.Sign} {m : Nat} {e : Int} {hm : 0 < m} (hu : x.toModel.unpack = .finite s m e hm) :
    IsFloatText x (signedText (signBit x) (Binary.ofBits x.toBits).shortest.text) := by
  have hsign := signBit_iff x
  rw [floatSign_eq (.inr (.inr ⟨m, e, hm, hu⟩))] at hsign
  have hmantissa : 0 < (Binary.ofBits x.toBits).m := by rwa [(binary_of_finite hu).1]
  have hdigits : (Binary.ofBits x.toBits).shortest.digits ≠ 0 := by
    intro hzero
    have hshortest := Binary.roundReal_shortest (isFinite_ofBits x) hmantissa
    rw [Dec.value, hzero, Nat.cast_zero, zero_mul, roundReal_zero] at hshortest
    exact (magnitude_pos hmantissa _).ne hshortest
  obtain ⟨whole, fraction, exponent, hnumeral, hfloat, htext, hvalue⟩ := isWritten_text hdigits
  have hnearest := isNearest_value hvalue (signBit x)
  rw [htext]
  refine .numeral _ hnumeral hfloat (eq_of_isNearest_shortest hu ?_)
  cases s with
  | negative => rwa [if_pos (hsign.2 rfl)] at hnearest
  | positive => rwa [if_neg (by simp [hsign])] at hnearest

theorem isFloatText_floatLiteral (x : Float) : IsFloatText x (floatLiteral x) := by
  unfold floatLiteral Decimal.floatText
  dsimp only
  cases hu : x.toModel.unpack with
  | notANumber =>
    have hx : 0.0 / 0.0 = x := unpack_injective (Eq.trans rfl hu.symm)
    have hnan : x.isNaN = true := congrArg UnpackedFloat.isNaN hu
    rw [if_pos hnan]
    exact .word (w := ("NaN".toList, .float (0.0 / 0.0))) (by simp [words]) (congrArg Value.float hx)
  | infinity s =>
    have hnan : ¬ x.isNaN = true := Bool.eq_false_iff.1 (congrArg UnpackedFloat.isNaN hu)
    have hinf : x.isInf = true := congrArg UnpackedFloat.isInf hu
    rw [if_neg hnan, if_pos hinf]
    exact isFloatText_infinity hu
  | zero s =>
    have hnan : ¬ x.isNaN = true := Bool.eq_false_iff.1 (congrArg UnpackedFloat.isNaN hu)
    have hinf : ¬ x.isInf = true := Bool.eq_false_iff.1 (congrArg UnpackedFloat.isInf hu)
    rw [if_neg hnan, if_neg hinf, if_pos (binary_of_zero hu)]
    exact isFloatText_zero hu
  | finite s m e hm =>
    have hnan : ¬ x.isNaN = true := Bool.eq_false_iff.1 (congrArg UnpackedFloat.isNaN hu)
    have hinf : ¬ x.isInf = true := Bool.eq_false_iff.1 (congrArg UnpackedFloat.isInf hu)
    have hmantissa : (Binary.ofBits x.toBits).m ≠ 0 := by
      rw [(binary_of_finite hu).1]
      exact hm.ne'
    rw [if_neg hnan, if_neg hinf, if_neg hmantissa]
    exact isFloatText_finite hu

theorem reads_floatLiteral (x : Float) (hrest : EndsNumber rest) : Reads (readPlain p (floatLiteral x ++ rest)) (.float x) rest := by
  have htext := isFloatText_floatLiteral x
  generalize floatLiteral x = cs at htext
  cases htext with
  | word hw hx =>
    rw [← hx]
    exact reads_word hw rest
  | numeral negative h hfloat hx =>
    have hreads := reads_numeral (p := p) h hfloat hrest negative
    obtain ⟨c, r, rfl⟩ := List.exists_cons_of_ne_nil h.nonempty
    rw [List.cons_append, hx] at hreads
    rw [signedText_append, List.append_assoc, List.append_assoc, List.cons_append, readPlain_signedText (h.digits c List.mem_cons_self)]
    exact hreads

def StartsPlain (cs : List Char) : Prop := ∃ c r, cs = c :: r ∧ (c.isDigit ∨ c ∈ ['-', 'n', 't', 'f', 'N', 'I'])

theorem startsPlain_word {w : List Char × Value} (hw : w ∈ words) : StartsPlain w.1 := by
  simp only [words, List.mem_cons, List.not_mem_nil, or_false] at hw
  rcases hw with rfl | rfl | rfl | rfl | rfl | rfl <;> exact ⟨_, _, rfl, .inr (by decide)⟩

theorem startsPlain_signedText {cs : List Char} {c : Char} (hc : c.isDigit) (negative : Bool) :
    StartsPlain (signedText negative (c :: cs)) := by
  cases negative with
  | true => exact ⟨_, _, rfl, .inr (by decide)⟩
  | false => exact ⟨_, _, rfl, .inl hc⟩

theorem startsPlain_intText (i : Int) : StartsPlain (intText i) := by
  have hnumeral := isNumeral_natText i.natAbs
  obtain ⟨c, r, hcons⟩ := List.exists_cons_of_ne_nil hnumeral.nonempty
  rw [intText_eq, hcons]
  exact startsPlain_signedText (hnumeral.digits c (by simp [hcons])) _

theorem startsPlain_floatLiteral (x : Float) : StartsPlain (floatLiteral x) := by
  have htext := isFloatText_floatLiteral x
  generalize floatLiteral x = cs at htext
  cases htext with
  | word hw _ => exact startsPlain_word hw
  | numeral negative h _ _ =>
    obtain ⟨c, r, rfl⟩ := List.exists_cons_of_ne_nil h.nonempty
    exact startsPlain_signedText (h.digits c List.mem_cons_self) negative

end Json

end BehaviorTree
