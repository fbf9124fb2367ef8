import BehaviorTree.Proofs.Json.Numbers
import BehaviorTree.Proofs.Table

/-!
JSON text is read back: what is written on one line is read as the value that was written, whatever comes behind it, unless the value has
bytes in it, a member twice, or an integer with too many digits.
-/

set_option autoImplicit false

namespace BehaviorTree

namespace Value

mutual

/-- Is the value one of JSON, without bytes and with no member twice? -/
def isJson : Value → Bool
  | .bytes _ => false
  | .list vs => allJson vs
  | .object ms => decide (Table.keys ms).Nodup && membersJson ms
  | _ => true

def allJson : List Value → Bool
  | [] => true
  | v :: r => v.isJson && allJson r

def membersJson : List (String × Value) → Bool
  | [] => true
  | (_, v) :: r => v.isJson && membersJson r

end

end Value

namespace Json

variable {α : Type} {cs ds rest : List Char} {start p : Nat}

theorem Reads.prepend {step : Step (List Char)} (h : Reads step cs rest) (ds : List Char) : Reads (Step.prepend ds step) (ds ++ cs) rest := by
  obtain ⟨q, rfl⟩ := h
  exact ⟨q, rfl⟩

theorem readText_simple {c d : Char} (hc : simpleEscape? c = some d) (cs : List Char) :
    readText start p ('\\' :: c :: cs) = .prepend [d] (readText start (p + 2) cs) := by
  have hu : c ≠ 'u' := by
    rintro rfl
    cases hc
  rw [readText.eq_def]
  split <;> grind

theorem readText_unit {a b c d : Char} {n : Nat} (hn : hexUnit? a b c d = some n) (hhigh : Text.isHigh n = false) (hcs : cs ≠ []) :
    readText start p ('\\' :: 'u' :: a :: b :: c :: d :: cs) = .prepend (Text.ofCode n) (readText start (p + 6) cs) := by
  obtain ⟨last, r, rfl⟩ := List.exists_cons_of_ne_nil hcs
  rw [readText.eq_def]
  split <;> grind

theorem readText_plain {c : Char} (hquote : c ≠ '"') (hbackslash : c ≠ '\\') (hcontrol : ¬ c.toNat < 0x20) (cs : List Char) :
    readText start p (c :: cs) = .prepend [c] (readText start (p + 1) cs) := by
  rw [readText.eq_def]
  split <;> simp_all

theorem readText_control {c : Char} (hc : c.toNat < 0x20) (hcs : cs ≠ []) :
    readText start p ('\\' :: 'u' :: Text.hexadecimal 4 c.toNat ++ cs) = .prepend [c] (readText start (p + 6) cs) := by
  have hdigits : ∀ n < 0x20, ∃ a b d e, Text.hexadecimal 4 n = [a, b, d, e] ∧ hexUnit? a b d e = some n ∧ Text.isHigh n = false ∧
      Text.ofCode n = [Char.ofNat n] := by
    have hdecided : ∀ n < 0x20, hexUnit? ((Text.hexadecimal 4 n).getD 0 'x') ((Text.hexadecimal 4 n).getD 1 'x')
        ((Text.hexadecimal 4 n).getD 2 'x') ((Text.hexadecimal 4 n).getD 3 'x') = some n ∧ Text.isHigh n = false ∧
        Text.ofCode n = [Char.ofNat n] := by decide
    exact fun n hn => ⟨_, _, _, _, rfl, hdecided n hn⟩
  obtain ⟨a, b, d, e, hhex, hunit, hhigh, hchar⟩ := hdigits c.toNat hc
  rw [hhex, List.cons_append, List.cons_append]
  exact (readText_unit hunit hhigh hcs).trans (by rw [hchar, Char.ofNat_toNat])

theorem readText_escapedChar (c : Char) (start p : Nat) (hcs : cs ≠ []) :
    ∃ q, readText start p (escapedChar c ++ cs) = .prepend [c] (readText start q cs) := by
  have hsimple : ∀ {e d : Char}, simpleEscape? e = some d → c = d →
      ∃ q, readText start p (['\\', e] ++ cs) = .prepend [c] (readText start q cs) :=
    fun he hd => ⟨p + 2, by rw [hd]; exact readText_simple he cs⟩
  have hnumber : ∀ {n : Nat}, c.toNat = n → c = Char.ofNat n := fun h => by rw [← h, Char.ofNat_toNat]
  unfold escapedChar
  split_ifs with hquote hbackslash hnewline hreturn htab hback hfeed hcontrol
  · exact hsimple rfl hquote
  · exact hsimple rfl hbackslash
  · exact hsimple rfl hnewline
  · exact hsimple rfl hreturn
  · exact hsimple rfl htab
  · exact hsimple (e := 'b') rfl (hnumber hback)
  · exact hsimple (e := 'f') rfl (hnumber hfeed)
  · exact ⟨_, readText_control hcontrol hcs⟩
  · exact ⟨_, readText_plain hquote hbackslash hcontrol cs⟩

theorem reads_escaped (cs rest : List Char) (start p : Nat) : Reads (readText start p (escaped cs ++ '"' :: rest)) cs rest := by
  induction cs generalizing p with
  | nil => exact ⟨_, rfl⟩
  | cons c cs ih =>
    have hne : escaped cs ++ '"' :: rest ≠ [] := by simp
    obtain ⟨q, hq⟩ := readText_escapedChar c start p hne
    rw [escaped, List.flatMap_cons, ← escaped, List.append_assoc, hq]
    exact (ih q).prepend [c]

theorem skipSpace_of_not_space {c : Char} {r : List Char} (hc : isSpace c = false) : skipSpace p (c :: r) = (p, c :: r) := by
  rw [skipSpace, hc]
  rfl

def structural : List Char := [' ', '\t', '\n', '\r', '"', '{', '[', ']', '}', '\ufeff']

theorem StartsPlain.not_structural (h : StartsPlain cs) : ∃ c r, cs = c :: r ∧ c ∉ structural := by
  obtain ⟨c, r, rfl, hc⟩ := h
  have hnone : ∀ d ∈ structural, ¬ (d.isDigit = true ∨ d ∈ ['-', 'n', 't', 'f', 'N', 'I']) := by
    simp [structural]
  exact ⟨c, r, rfl, fun hmem => hnone c hmem hc⟩

theorem isSpace_of_not_structural {c : Char} (hc : c ∉ structural) : isSpace c = false := by
  simp only [structural, List.mem_cons, not_or] at hc
  simp [isSpace, hc]

theorem readValue_plain {fuel : Nat} (h : StartsPlain cs) (rest : List Char) :
    readValue (fuel + 1) p (cs ++ rest) = readPlain p (cs ++ rest) := by
  obtain ⟨c, r, rfl, hc⟩ := h.not_structural
  simp only [structural, List.mem_cons, not_or] at hc
  rw [List.cons_append, readValue.eq_def]
  split <;> simp_all

variable {fuel : Nat} {v : Value} {vs : List Value} {ms : List (String × Value)}

def StartsValue (cs : List Char) : Prop := ∃ c r, cs = c :: r ∧ isSpace c = false ∧ c ≠ ']' ∧ c ≠ '\ufeff'

theorem StartsPlain.startsValue (h : StartsPlain cs) : StartsValue cs := by
  obtain ⟨c, r, rfl, hc⟩ := h.not_structural
  refine ⟨c, r, rfl, isSpace_of_not_structural hc, ?_, ?_⟩ <;> (rintro rfl; exact hc (by simp [structural]))

theorem StartsValue.append (h : StartsValue cs) (ds : List Char) : StartsValue (cs ++ ds) := by
  obtain ⟨c, r, rfl, hc⟩ := h
  exact ⟨c, r ++ ds, rfl, hc⟩

theorem StartsValue.skipSpace_eq (h : StartsValue cs) (p : Nat) : skipSpace p cs = (p, cs) := by
  obtain ⟨c, r, rfl, hc, -⟩ := h
  exact skipSpace_of_not_space hc

theorem startsValue_line (v : Value) : StartsValue (line v) := by
  cases v with
  | null => exact (startsPlain_word (w := ("null".toList, .null)) (by simp [words])).startsValue
  | bool b =>
    cases b with
    | true => exact (startsPlain_word (w := ("true".toList, .bool true)) (by simp [words])).startsValue
    | false => exact (startsPlain_word (w := ("false".toList, .bool false)) (by simp [words])).startsValue
  | int i => exact (startsPlain_intText i).startsValue
  | float x => exact (startsPlain_floatLiteral x).startsValue
  | text s => exact ⟨_, _, rfl, by decide, by decide, by decide⟩
  | bytes bs => exact ⟨_, _, rfl, by decide, by decide, by decide⟩
  | list vs => exact ⟨_, _, rfl, by decide, by decide, by decide⟩
  | object ms => exact ⟨_, _, rfl, by decide, by decide, by decide⟩

theorem readValue_text (s : String) (rest : List Char) : Reads (readValue (fuel + 1) p (textLiteral s ++ rest)) (.text s) rest := by
  obtain ⟨q, hq⟩ := reads_escaped s.toList rest p (p + 1)
  have hliteral : textLiteral s ++ rest = '"' :: (escaped s.toList ++ '"' :: rest) := by simp [textLiteral]
  refine ⟨q, ?_⟩
  rw [hliteral, readValue, hq]
  dsimp only
  rw [String.ofList_toList]

theorem readValue_list (hcs : StartsValue cs) (h : Reads (readElements fuel (p + 1) cs) vs rest) :
    Reads (readValue (fuel + 1) p ('[' :: cs)) (.list vs) rest := by
  obtain ⟨q, hq⟩ := h
  have hskip := hcs.skipSpace_eq (p + 1)
  obtain ⟨c, r, rfl, -, hc, -⟩ := hcs
  refine ⟨q, ?_⟩
  rw [readValue, hskip]
  split
  · rename_i heq
    exact absurd (List.cons.inj (Prod.mk.inj heq).2).1 hc
  · rename_i heq
    obtain ⟨rfl, rfl⟩ := Prod.mk.inj heq
    rw [hq]

theorem readElements_last (h : Reads (readValue fuel p cs) v (']' :: rest)) : Reads (readElements (fuel + 1) p cs) [v] rest := by
  obtain ⟨q, hq⟩ := h
  rw [readElements, hq]
  exact ⟨_, rfl⟩

theorem readElements_cons (h : Reads (readValue fuel p cs) v (',' :: ' ' :: ds)) (hds : StartsValue ds)
    (hvs : ∀ q, Reads (readElements fuel q ds) vs rest) : Reads (readElements (fuel + 1) p cs) (v :: vs) rest := by
  obtain ⟨q, hq⟩ := h
  obtain ⟨q', hq'⟩ := hvs (q + 1 + 1)
  have hcomma : skipSpace q (',' :: ' ' :: ds) = (q, ',' :: ' ' :: ds) := rfl
  have hskip : skipSpace (q + 1) (' ' :: ds) = (q + 1 + 1, ds) := hds.skipSpace_eq _
  refine ⟨q', ?_⟩
  simp only [readElements, hq, hcomma, hskip, hq']

theorem readValue_object (hcs : cs.head? = some '"') (h : Reads (readMembers fuel (p + 1) cs) ms rest) :
    Reads (readValue (fuel + 1) p ('{' :: cs)) (.object (Table.ofRows ms)) rest := by
  obtain ⟨q, hq⟩ := h
  obtain ⟨r, rfl⟩ : ∃ r, cs = '"' :: r := by
    cases cs with
    | nil => cases hcs
    | cons c r => exact ⟨r, congrArg (· :: r) (Option.some.inj hcs)⟩
  have hskip : skipSpace (p + 1) ('"' :: r) = (p + 1, '"' :: r) := rfl
  refine ⟨q, ?_⟩
  rw [readValue, hskip]
  split
  · rename_i heq
    cases heq
  · rename_i heq
    obtain ⟨rfl, rfl⟩ := Prod.mk.inj heq
    rw [hq]

theorem readMembers_eq (k : String) (hcs : StartsValue cs) (h : ∀ q, Reads (readValue fuel q cs) v ds) :
    ∃ q, readMembers (fuel + 1) p (textLiteral k ++ ':' :: ' ' :: cs) =
      match skipSpace q ds with
      | (p, '}' :: r) => .ok ([(k, v)], p + 1, r)
      | (p, ',' :: r) =>
        let (p, r) := skipSpace (p + 1) r
        match readMembers fuel p r with
        | .ok (ms, p, r) => .ok ((k, v) :: ms, p, r)
        | .error f => .error f
      | (p, _) => .error (.at .comma p) := by
  obtain ⟨q, hq⟩ := reads_escaped k.toList (':' :: ' ' :: cs) p (p + 1)
  obtain ⟨q', hq'⟩ := h (q + 1 + 1)
  have hliteral : textLiteral k ++ ':' :: ' ' :: cs = '"' :: (escaped k.toList ++ '"' :: ':' :: ' ' :: cs) := by simp [textLiteral]
  have hcolon : skipSpace q (':' :: ' ' :: cs) = (q, ':' :: ' ' :: cs) := rfl
  have hskip : skipSpace (q + 1) (' ' :: cs) = (q + 1 + 1, cs) := hcs.skipSpace_eq _
  refine ⟨q', ?_⟩
  simp only [hliteral, readMembers, hq, hcolon, hskip, hq']
  rewrite [String.ofList_toList]
  rfl

theorem readMembers_last (k : String) (hcs : StartsValue cs) (h : ∀ q, Reads (readValue fuel q cs) v ('}' :: rest)) :
    Reads (readMembers (fuel + 1) p (textLiteral k ++ ':' :: ' ' :: cs)) [(k, v)] rest := by
  obtain ⟨q, hq⟩ := readMembers_eq (p := p) k hcs h
  have hbrace : skipSpace q ('}' :: rest) = (q, '}' :: rest) := rfl
  rw [hq, hbrace]
  exact ⟨_, rfl⟩

theorem readMembers_cons (k : String) (hcs : StartsValue cs) (h : ∀ q, Reads (readValue fuel q cs) v (',' :: ' ' :: ds))
    (hds : StartsValue ds) (hms : ∀ q, Reads (readMembers fuel q ds) ms rest) :
    Reads (readMembers (fuel + 1) p (textLiteral k ++ ':' :: ' ' :: cs)) ((k, v) :: ms) rest := by
  obtain ⟨q, hq⟩ := readMembers_eq (p := p) k hcs h
  obtain ⟨q', hq'⟩ := hms (q + 1 + 1)
  have hcomma : skipSpace q (',' :: ' ' :: ds) = (q, ',' :: ' ' :: ds) := rfl
  have hskip : skipSpace (q + 1) (' ' :: ds) = (q + 1 + 1, ds) := hds.skipSpace_eq _
  refine ⟨q', ?_⟩
  rw [hq, hcomma]
  simp only [hskip, hq']

theorem StartsValue.length_pos (h : StartsValue cs) : 0 < cs.length := by
  obtain ⟨c, r, rfl, -⟩ := h
  exact Nat.succ_pos _

theorem startsValue_joined {separator : List Char} (h : StartsValue cs) (r : List (List Char)) :
    StartsValue (joined separator (cs :: r)) := by
  cases r with
  | nil => exact h
  | cons ds r =>
    rw [joined, List.append_assoc]
    · exact h.append _
    · exact List.cons_ne_nil _ _

theorem startsValue_elements (v : Value) (r : List Value) : StartsValue (joined [',', ' '] (lineElements (v :: r))) :=
  startsValue_joined (startsValue_line v) _

theorem startsValue_textLiteral (s : String) : StartsValue (textLiteral s) := startsValue_line (.text s)

theorem startsValue_members (m : String × Value) (r : List (String × Value)) : StartsValue (joined [',', ' '] (lineMembers (m :: r))) :=
  startsValue_joined ((startsValue_textLiteral m.1).append _) _

theorem head?_members (m : String × Value) (r : List (String × Value)) (cs : List Char) :
    (joined [',', ' '] (lineMembers (m :: r)) ++ cs).head? = some '"' := by
  cases r <;> rfl

theorem endsNumber_cons {c : Char} {r : List Char} (hc : c ∈ [',', ']', '}']) : EndsNumber (c :: r) := by
  rintro d ⟨⟩
  simp only [List.mem_cons, List.not_mem_nil, or_false] at hc
  rcases hc with rfl | rfl | rfl <;> decide

mutual

theorem reads_line : (v : Value) → v.isJson = true → v.hasLongInteger = false → ∀ (fuel p : Nat) (rest : List Char),
    (line v).length ≤ fuel + 1 → EndsNumber rest → Reads (readValue (fuel + 1) p (line v ++ rest)) v rest
  | .null, _, _, fuel, p, rest, _, _ => by
    have hword : ("null".toList, Value.null) ∈ words := by simp [words]
    exact (readValue_plain (p := p) (startsPlain_word hword) rest) ▸ reads_word hword rest
  | .bool true, _, _, fuel, p, rest, _, _ => by
    have hword : ("true".toList, Value.bool true) ∈ words := by simp [words]
    exact (readValue_plain (p := p) (startsPlain_word hword) rest) ▸ reads_word hword rest
  | .bool false, _, _, fuel, p, rest, _, _ => by
    have hword : ("false".toList, Value.bool false) ∈ words := by simp [words]
    exact (readValue_plain (p := p) (startsPlain_word hword) rest) ▸ reads_word hword rest
  | .int i, _, hshort, fuel, p, rest, _, hrest => by
    rw [line, readValue_plain (startsPlain_intText i)]
    exact reads_intText hshort hrest
  | .float x, _, _, fuel, p, rest, _, hrest => by
    rw [line, readValue_plain (startsPlain_floatLiteral x)]
    exact reads_floatLiteral x hrest
  | .text s, _, _, fuel, p, rest, _, _ => readValue_text s rest
  | .list [], _, _, fuel, p, rest, _, _ => ⟨_, rfl⟩
  | .list (v :: r), hv, hshort, fuel, p, rest, hfuel, _ => by
    have hlength : (line (.list (v :: r))).length = (joined [',', ' '] (lineElements (v :: r))).length + 2 := by simp [line]
    obtain ⟨k, rfl⟩ : ∃ k, fuel = k + 1 := ⟨fuel - 1, by omega⟩
    have helements := reads_elements (v :: r) (List.cons_ne_nil _ _) hv hshort k (p + 1) rest (by omega)
    rw [line, List.cons_append, List.append_assoc]
    exact readValue_list ((startsValue_elements v r).append _) helements
  | .object [], _, _, fuel, p, rest, _, _ => ⟨_, rfl⟩
  | .object (m :: r), hv, hshort, fuel, p, rest, hfuel, _ => by
    rw [Value.isJson, Bool.and_eq_true, decide_eq_true_eq] at hv
    have hlength : (line (.object (m :: r))).length = (joined [',', ' '] (lineMembers (m :: r))).length + 2 := by simp [line]
    obtain ⟨k, rfl⟩ : ∃ k, fuel = k + 1 := ⟨fuel - 1, by omega⟩
    have hmembers := reads_members (m :: r) (List.cons_ne_nil _ _) hv.2 hshort k (p + 1) rest (by omega)
    have hobject := readValue_object (head?_members m r _) hmembers
    rw [Table.ofRows_of_nodup hv.1] at hobject
    rwa [line, List.cons_append, List.append_assoc]

theorem reads_elements : (vs : List Value) → vs ≠ [] → Value.allJson vs = true →
    Value.anyElementScalar Scalar.isLongInteger vs = false → ∀ (fuel p : Nat) (rest : List Char),
    (joined [',', ' '] (lineElements vs)).length ≤ fuel →
    Reads (readElements (fuel + 1) p (joined [',', ' '] (lineElements vs) ++ ']' :: rest)) vs rest
  | [], hne, _, _, _, _, _, _ => absurd rfl hne
  | [v], _, hvs, hshort, fuel, p, rest, hfuel => by
    rw [Value.allJson, Bool.and_eq_true] at hvs
    rw [Value.anyElementScalar, Bool.or_eq_false_iff] at hshort
    have hpos := (startsValue_line v).length_pos
    obtain ⟨k, rfl⟩ : ∃ k, fuel = k + 1 := ⟨fuel - 1, by simp [lineElements, joined] at hfuel; omega⟩
    exact readElements_last (reads_line v hvs.1 hshort.1 k p _ hfuel (endsNumber_cons (by decide)))
  | v :: w :: r, _, hvs, hshort, fuel, p, rest, hfuel => by
    rw [Value.allJson, Bool.and_eq_true] at hvs
    rw [Value.anyElementScalar, Bool.or_eq_false_iff] at hshort
    have hlength : (joined [',', ' '] (lineElements (v :: w :: r))).length =
        (line v).length + 2 + (joined [',', ' '] (lineElements (w :: r))).length := by
      simp [lineElements, joined]
      omega
    obtain ⟨k, rfl⟩ : ∃ k, fuel = k + 1 := ⟨fuel - 1, by omega⟩
    have hv := reads_line v hvs.1 hshort.1 k p (',' :: ' ' :: (joined [',', ' '] (lineElements (w :: r)) ++ ']' :: rest)) (by omega)
      (endsNumber_cons (by decide))
    have helements := readElements_cons hv ((startsValue_elements w r).append _) fun q =>
      reads_elements (w :: r) (List.cons_ne_nil _ _) hvs.2 hshort.2 k q rest (by omega)
    simpa [lineElements, joined] using helements

theorem reads_members : (ms : List (String × Value)) → ms ≠ [] → Value.membersJson ms = true →
    Value.anyMemberScalar Scalar.isLongInteger ms = false → ∀ (fuel p : Nat) (rest : List Char),
    (joined [',', ' '] (lineMembers ms)).length ≤ fuel →
    Reads (readMembers (fuel + 1) p (joined [',', ' '] (lineMembers ms) ++ '}' :: rest)) ms rest
  | [], hne, _, _, _, _, _, _ => absurd rfl hne
  | [(k, v)], _, hms, hshort, fuel, p, rest, hfuel => by
    rw [Value.membersJson, Bool.and_eq_true] at hms
    rw [Value.anyMemberScalar, Bool.or_eq_false_iff] at hshort
    have hlength : (joined [',', ' '] (lineMembers [(k, v)])).length = (textLiteral k).length + ((line v).length + 2) := by
      simp [lineMembers, joined]
    obtain ⟨n, rfl⟩ : ∃ n, fuel = n + 1 := ⟨fuel - 1, by omega⟩
    have hv : ∀ q, Reads (readValue (n + 1) q (line v ++ '}' :: rest)) v ('}' :: rest) := fun q =>
      reads_line v hms.1 hshort.1 n q _ (by omega) (endsNumber_cons (by decide))
    have hmembers := readMembers_last (p := p) k ((startsValue_line v).append _) hv
    simpa [lineMembers, joined] using hmembers
  | (k, v) :: m :: r, _, hms, hshort, fuel, p, rest, hfuel => by
    rw [Value.membersJson, Bool.and_eq_true] at hms
    rw [Value.anyMemberScalar, Bool.or_eq_false_iff] at hshort
    have hlength : (joined [',', ' '] (lineMembers ((k, v) :: m :: r))).length =
        (textLiteral k).length + ((line v).length + 2) + 2 + (joined [',', ' '] (lineMembers (m :: r))).length := by
      simp [lineMembers, joined]
      omega
    obtain ⟨n, rfl⟩ : ∃ n, fuel = n + 1 := ⟨fuel - 1, by omega⟩
    have hv : ∀ q, Reads (readValue (n + 1) q (line v ++ ',' :: ' ' :: (joined [',', ' '] (lineMembers (m :: r)) ++ '}' :: rest))) v
        (',' :: ' ' :: (joined [',', ' '] (lineMembers (m :: r)) ++ '}' :: rest)) := fun q =>
      reads_line v hms.1 hshort.1 n q _ (by omega) (endsNumber_cons (by decide))
    have hmembers := readMembers_cons (p := p) k ((startsValue_line v).append _) hv ((startsValue_members m r).append _) fun q =>
      reads_members (m :: r) (List.cons_ne_nil _ _) hms.2 hshort.2 n q rest (by omega)
    simpa [lineMembers, joined] using hmembers

end

theorem parse_line {v : Value} (hv : v.isJson = true) (hshort : v.hasLongInteger = false) : parse (line v) = .ok v := by
  obtain ⟨q, hq⟩ := reads_line v hv hshort (2 * (line v).length + 1) 0 [] (by omega) nofun
  have hstarts := startsValue_line v
  rw [List.append_nil] at hq
  have hmark : (line v).head? ≠ some '\ufeff' := by
    obtain ⟨c, r, hcons, -, -, hc⟩ := hstarts
    rw [hcons]
    exact fun h => hc (Option.some.inj h)
  rw [parse, if_neg hmark, parseChars, hstarts.skipSpace_eq]
  dsimp only
  rw [hq]
  rfl

end Json

end BehaviorTree
