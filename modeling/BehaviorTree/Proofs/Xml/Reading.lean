import BehaviorTree.Proofs.Text.Encoding
import BehaviorTree.Proofs.Xml.Outline

/-!
Reading what was written. The lines of an element are read as that element, wherever its tags and keys are names and no key comes twice;
only the blanks in its values are not kept, for they are read as spaces.
-/

set_option autoImplicit false

namespace BehaviorTree.Xml

open Markup

variable {s : State} {t : Tag} {c : Char} {a cs r name : List Char}

theorem isNameChar_of_isNameStart (h : isNameStart c = true) : isNameChar c = true := by rw [isNameChar, h, Bool.true_or]

theorem ne_of_isNameChar {d : Char} (h : isNameChar c = true) (hd : isNameChar d = false) : c ≠ d := by
  rintro rfl
  exact Bool.false_ne_true (hd.symm.trans h)

theorem isSpace_of_isNameChar (h : isNameChar c = true) : isSpace c = false := by
  simp only [isSpace, Bool.or_eq_false_iff, decide_eq_false_iff_not]
  exact ⟨⟨⟨ne_of_isNameChar h (by decide), ne_of_isNameChar h (by decide)⟩, ne_of_isNameChar h (by decide)⟩,
    ne_of_isNameChar h (by decide)⟩

theorem all_isNameChar (h : isName name = true) : ∀ c ∈ name, isNameChar c = true := by
  cases name with
  | nil => cases h
  | cons c r =>
    rw [isName, Bool.and_eq_true, List.all_eq_true] at h
    exact List.forall_mem_cons.2 ⟨isNameChar_of_isNameStart h.1, h.2⟩

theorem escapeChars_of_isName (h : isName name = true) : escapeChars name = name := by
  have hentities : ∀ e ∈ entities, isNameChar e.1 = false := by decide
  exact escapeChars_of_plain fun c hc e he => ne_of_isNameChar (all_isNameChar h c hc) (hentities e he)

theorem read_cons (s : State) (c : Char) (r : List Char) : s.read (c :: r) = (s.step c).bind fun u => u.read r := rfl

theorem read_gathered {m : List Char → Mode} {ok : Char → Bool}
    (hstep : ∀ a c, ok c = true → (s.turn (m a)).step c = some (s.turn (m (a ++ [c])))) (hcs : ∀ c ∈ cs, ok c = true)
    (a r : List Char) : (s.turn (m a)).read (cs ++ r) = (s.turn (m (a ++ cs))).read r := by
  induction cs generalizing a with
  | nil => rw [List.append_nil, List.nil_append]
  | cons c cs ih =>
    rw [List.forall_mem_cons] at hcs
    rw [List.cons_append, read_cons, hstep a c hcs.1, Option.bind_some, ih hcs.2, List.append_assoc, List.singleton_append]

theorem read_nameChars {m : List Char → Mode} {next : List Char → Char → Option State}
    (hstep : ∀ a c, (s.turn (m a)).step c = if isNameChar c then some (s.turn (m (a ++ [c]))) else next a c)
    (hcs : ∀ c ∈ cs, isNameChar c = true) (a r : List Char) : (s.turn (m a)).read (cs ++ r) = (s.turn (m (a ++ cs))).read r :=
  read_gathered (fun a c hc => by rw [hstep, if_pos hc]) hcs a r

theorem read_indentation (d : Nat) (r : List Char) : (s.turn (.text 0)).read (indentation d ++ r) = (s.turn (.text 0)).read r := by
  induction d with
  | zero => rfl
  | succ d ih => exact ih

theorem step_opened (hc : isNameStart c = true) : (s.turn .opened).step c = some (s.turn (.startName [c])) := by
  have hname := isNameChar_of_isNameStart hc
  have hslash : c ≠ '/' := ne_of_isNameChar hname (by decide)
  have hmark : c ≠ '!' := ne_of_isNameChar hname (by decide)
  have hquestion : c ≠ '?' := ne_of_isNameChar hname (by decide)
  change State.opened _ c = _
  rw [State.opened, if_neg hslash, if_neg hmark, if_neg hquestion, if_pos hc]
  rfl

theorem read_start {tag : String} (htag : isName tag.toList = true) (r : List Char) :
    (s.turn (.text 0)).read ('<' :: (tag.toList ++ r)) = (s.turn (.startName tag.toList)).read r := by
  have hchars := all_isNameChar htag
  cases hcs : tag.toList with
  | nil => simp [hcs, isName] at htag
  | cons c cs =>
    rw [hcs] at htag hchars
    have hstart : isNameStart c = true := (Bool.and_eq_true_iff.1 htag).1
    have hopened : (s.turn (.text 0)).step '<' = some (s.turn .opened) := rfl
    rw [read_cons, hopened, Option.bind_some, List.cons_append, read_cons, step_opened hstart, Option.bind_some]
    exact read_nameChars (fun _ _ => rfl) (List.forall_mem_cons.1 hchars).2 [c] r

theorem read_named {tag : String} (hc : isNameChar c = false) (r : List Char) :
    (s.turn (.startName tag.toList)).read (c :: r) = (s.turn (.startTag { name := tag } false)).read (c :: r) := by
  have hstep : (s.turn (.startName tag.toList)).step c = (s.turn (.startTag { name := tag } false)).step c := by
    change (if isNameChar c then _ else _) = State.startTag _ _ _ _
    rw [hc, if_neg Bool.false_ne_true, String.ofList_toList]
    rfl
  rw [read_cons, hstep, read_cons]

theorem step_value {key : String} (hquote : c ≠ '"') (hopen : c ≠ '<') (hreference : c ≠ '&') :
    (s.turn (.value t key '"' a)).step c = some (s.turn (.value t key '"' (a ++ [valued c]))) := by
  change State.value _ _ _ _ _ c = _
  rw [State.value, if_neg hquote, if_neg hopen, if_neg hreference]
  rfl

theorem read_reference {key : String} (hname : ∀ d ∈ name, (d ≠ ';' : Bool) = true) (hc : referenced? name = some [c]) (r : List Char) :
    (s.turn (.value t key '"' a)).read ('&' :: (name ++ ';' :: r)) = (s.turn (.value t key '"' (a ++ [c]))).read r := by
  have hbegin : (s.turn (.value t key '"' a)).step '&' = some (s.turn (.valueReference t key '"' a [])) := rfl
  have hgather : ∀ (n : List Char) (d : Char), (d ≠ ';' : Bool) = true →
      (s.turn (.valueReference t key '"' a n)).step d = some (s.turn (.valueReference t key '"' a (n ++ [d]))) := fun n d hd => by
    change (if d = ';' then _ else _) = _
    rw [if_neg (of_decide_eq_true hd)]
    rfl
  have hend : (s.turn (.valueReference t key '"' a name)).step ';' = some (s.turn (.value t key '"' (a ++ [c]))) := by
    change (referenced? name).map _ = _
    rw [hc]
    rfl
  rw [read_cons, hbegin, Option.bind_some, read_gathered hgather hname, List.nil_append, read_cons, hend, Option.bind_some]

theorem read_written (t : Tag) (key : String) (a : List Char) (c : Char) (r : List Char) :
    (s.turn (.value t key '"' a)).read (written c ++ r) = (s.turn (.value t key '"' (a ++ [valued c]))).read r := by
  have hentities : ∀ e ∈ entities, e.2 = '&' :: ((e.2.drop 1).dropLast ++ [';']) ∧
      (e.2.drop 1).dropLast.all (fun d => d ≠ ';') = true ∧ referenced? (e.2.drop 1).dropLast = some [e.1] ∧ valued e.1 = e.1 := by decide
  rcases written_cases c with ⟨e, he, rfl, hc⟩ | ⟨hc, hplain⟩
  · obtain ⟨hform, hname, hreferenced, hvalued⟩ := hentities e he
    rw [hc, hvalued, hform, List.cons_append, List.append_assoc, List.singleton_append]
    exact read_reference (List.all_eq_true.1 hname) hreferenced r
  · have hquote : c ≠ '"' := hplain ('"', "&quot;".toList) (by decide)
    have hopen : c ≠ '<' := hplain ('<', "&lt;".toList) (by decide)
    have hreference : c ≠ '&' := hplain ('&', "&amp;".toList) (by decide)
    rw [hc, List.singleton_append, read_cons, step_value hquote hopen hreference, Option.bind_some]

theorem read_value (t : Tag) (key : String) (a cs r : List Char) :
    (s.turn (.value t key '"' a)).read (escapeChars cs ++ r) = (s.turn (.value t key '"' (a ++ cs.map valued))).read r := by
  induction cs generalizing a with
  | nil => rw [escapeChars_nil, List.map_nil, List.append_nil, List.nil_append]
  | cons c cs ih => rw [escapeChars_cons, List.append_assoc, read_written, ih, List.append_assoc, List.map_cons, List.singleton_append]

def valuedText (v : String) : String := String.ofList (v.toList.map valued)

theorem step_startTag (hc : isNameStart c = true) : (s.turn (.startTag t true)).step c = some (s.turn (.key t [c])) := by
  have hname := isNameChar_of_isNameStart hc
  have hend : c ≠ '>' := ne_of_isNameChar hname (by decide)
  have hslash : c ≠ '/' := ne_of_isNameChar hname (by decide)
  change State.startTag _ t true c = _
  rw [State.startTag, isSpace_of_isNameChar hname, if_neg Bool.false_ne_true, if_neg hend, if_neg hslash, if_pos (by simp [hc])]
  rfl

theorem read_key {key : String} (hkey : isName key.toList = true) (r : List Char) :
    (s.turn (.startTag t false)).read (' ' :: (key.toList ++ r)) = (s.turn (.key t key.toList)).read r := by
  have hchars := all_isNameChar hkey
  cases hcs : key.toList with
  | nil => simp [hcs, isName] at hkey
  | cons c cs =>
    rw [hcs] at hkey hchars
    have hstart : isNameStart c = true := (Bool.and_eq_true_iff.1 hkey).1
    have hspace : (s.turn (.startTag t false)).step ' ' = some (s.turn (.startTag t true)) := rfl
    rw [read_cons, hspace, Option.bind_some, List.cons_append, read_cons, step_startTag hstart, Option.bind_some]
    exact read_nameChars (fun _ _ => rfl) (List.forall_mem_cons.1 hchars).2 [c] r

theorem read_equals {key : String} (ht : t.Takes key) (r : List Char) :
    (s.turn (.key t key.toList)).read ('=' :: '"' :: r) = (s.turn (.value t key '"' [])).read r := by
  have hequals : (s.turn (.key t key.toList)).step '=' = some (s.turn (.equated t key)) := by
    change State.keyed _ t (String.ofList key.toList) '=' = _
    have hfresh : ('=' = '=' && !t.keys.contains key : Bool) = true := by simp [ht.fresh]
    rw [String.ofList_toList, State.keyed, if_neg (by decide), if_pos hfresh]
    rfl
  have hquote : (s.turn (.equated t key)).step '"' = some (s.turn (.value t key '"' [])) := rfl
  rw [read_cons, hequals, Option.bind_some, read_cons, hquote, Option.bind_some]

theorem read_attribute {b : String × String} (ht : t.Takes b.1) (r : List Char) :
    (s.turn (.startTag t false)).read (attributeChars b ++ r) =
      (s.turn (.startTag (t.add b.1 (valuedText b.2)) false)).read r := by
  have hend : ∀ v, (s.turn (.value t b.1 '"' v)).step '"' = some (s.turn (.startTag (t.add b.1 (String.ofList v)) false)) := fun v => rfl
  have hsplit : attributeChars b ++ r = ' ' :: (b.1.toList ++ '=' :: '"' :: (escapeChars b.2.toList ++ '"' :: r)) := by
    simp [attributeChars, escapeChars_of_isName ht.named]
  rw [hsplit, read_key ht.named, read_equals ht, read_value, List.nil_append, read_cons, hend, Option.bind_some, valuedText]

def mapAttributes (g : String → String) (bs : List (String × String)) : List (String × String) := bs.map fun b => (b.1, g b.2)

theorem takes_next {tag : String} {as bs : List (String × String)} {b : String × String}
    (h : (Tag.mk tag (as ++ b :: bs)).IsNamed) : (Tag.mk tag as).Takes b.1 := by
  have hkeys : (Tag.mk tag (as ++ b :: bs)).keys = (Tag.mk tag as).keys ++ b.1 :: bs.map Prod.fst := by simp [Tag.keys]
  have hnamed := h.keys
  have hdistinct := h.distinct
  rw [hkeys, List.forall_mem_append, List.forall_mem_cons] at hnamed
  rw [hkeys, List.nodup_append] at hdistinct
  exact {
    name := h.name
    keys := hnamed.1
    distinct := hdistinct.1
    named := hnamed.2.1
    fresh := fun hmem => hdistinct.2.2 _ hmem _ List.mem_cons_self rfl }

theorem read_attributes {tag : String} {as bs : List (String × String)} (h : (Tag.mk tag (as ++ bs)).IsNamed) (r : List Char) :
    (s.turn (.startTag ⟨tag, as⟩ false)).read (bs.flatMap attributeChars ++ r) =
      (s.turn (.startTag ⟨tag, as ++ mapAttributes valuedText bs⟩ false)).read r := by
  induction bs generalizing as with
  | nil => simp [mapAttributes]
  | cons b bs ih =>
    have hrest : (Tag.mk tag (as ++ [(b.1, valuedText b.2)] ++ bs)).IsNamed := h.of_keys rfl (by simp [Tag.keys])
    have hread := ih hrest
    rw [List.append_assoc, List.singleton_append] at hread
    rw [List.flatMap_cons, List.append_assoc, read_attribute (takes_next h)]
    exact hread

mutual

/-- The element with all values of attributes changed. -/
def mapValues (g : String → String) : Element → Element
  | .element tag as cs => .element tag (mapAttributes g as) (mapAllValues g cs)

def mapAllValues (g : String → String) : List Element → List Element
  | [] => []
  | e :: r => mapValues g e :: mapAllValues g r

end

def addAll (s : State) (es : List Element) : State := { s with mode := .text 0, children := s.children ++ es }

theorem read_tag {tag : String} {as : List (String × String)} (h : (Tag.mk tag as).IsNamed) (x : Bool) (r : List Char) :
    (s.turn (.text 0)).read ('<' :: (tagChars tag as x ++ '>' :: r)) =
      (if x then s.add (.element tag (mapAttributes valuedText as) []) else s.push ⟨tag, mapAttributes valuedText as⟩).read r := by
  have hnext : ∃ c u, as.flatMap attributeChars ++ (slash x ++ '>' :: r) = c :: u ∧ isNameChar c = false := by
    cases as with
    | nil => cases x <;> exact ⟨_, _, rfl, by decide⟩
    | cons b as => exact ⟨' ', _, rfl, by decide⟩
  obtain ⟨c, u, hcu, hc⟩ := hnext
  have hnamed : (s.turn (.startName tag.toList)).read (as.flatMap attributeChars ++ (slash x ++ '>' :: r)) =
      (s.turn (.startTag { name := tag } false)).read (as.flatMap attributeChars ++ (slash x ++ '>' :: r)) := by
    rw [hcu]
    exact read_named hc u
  rw [tagChars, escapeChars_of_isName h.name, List.append_assoc, List.append_assoc, read_start h.name, hnamed, read_attributes h]
  cases x <;> rfl

theorem read_endTag {tag : String} {as : List (String × String)} (htag : isName tag.toList = true) {before es : List Element}
    {above : List Frame} (d : Nat) (r : List Char) :
    (State.mk (.text 0) es (⟨⟨tag, as⟩, before⟩ :: above)).read (endTag d tag ++ r) =
      (State.mk (.text 0) (before ++ [.element tag as es]) above).read r := by
  let s : State := ⟨.text 0, es, ⟨⟨tag, as⟩, before⟩ :: above⟩
  have hopened : (s.turn (.text 0)).step '<' = some (s.turn .opened) := rfl
  have hslash : (s.turn .opened).step '/' = some (s.turn (.endName [])) := rfl
  have hchars : ∀ r, (s.turn (.endName [])).read (tag.toList ++ r) = (s.turn (.endName ([] ++ tag.toList))).read r :=
    read_nameChars (fun _ _ => rfl) (all_isNameChar htag) []
  have hname : ∀ c, isNameChar c = false → (s.turn (.endName tag.toList)).step c = (s.turn (.endName tag.toList)).endTag tag c :=
    fun c hc => by
      change (if isNameChar c then _ else State.endTag _ (String.ofList tag.toList) c) = _
      rw [hc, if_neg Bool.false_ne_true, String.ofList_toList]
  have hend : (s.turn (.endName tag.toList)).step '>' = some ⟨.text 0, before ++ [.element tag as es], above⟩ := by
    rw [hname '>' (by decide), State.endTag, if_neg (by decide), if_pos rfl]
    exact if_pos rfl
  change (s.turn (.text 0)).read (endTag d tag ++ r) = _
  rw [endTag_append, read_indentation, read_cons, hopened, Option.bind_some, escapeChars_of_isName htag, List.cons_append, read_cons,
    hslash, Option.bind_some, hchars, List.nil_append, read_cons, hend, Option.bind_some]

mutual

theorem read_lines (d : Nat) : (e : Element) → e.IsNamed → (s : State) → (r : List Char) →
    (s.turn (.text 0)).read (lines d e ++ r) = (s.add (mapValues valuedText e)).read r
  | .element tag as [], .element own _, s, r => by
    rw [lines_append, read_indentation, List.isEmpty_nil, read_tag own]
    rfl
  | .element tag as (c :: cs), .element own below, s, r => by
    let opened : State := s.push ⟨tag, mapAttributes valuedText as⟩
    have hbreak : ∀ r, opened.read ('\n' :: r) = (opened.turn (.text 0)).read r := fun r => rfl
    have hchildren := read_allLines (d + 2) (c :: cs) below opened (endTag d tag ++ r)
    have hsplit : ('\n' :: allLines (d + 2) (c :: cs) ++ endTag d tag) ++ r =
        '\n' :: (allLines (d + 2) (c :: cs) ++ (endTag d tag ++ r)) := by simp
    rw [lines_append, read_indentation, List.isEmpty_cons, read_tag own, if_neg Bool.false_ne_true, if_neg Bool.false_ne_true, hsplit]
    change opened.read _ = _
    rw [hbreak, hchildren]
    exact read_endTag own.name d r

theorem read_allLines (d : Nat) : (es : List Element) → (∀ e ∈ es, e.IsNamed) → (s : State) → (r : List Char) →
    (s.turn (.text 0)).read (allLines d es ++ r) = (addAll s (mapAllValues valuedText es)).read r
  | [], _, s, r => by
    rw [allLines, List.nil_append, addAll, mapAllValues, List.append_nil]
    rfl
  | e :: es, h, s, r => by
    rw [List.forall_mem_cons] at h
    have hrest := read_allLines d es h.2 (s.add (mapValues valuedText e)) r
    have hbreak : ∀ r, (s.add (mapValues valuedText e)).read ('\n' :: r) = ((s.add (mapValues valuedText e)).turn (.text 0)).read r :=
      fun r => rfl
    have hall : addAll (s.add (mapValues valuedText e)) (mapAllValues valuedText es) = addAll s (mapAllValues valuedText (e :: es)) := by
      simp [addAll, State.add, mapAllValues]
    rw [allLines, List.append_assoc, read_lines d e h.1, List.cons_append, hbreak, hrest, hall]

end

open Text (plainLineEnds)

def plainText (v : String) : String := String.ofList (plainLineEnds v.toList)

theorem plainLineEnds_cons (hc : c ≠ '\r') (r : List Char) : plainLineEnds (c :: r) = c :: plainLineEnds r := by
  rw [plainLineEnds]
  · exact fun _ h => absurd h hc
  · exact fun h => absurd h hc

theorem plainLineEnds_append (h : '\r' ∉ a) (r : List Char) : plainLineEnds (a ++ r) = a ++ plainLineEnds r := by
  induction a with
  | nil => rfl
  | cons c a ih =>
    obtain ⟨hc, ha⟩ := List.ne_and_not_mem_of_not_mem_cons h
    rw [List.cons_append, plainLineEnds_cons hc.symm, ih ha, List.cons_append]

theorem return_notMem_written (hc : c ≠ '\r') : '\r' ∉ written c := by
  have hentities : ∀ e ∈ entities, '\r' ∉ e.2 := by decide
  rcases written_cases c with ⟨e, he, _, h⟩ | ⟨h, _⟩
  · exact h ▸ hentities e he
  · simpa [h] using hc.symm

theorem break_begins (h : escapeChars cs ++ '"' :: r = '\n' :: a) : ∃ ds, cs = '\n' :: ds := by
  cases cs with
  | nil => exact absurd (List.cons.inj h).1 (by decide)
  | cons c cs =>
    have hbreak : '\n' :: a = written '\n' ++ a := rfl
    rw [escapeChars_cons, List.append_assoc, hbreak] at h
    exact ⟨cs, by rw [(written_append_inj h).1]⟩

theorem plainLineEnds_escaped (cs r : List Char) :
    plainLineEnds (escapeChars cs ++ '"' :: r) = escapeChars (plainLineEnds cs) ++ '"' :: plainLineEnds r := by
  have hreturn : written '\r' = ['\r'] := rfl
  have hbreak : written '\n' = ['\n'] := rfl
  fun_induction plainLineEnds cs with
  | case1 cs ih =>
    rw [escapeChars_cons, escapeChars_cons, escapeChars_cons, hreturn, hbreak]
    exact congrArg ('\n' :: ·) ih
  | case2 cs hcs ih =>
    have hnext : ∀ a, escapeChars cs ++ '"' :: r = '\n' :: a → False := fun a h => by
      obtain ⟨ds, hds⟩ := break_begins h
      exact hcs ds hds
    rw [escapeChars_cons, escapeChars_cons, hreturn, hbreak, List.append_assoc, List.singleton_append, plainLineEnds, ih]
    · rfl
    · exact hnext
  | case3 c cs _ hc ih =>
    rw [escapeChars_cons, escapeChars_cons, List.append_assoc, plainLineEnds_append (return_notMem_written hc), ih, List.append_assoc]
  | case4 => exact plainLineEnds_cons (by decide) r

theorem return_notMem_of_isName (h : isName name = true) : '\r' ∉ name := fun hmem =>
  ne_of_isNameChar (all_isNameChar h _ hmem) (by decide) rfl

theorem plainLineEnds_attribute {b : String × String} (h : isName b.1.toList = true) (r : List Char) :
    plainLineEnds (attributeChars b ++ r) = attributeChars (b.1, plainText b.2) ++ plainLineEnds r := by
  have hkey : '\r' ∉ ' ' :: (b.1.toList ++ ['=', '"']) := by simp [return_notMem_of_isName h]
  have hsplit : ∀ v r, attributeChars (b.1, v) ++ r = ' ' :: (b.1.toList ++ ['=', '"']) ++ (escapeChars v.toList ++ '"' :: r) := by
    simp [attributeChars, escapeChars_of_isName h]
  rw [hsplit, hsplit, plainLineEnds_append hkey, plainLineEnds_escaped, plainText, String.toList_ofList]

theorem plainLineEnds_attributes {bs : List (String × String)} (h : ∀ b ∈ bs, isName b.1.toList = true) (r : List Char) :
    plainLineEnds (bs.flatMap attributeChars ++ r) = (mapAttributes plainText bs).flatMap attributeChars ++ plainLineEnds r := by
  induction bs with
  | nil => rfl
  | cons b bs ih =>
    rw [List.forall_mem_cons] at h
    rw [List.flatMap_cons, List.append_assoc, plainLineEnds_attribute h.1, ih h.2, mapAttributes, mapAttributes, List.map_cons,
      List.flatMap_cons, List.append_assoc]

theorem plainLineEnds_tag {tag : String} {as : List (String × String)} (h : (Tag.mk tag as).IsNamed) (x : Bool) (r : List Char) :
    plainLineEnds (tagChars tag as x ++ '>' :: r) = tagChars tag (mapAttributes plainText as) x ++ '>' :: plainLineEnds r := by
  have htag : '\r' ∉ escapeChars tag.toList := by
    rw [escapeChars_of_isName h.name]
    exact return_notMem_of_isName h.name
  have hslash : '\r' ∉ slash x ++ ['>'] := by cases x <;> decide
  have hkeys : ∀ b ∈ as, isName b.1.toList = true := fun b hb => h.keys b.1 (List.mem_map_of_mem hb)
  have hsplit : ∀ as r, tagChars tag as x ++ '>' :: r =
      escapeChars tag.toList ++ (as.flatMap attributeChars ++ (slash x ++ ['>'] ++ r)) := by simp [tagChars]
  rw [hsplit, hsplit, plainLineEnds_append htag, plainLineEnds_attributes hkeys, plainLineEnds_append hslash]

theorem return_notMem_indentation (d : Nat) : '\r' ∉ indentation d := fun hmem =>
  absurd (List.eq_of_mem_replicate hmem) (by decide)

mutual

theorem plainLineEnds_lines (d : Nat) : (e : Element) → e.IsNamed → (r : List Char) →
    plainLineEnds (lines d e ++ r) = lines d (mapValues plainText e) ++ plainLineEnds r
  | .element tag as [], .element own _, r => by
    rw [lines_append, plainLineEnds_append (return_notMem_indentation d), plainLineEnds_cons (by decide), plainLineEnds_tag own, mapValues,
      mapAllValues, lines_append]
    rfl
  | .element tag as (c :: cs), .element own below, r => by
    have hend : '\r' ∉ endTag d tag := by
      simp [endTag, return_notMem_indentation, escapeChars_of_isName own.name, return_notMem_of_isName own.name]
    have hsplit : ∀ ls r, ('\n' :: ls ++ endTag d tag) ++ r = '\n' :: (ls ++ (endTag d tag ++ r)) := by simp
    have hchildren := plainLineEnds_allLines (d + 2) (c :: cs) below (endTag d tag ++ r)
    rw [lines_append, plainLineEnds_append (return_notMem_indentation d), plainLineEnds_cons (by decide), plainLineEnds_tag own, mapValues,
      lines_append, List.isEmpty_cons, if_neg Bool.false_ne_true, hsplit, plainLineEnds_cons (by decide), hchildren,
      plainLineEnds_append hend, mapAllValues, List.isEmpty_cons, if_neg Bool.false_ne_true, hsplit]

theorem plainLineEnds_allLines (d : Nat) : (es : List Element) → (∀ e ∈ es, e.IsNamed) → (r : List Char) →
    plainLineEnds (allLines d es ++ r) = allLines d (mapAllValues plainText es) ++ plainLineEnds r
  | [], _, r => rfl
  | e :: es, h, r => by
    rw [List.forall_mem_cons] at h
    rw [allLines, List.append_assoc, plainLineEnds_lines d e h.1, List.cons_append, plainLineEnds_cons (by decide),
      plainLineEnds_allLines d es h.2, mapAllValues, allLines, List.append_assoc, List.cons_append]

end

def IsLegalText (s : String) : Prop := s.toList.all isLegal = true

instance (s : String) : Decidable (IsLegalText s) := inferInstanceAs (Decidable (s.toList.all isLegal = true))

structure IsLegalTag (t : Tag) : Prop where
  name : IsLegalText t.name
  attributes : ∀ b ∈ t.attributes, IsLegalText b.1 ∧ IsLegalText b.2

theorem all_isLegal_written (c : Char) : (written c).all isLegal = isLegal c := by
  have hentities : ∀ e ∈ entities, e.2.all isLegal = true ∧ isLegal e.1 = true := by decide
  rcases written_cases c with ⟨e, he, rfl, h⟩ | ⟨h, _⟩
  · rw [h, (hentities e he).1, (hentities e he).2]
  · simp [h]

theorem all_isLegal_escapeChars (cs : List Char) : (escapeChars cs).all isLegal = cs.all isLegal := by
  induction cs with
  | nil => rfl
  | cons c cs ih => rw [escapeChars_cons, List.all_append, all_isLegal_written, ih, List.all_cons]

theorem all_isLegal_attributeChars (b : String × String) :
    (attributeChars b).all isLegal = true ↔ IsLegalText b.1 ∧ IsLegalText b.2 := by
  have hframe : isLegal ' ' = true ∧ isLegal '=' = true ∧ isLegal '"' = true := by decide
  simp [attributeChars, IsLegalText, -List.all_eq_true, all_isLegal_escapeChars, hframe]

theorem all_isLegal_tagChars {tag : String} {as : List (String × String)} {x : Bool} :
    (tagChars tag as x).all isLegal = true ↔ IsLegalTag ⟨tag, as⟩ := by
  have hslash : (slash x).all isLegal = true := by cases x <;> decide
  rw [tagChars, List.all_append, List.all_append, hslash, Bool.and_true, all_isLegal_escapeChars, List.all_flatMap, Bool.and_eq_true]
  constructor
  · exact fun ⟨hname, has⟩ => ⟨hname, fun b hb => (all_isLegal_attributeChars b).1 (List.all_eq_true.1 has b hb)⟩
  · exact fun h => ⟨h.name, List.all_eq_true.2 fun b hb => (all_isLegal_attributeChars b).2 (h.attributes b hb)⟩

theorem all_isLegal_indentation (d : Nat) : (indentation d).all isLegal = true :=
  List.all_eq_true.2 fun c hc => by
    rw [List.eq_of_mem_replicate hc]
    decide

theorem all_isLegal_endTag (d : Nat) (tag : String) : (endTag d tag).all isLegal = tag.toList.all isLegal := by
  have hframe : isLegal '<' = true ∧ isLegal '/' = true ∧ isLegal '>' = true := by decide
  simp [endTag, -List.all_eq_true, all_isLegal_escapeChars, all_isLegal_indentation, hframe]

theorem all_isLegal_element (d : Nat) (tag : String) (as : List (String × String)) (cs : List Element) :
    (lines d (.element tag as cs)).all isLegal = ((tagChars tag as cs.isEmpty).all isLegal &&
      (if cs.isEmpty then [] else '\n' :: allLines (d + 2) cs ++ endTag d tag).all isLegal) := by
  have hframe : isLegal '<' = true ∧ isLegal '>' = true := by decide
  simp [lines, -List.all_eq_true, all_isLegal_indentation, hframe]

mutual

theorem all_isLegal_lines (d : Nat) : (e : Element) → ((lines d e).all isLegal = true ↔ e.All IsLegalTag)
  | .element tag as [] => by
    rw [all_isLegal_element, Bool.and_eq_true, all_isLegal_tagChars, Element.all_iff]
    exact and_congr_right fun _ => iff_of_true rfl nofun
  | .element tag as (c :: cs) => by
    have hchildren := all_isLegal_allLines (d + 2) (c :: cs)
    have hbreak : isLegal '\n' = true := by decide
    rw [all_isLegal_element, Bool.and_eq_true, all_isLegal_tagChars, Element.all_iff, ← hchildren, List.isEmpty_cons,
      if_neg Bool.false_ne_true, List.cons_append, List.all_cons, hbreak, Bool.true_and, List.all_append, all_isLegal_endTag,
      Bool.and_eq_true]
    exact and_congr_right fun htag => and_iff_left htag.name

theorem all_isLegal_allLines (d : Nat) : (es : List Element) → ((allLines d es).all isLegal = true ↔ ∀ e ∈ es, e.All IsLegalTag)
  | [] => iff_of_true rfl nofun
  | e :: es => by
    have hbreak : isLegal '\n' = true := by decide
    rw [allLines, List.all_append, List.all_cons, hbreak, Bool.true_and, Bool.and_eq_true, all_isLegal_lines d e, all_isLegal_allLines d es,
      List.forall_mem_cons]

end

def readText (v : String) : String := valuedText (plainText v)

mutual

theorem mapValues_mapValues (g h : String → String) : (e : Element) → mapValues g (mapValues h e) = mapValues (g ∘ h) e
  | .element tag as cs => by
    rw [mapValues, mapValues, mapAllValues_mapAllValues g h cs, mapValues, mapAttributes, mapAttributes, List.map_map, mapAttributes]
    rfl

theorem mapAllValues_mapAllValues (g h : String → String) :
    (es : List Element) → mapAllValues g (mapAllValues h es) = mapAllValues (g ∘ h) es
  | [] => rfl
  | e :: es => by rw [mapAllValues, mapAllValues, mapValues_mapValues g h e, mapAllValues_mapAllValues g h es, mapAllValues]

end

mutual

theorem mapValues_isNamed (g : String → String) : (e : Element) → e.IsNamed → (mapValues g e).IsNamed
  | .element tag as cs, .element own below => by
    rw [mapValues]
    exact .element (own.of_keys rfl (by simp [Tag.keys, mapAttributes])) (mapAllValues_isNamed g cs below)

theorem mapAllValues_isNamed (g : String → String) : (es : List Element) → (∀ e ∈ es, e.IsNamed) → ∀ e ∈ mapAllValues g es, e.IsNamed
  | [], _ => nofun
  | e :: es, h => by
    rw [List.forall_mem_cons] at h
    rw [mapAllValues]
    exact List.forall_mem_cons.2 ⟨mapValues_isNamed g e h.1, mapAllValues_isNamed g es h.2⟩

end

theorem undeclared?_declaration (r : List Char) : undeclared? (declaration ++ r) = some ('\n' :: r) := by
  rfl

theorem parse_document {f : List Tree} {ts : List NodeType} {v : String} (hf : f ≠ []) (hlegal : IsLegalText (document f ts v))
    (hnamed : (documentOutline f ts v).IsNamed) : parse (document f ts v) = some (mapValues readText (documentOutline f ts v)) := by
  have hreturn : '\r' ∉ declaration := by decide
  have hplain : plainLineEnds (document f ts v).toList = declaration ++ lines 0 (mapValues plainText (documentOutline f ts v)) := by
    have hlines := plainLineEnds_lines 0 _ hnamed []
    rw [List.append_nil] at hlines
    rw [toList_document hf, plainLineEnds_append hreturn, hlines, plainLineEnds, List.append_nil]
  have hread := read_lines 0 (mapValues plainText (documentOutline f ts v)) (mapValues_isNamed plainText _ hnamed) {} []
  have hbreak : ∀ r, ({} : State).read ('\n' :: r) = (({} : State).turn (.text 0)).read r := fun r => rfl
  rw [List.append_nil, mapValues_mapValues] at hread
  unfold parse
  rw [if_pos (show _ = true from hlegal), hplain, undeclared?_declaration, Option.bind_eq_bind, Option.bind_some, hbreak, hread]
  rfl

/-- Would no character of the text be read as another one? -/
def IsKept (v : String) : Prop := '\t' ∉ v.toList ∧ '\n' ∉ v.toList ∧ '\r' ∉ v.toList

instance (v : String) : Decidable (IsKept v) := inferInstanceAs (Decidable ('\t' ∉ v.toList ∧ '\n' ∉ v.toList ∧ '\r' ∉ v.toList))

theorem valued_eq_iff : valued c = c ↔ c ∉ ['\t', '\n', '\r'] := by
  simp only [valued, isSpace, Bool.or_eq_true, decide_eq_true_eq, List.mem_cons, List.not_mem_nil, or_false]
  constructor
  · split_ifs with hspace
    · rintro rfl
      decide
    · exact fun _ h => hspace (by tauto)
  · intro h
    split_ifs with hspace
    · tauto
    · rfl

theorem valued_valued (c : Char) : valued (valued c) = valued c := by
  unfold valued
  split_ifs <;> rfl

theorem readText_eq_iff {v : String} : readText v = v ↔ IsKept v := by
  have htoList : (readText v).toList = (plainLineEnds v.toList).map valued := by
    rw [readText, valuedText, plainText, String.toList_ofList, String.toList_ofList]
  have hkept : IsKept v ↔ ∀ c ∈ v.toList, valued c = c := by
    simp only [IsKept, valued_eq_iff, List.mem_cons, List.not_mem_nil, or_false, not_or]
    exact ⟨fun ⟨htab, hbreak, hreturn⟩ c hc => ⟨fun h => htab (h ▸ hc), fun h => hbreak (h ▸ hc), fun h => hreturn (h ▸ hc)⟩,
      fun h => ⟨fun hc => (h _ hc).1 rfl, fun hc => (h _ hc).2.1 rfl, fun hc => (h _ hc).2.2 rfl⟩⟩
  rw [← String.toList_inj, htoList]
  constructor
  · intro h
    rw [hkept, ← h]
    intro c hc
    obtain ⟨d, _, rfl⟩ := List.mem_map.1 hc
    exact valued_valued d
  · intro h
    rw [Text.plainLineEnds_of_not_mem h.2.2]
    exact (List.map_congr_left (hkept.1 h)).trans (List.map_id _)

def KeepsValues (t : Tag) : Prop := ∀ b ∈ t.attributes, IsKept b.2

theorem mapAttributes_eq_iff {as : List (String × String)} : mapAttributes readText as = as ↔ ∀ b ∈ as, IsKept b.2 := by
  induction as with
  | nil => exact iff_of_true rfl nofun
  | cons b as ih =>
    have hhead : (b.1, readText b.2) = b ↔ IsKept b.2 := by rw [← readText_eq_iff, Prod.ext_iff]; exact and_iff_right rfl
    rw [mapAttributes, List.map_cons, List.cons.injEq, hhead, ← mapAttributes, ih, List.forall_mem_cons]

mutual

theorem mapValues_eq_iff : (e : Element) → (mapValues readText e = e ↔ e.All KeepsValues)
  | .element tag as cs => by
    rw [mapValues, Element.element.injEq, mapAllValues_eq_iff cs, Element.all_iff, mapAttributes_eq_iff]
    exact and_iff_right rfl

theorem mapAllValues_eq_iff : (es : List Element) → (mapAllValues readText es = es ↔ ∀ e ∈ es, e.All KeepsValues)
  | [] => iff_of_true rfl nofun
  | e :: es => by
    rw [mapAllValues, List.cons.injEq, mapValues_eq_iff e, mapAllValues_eq_iff es, List.forall_mem_cons]

end

end BehaviorTree.Xml
