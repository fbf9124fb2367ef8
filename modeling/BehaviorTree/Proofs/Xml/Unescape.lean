import BehaviorTree.Proofs.Xml.Escape

/-!
Entities replaced by their characters again. One pass from left to right gives back the text that was escaped, even if that text looked
escaped already: what an entity stands for is not looked at again.
-/

set_option autoImplicit false

namespace BehaviorTree.Xml

variable {c : Char} {cs before after : List Char} {e : Char × List Char}

def entityAt? (cs : List Char) : Option (Char × List Char) := entities.find? fun e => e.2.isPrefixOf cs

/-- Replaces entities from left to right, after so many characters that belong to an entity already replaced. -/
def unescapeChars : Nat → List Char → List Char
  | _, [] => []
  | skipped + 1, _ :: r => unescapeChars skipped r
  | 0, c :: r =>
    match entityAt? (c :: r) with
    | some e => e.1 :: unescapeChars (e.2.length - 1) r
    | none => c :: unescapeChars 0 r

def unescape (s : String) : String := String.ofList (unescapeChars 0 s.toList)

theorem amp_mem_entities : ('&', "&amp;".toList) ∈ entities := List.mem_cons_self

theorem exists_of_entity (he : e ∈ entities) : ∃ r, e.2 = '&' :: r ∧ '&' ∉ r := by
  have hentities : ∀ e ∈ entities, e.2 = '&' :: e.2.tail ∧ '&' ∉ e.2.tail := by decide
  exact ⟨e.2.tail, hentities e he⟩

theorem unescapeChars_skip (as bs : List Char) : unescapeChars as.length (as ++ bs) = unescapeChars 0 bs := by
  induction as with
  | nil => rfl
  | cons a as ih => exact ih

theorem entityAt?_entity (he : e ∈ entities) (r : List Char) : entityAt? (e.2 ++ r) = some e := by
  unfold entityAt?
  cases hf : entities.find? fun f => f.2.isPrefixOf (e.2 ++ r) with
  | none =>
    have hbegins : e.2.isPrefixOf (e.2 ++ r) = true := List.isPrefixOf_iff_prefix.2 (List.prefix_append _ _)
    exact absurd hbegins (List.find?_eq_none.1 hf e he)
  | some f =>
    have hmem : f ∈ entities := List.mem_of_find?_eq_some hf
    have hbegins : f.2.isPrefixOf (e.2 ++ r) = true := by simpa using List.find?_some hf
    obtain ⟨t, ht⟩ := List.isPrefixOf_iff_prefix.1 hbegins
    rw [← written_entity hmem, ← written_entity he] at ht
    have hchar : f.1 = e.1 := (written_append_inj ht).1
    have htext : f.2 = e.2 := by rw [← written_entity hmem, hchar, written_entity he]
    rw [Prod.ext hchar htext]

theorem entityAt?_plain (hc : c ≠ '&') (r : List Char) : entityAt? (c :: r) = none := by
  refine List.find?_eq_none.2 fun e he hbegins => ?_
  obtain ⟨q, hq, -⟩ := exists_of_entity he
  rw [hq, List.isPrefixOf_iff_prefix, List.cons_prefix_cons] at hbegins
  exact hc hbegins.1.symm

theorem unescapeChars_written (c : Char) (r : List Char) : unescapeChars 0 (written c ++ r) = c :: unescapeChars 0 r := by
  rcases written_cases c with ⟨e, he, rfl, hc⟩ | ⟨hc, hplain⟩
  · obtain ⟨q, hq, -⟩ := exists_of_entity he
    have hentity := entityAt?_entity he r
    rw [hq, List.cons_append] at hentity
    rw [hc, hq, List.cons_append, unescapeChars, hentity]
    dsimp only
    rw [hq, List.length_cons, Nat.add_sub_cancel, unescapeChars_skip]
  · rw [hc, List.singleton_append, unescapeChars, entityAt?_plain (hplain _ amp_mem_entities)]

theorem unescapeChars_escapeChars (cs : List Char) : unescapeChars 0 (escapeChars cs) = cs := by
  induction cs with
  | nil => rfl
  | cons c r ih => rw [escapeChars_cons, unescapeChars_written, ih]

theorem unescape_escape (s : String) : unescape (escape s) = s := by
  rw [unescape, toList_escape, unescapeChars_escapeChars, String.ofList_toList]

theorem escapeChars_append (as bs : List Char) : escapeChars (as ++ bs) = escapeChars as ++ escapeChars bs :=
  replaceAll_append entities as bs

theorem escape_append (s t : String) : escape (s ++ t) = escape s ++ escape t := by
  rw [escape, escape, escape, String.toList_append, escapeChars_append, String.ofList_append]

theorem amp_of_written (h : written c = before ++ '&' :: after) : before = [] ∧ ∃ e ∈ entities, e.2 = '&' :: after := by
  rcases written_cases c with ⟨e, he, -, hc⟩ | ⟨hc, hplain⟩
  · obtain ⟨q, hq, hone⟩ := exists_of_entity he
    rw [hc, hq] at h
    cases before with
    | nil => exact ⟨rfl, e, he, hq.trans h⟩
    | cons b before =>
      have hmem : '&' ∈ q := (List.cons.inj h).2 ▸ by simp
      exact absurd hmem hone
  · have hmem : '&' ∈ written c := h ▸ by simp
    rw [hc, List.mem_singleton] at hmem
    exact absurd hmem.symm (hplain _ amp_mem_entities)

theorem entity_of_escapeChars (h : escapeChars cs = before ++ '&' :: after) : ∃ e ∈ entities, e.2 <+: '&' :: after := by
  induction cs generalizing before with
  | nil => simp [escapeChars_nil] at h
  | cons c r ih =>
    -- the ampersand was written for the first character or for one of the others
    rw [escapeChars_cons] at h
    rcases List.append_eq_append_iff.1 h with ⟨rest, -, hrest⟩ | ⟨rest, hwritten, hrest⟩
    · exact ih hrest
    · cases rest with
      | nil =>
        have hescaped : escapeChars r = [] ++ '&' :: after := hrest.symm
        exact ih hescaped
      | cons d rest =>
        obtain ⟨rfl, rfl⟩ := List.cons.inj hrest
        obtain ⟨-, e, he, hentity⟩ := amp_of_written hwritten
        exact ⟨e, he, hentity ▸ List.prefix_append _ _⟩

theorem escapeValue_text (s : String) : escapeValue (.text s) = escape s := rfl

/-- No text has quotes or angle brackets left when it has been escaped, each ampersand in it then begins one of the five entities, and
replacing these in one pass from left to right gives the text back. So no two texts are escaped to the same, and a text is escaped part
by part. -/
theorem escaping_is_invertible :
    (∀ s : String,
      (∀ d ∈ delimiters, d ∉ (escapeValue (.text s)).toList) ∧
        (∀ before after, (escapeValue (.text s)).toList = before ++ '&' :: after → ∃ e ∈ entities, e.2 <+: '&' :: after) ∧
          unescape (escapeValue (.text s)) = s) ∧
      (Function.Injective fun s : String => escapeValue (.text s)) ∧
        ∀ s t : String, escapeValue (.text (s ++ t)) = escapeValue (.text s) ++ escapeValue (.text t) := by
  simp only [escapeValue_text, toList_escape]
  refine ⟨fun s => ⟨fun d hd => notMem_escapeChars hd s.toList, fun before after h => entity_of_escapeChars h, unescape_escape s⟩, ?_,
    escape_append⟩
  exact Function.LeftInverse.injective unescape_escape

/-- A text that looks like an entity is not taken for one. -/
example : escape "<&lt;'" = "&lt;&amp;lt;&#039;" ∧ unescape "&lt;&amp;lt;&#039;" = "<&lt;'" := by decide +kernel

end BehaviorTree.Xml
