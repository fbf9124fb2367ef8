import BehaviorTree.Tree.Xml
import Mathlib.Data.List.Basic

/-!
Escaped text. Every character stands for itself or for an entity of its own, so nothing is lost, and neither quotes nor angle brackets are
left: what is written between quotes ends at the next quote.
-/

set_option autoImplicit false

namespace BehaviorTree.Xml

variable {c d : Char} {as bs cs : List Char} {e : Char × List Char}

def written (c : Char) : List Char := escapeChars [c]

theorem replaceAll_append (es : List (Char × List Char)) (as bs : List Char) :
    es.foldl (fun cs e => replaceChar e.1 e.2 cs) (as ++ bs) =
      es.foldl (fun cs e => replaceChar e.1 e.2 cs) as ++ es.foldl (fun cs e => replaceChar e.1 e.2 cs) bs := by
  induction es generalizing as bs with
  | nil => rfl
  | cons e es ih => rw [List.foldl_cons, replaceChar, List.flatMap_append, ih]; rfl

theorem escapeChars_nil : escapeChars [] = [] := rfl

theorem escapeChars_cons (c : Char) (cs : List Char) : escapeChars (c :: cs) = written c ++ escapeChars cs :=
  replaceAll_append entities [c] cs

theorem replaceAll_of_notMem {es : List (Char × List Char)} (h : ∀ e ∈ es, c ≠ e.1) :
    es.foldl (fun cs e => replaceChar e.1 e.2 cs) [c] = [c] := by
  induction es with
  | nil => rfl
  | cons e es ih =>
    have hhead : replaceChar e.1 e.2 [c] = [c] := by simp [replaceChar, h e List.mem_cons_self]
    rw [List.foldl_cons, hhead]
    exact ih fun f hf => h f (List.mem_cons_of_mem _ hf)

theorem written_entity (he : e ∈ entities) : written e.1 = e.2 := by
  have hentities : ∀ e ∈ entities, written e.1 = e.2 := by decide
  exact hentities e he

theorem written_cases (c : Char) : (∃ e ∈ entities, c = e.1 ∧ written c = e.2) ∨ (written c = [c] ∧ ∀ e ∈ entities, c ≠ e.1) := by
  by_cases h : ∃ e ∈ entities, c = e.1
  · obtain ⟨e, he, rfl⟩ := h
    exact .inl ⟨e, he, rfl, written_entity he⟩
  · have hplain : ∀ e ∈ entities, c ≠ e.1 := fun e he heq => h ⟨e, he, heq⟩
    exact .inr ⟨replaceAll_of_notMem hplain, hplain⟩

theorem escapeChars_of_plain (h : ∀ c ∈ cs, ∀ e ∈ entities, c ≠ e.1) : escapeChars cs = cs := by
  induction cs with
  | nil => rfl
  | cons c r ih =>
    rw [List.forall_mem_cons] at h
    have hc : written c = [c] := replaceAll_of_notMem h.1
    rw [escapeChars_cons, hc, ih h.2, List.singleton_append]

theorem escapeChars_of_word (h : cs.all fun c => c.isAlpha || c = '_') : escapeChars cs = cs := by
  have hentities : ∀ e ∈ entities, (e.1.isAlpha || e.1 = '_') = false := by decide
  refine escapeChars_of_plain fun c hc e he heq => ?_
  have hword := List.all_eq_true.1 h c hc
  rw [heq, hentities e he] at hword
  cases hword

theorem written_ne_nil (c : Char) : written c ≠ [] := by
  have hentities : ∀ e ∈ entities, e.2 ≠ [] := by decide
  rcases written_cases c with ⟨e, he, _, h⟩ | ⟨h, _⟩
  · exact h ▸ hentities e he
  · simp [h]

theorem written_append_inj (h : written c ++ as = written d ++ bs) : c = d ∧ as = bs := by
  have hentities : ∀ e ∈ entities, ∀ f ∈ entities, e.2 ++ as = f.2 ++ bs → e.1 = f.1 ∧ as = bs := by simp [entities]
  have hbegin : ∀ e ∈ entities, ∃ r, e.2 = '&' :: r := by simp [entities]
  have hamp : ('&', "&amp;".toList) ∈ entities := List.mem_cons_self
  rcases written_cases c with ⟨e, he, rfl, hc⟩ | ⟨hc, hc'⟩ <;> rcases written_cases d with ⟨f, hf, rfl, hd⟩ | ⟨hd, hd'⟩ <;> rw [hc, hd] at h
  · exact hentities e he f hf h
  · obtain ⟨r, hr⟩ := hbegin e he
    rw [hr] at h
    exact absurd (List.cons.inj h).1.symm (hd' _ hamp)
  · obtain ⟨r, hr⟩ := hbegin f hf
    rw [hr] at h
    exact absurd (List.cons.inj h).1 (hc' _ hamp)
  · exact List.cons.inj h

theorem escapeChars_injective (h : escapeChars as = escapeChars bs) : as = bs := by
  induction as generalizing bs with
  | nil =>
    cases bs with
    | nil => rfl
    | cons d bs =>
      rw [escapeChars_cons] at h
      exact absurd (List.append_eq_nil_iff.1 h.symm).1 (written_ne_nil d)
  | cons c as ih =>
    cases bs with
    | nil =>
      rw [escapeChars_cons] at h
      exact absurd (List.append_eq_nil_iff.1 h).1 (written_ne_nil c)
    | cons d bs =>
      rw [escapeChars_cons, escapeChars_cons] at h
      obtain ⟨rfl, hrest⟩ := written_append_inj h
      rw [ih hrest]

def delimiters : List Char := ['"', '\'', '<', '>']

theorem notMem_escapeChars (hd : d ∈ delimiters) (cs : List Char) : d ∉ escapeChars cs := by
  have hentities : ∀ d ∈ delimiters, d ∈ entities.map Prod.fst ∧ ∀ e ∈ entities, d ∉ e.2 := by simp [delimiters, entities]
  obtain ⟨hkey, hnone⟩ := hentities d hd
  induction cs with
  | nil => exact List.not_mem_nil
  | cons c cs ih =>
    rw [escapeChars_cons, List.mem_append, not_or]
    refine ⟨?_, ih⟩
    rcases written_cases c with ⟨e, he, _, hc⟩ | ⟨hc, hc'⟩
    · exact hc ▸ hnone e he
    · rw [hc, List.mem_singleton]
      rintro rfl
      obtain ⟨e, he, heq⟩ := List.mem_map.1 hkey
      exact hc' e he heq.symm

theorem notMem_escapeChars_of_notMem (hentities : ∀ e ∈ entities, d ∉ e.2) (hd : d ∉ cs) : d ∉ escapeChars cs := by
  induction cs with
  | nil => exact List.not_mem_nil
  | cons c r ih =>
    rw [List.mem_cons, not_or] at hd
    rw [escapeChars_cons, List.mem_append, not_or]
    refine ⟨?_, ih hd.2⟩
    rcases written_cases c with ⟨e, he, _, hc⟩ | ⟨hc, _⟩
    · exact hc ▸ hentities e he
    · rw [hc, List.mem_singleton]
      exact hd.1

theorem toList_escape (s : String) : (escape s).toList = escapeChars s.toList := String.toList_ofList

theorem ended_inj {xs ys : List Char} (hxs : d ∉ xs) (hys : d ∉ ys) (h : xs ++ d :: as = ys ++ d :: bs) : xs = ys ∧ as = bs := by
  induction xs generalizing ys with
  | nil =>
    cases ys with
    | nil => exact ⟨rfl, (List.cons.inj h).2⟩
    | cons y ys => exact absurd (List.cons.inj h).1 (List.ne_of_not_mem_cons hys)
  | cons x xs ih =>
    cases ys with
    | nil => exact absurd (List.cons.inj h).1.symm (List.ne_of_not_mem_cons hxs)
    | cons y ys =>
      obtain ⟨rfl, hrest⟩ := List.cons.inj h
      obtain ⟨rfl, hend⟩ := ih (List.not_mem_of_not_mem_cons hxs) (List.not_mem_of_not_mem_cons hys) hrest
      exact ⟨rfl, hend⟩

end BehaviorTree.Xml
