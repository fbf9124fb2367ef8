import BehaviorTree.Logging.Setup
import Mathlib.Data.List.Infix

/-!
Names with dots. A logger lies in every namespace that its name goes on from at a dot; these are the names above it, each longer than the
next, so the first of them that has something is the longest.
-/

set_option autoImplicit false

namespace BehaviorTree

namespace Logging

/-- Is a logger that of the namespace, or one below it? -/
def LiesIn (space logger : String) : Prop := logger = space ∨ ∃ rest, logger = space ++ "." ++ rest

def above (logger : String) : List String := State.ancestors (Text.split '.' logger.toList)

variable {space other logger name : String}

theorem liesIn_iff : LiesIn space logger ↔ space.toList ++ ['.'] <+: logger.toList ++ ['.'] := by
  unfold LiesIn
  constructor
  · rintro (rfl | ⟨rest, rfl⟩)
    · exact List.prefix_refl _
    · exact ⟨rest.toList ++ ['.'], by simp⟩
  · rintro ⟨rest, hrest⟩
    rcases List.eq_nil_or_concat rest with rfl | ⟨rest, c, rfl⟩
    · rw [List.append_nil, List.append_cancel_right_eq] at hrest
      exact .inl (String.toList_inj.1 hrest).symm
    · rw [List.concat_eq_append, ← List.append_assoc] at hrest
      have hlogger := (List.append_inj' hrest rfl).1
      exact .inr ⟨String.ofList rest, String.toList_inj.1 (by simp [← hlogger])⟩

theorem LiesIn.of_length_lt (hspace : LiesIn space logger) (hother : LiesIn other logger) (h : space.length < other.length) :
    '.' ∈ other.toList := by
  rw [liesIn_iff] at hspace hother
  rw [← String.length_toList, ← String.length_toList] at h
  have hle : (space.toList ++ ['.']).length ≤ other.toList.length := by
    rw [List.length_append]
    exact h
  have hprefix := List.prefix_of_prefix_length_le hspace ((List.prefix_append _ _).trans hother) hle
  exact hprefix.subset (by simp)

theorem LiesIn.eq_of_length_eq (hspace : LiesIn space logger) (hother : LiesIn other logger) (h : space.length = other.length) :
    space = other := by
  rw [liesIn_iff] at hspace hother
  rw [← String.length_toList, ← String.length_toList] at h
  have hprefix := List.prefix_of_prefix_length_le hspace hother (by simp [h])
  have heq := hprefix.eq_of_length (by simp [h])
  exact String.toList_inj.1 (List.append_cancel_right heq)

theorem LiesIn.head?_eq (h : LiesIn space logger) (hne : space ≠ "") : logger.toList.head? = space.toList.head? := by
  have hlist : space.toList ≠ [] := fun hnil => hne (String.toList_inj.1 hnil)
  rcases h with rfl | ⟨rest, rfl⟩
  · rfl
  · simp [List.head?_append, List.head?_eq_some_head hlist]

theorem ancestors_cons (c : Char) (cs : List Char) :
    State.ancestors (Text.split '.' (c :: cs)) =
      (State.ancestors (Text.split '.' cs)).map (String.singleton c ++ ·) ++ if c = '.' then [""] else [] := by
  rw [Text.split]
  split_ifs with hc
  · subst hc
    rw [State.ancestors]
    congr 1
  · cases hparts : Text.split '.' cs with
    | nil => exact absurd hparts (Text.split_ne_nil _ _)
    | cons p r =>
      have hcons : String.ofList (c :: p) = String.singleton c ++ String.ofList p := String.ofList_cons ..
      simp [State.ancestors, Function.comp_def, hcons, String.append_assoc]

theorem mem_above : name ∈ above logger ↔ LiesIn name logger := by
  rw [liesIn_iff, above]
  induction logger.toList generalizing name with
  | nil => simp [Text.split, State.ancestors, List.prefix_cons_iff, String.toList_eq_nil_iff]
  | cons c cs ih =>
    rw [ancestors_cons, List.mem_append, List.mem_map, List.cons_append]
    constructor
    · rintro (⟨m, hm, rfl⟩ | hm)
      · have hprefix := ih.1 hm
        simpa using hprefix
      · split_ifs at hm with hc
        · obtain rfl := List.mem_singleton.1 hm
          simp [hc]
        · cases hm
    · intro h
      cases hname : name.toList with
      | nil =>
        rw [hname] at h
        have hc : '.' = c := (List.cons_prefix_cons.1 h).1
        exact .inr (by simp [← hc, String.toList_eq_nil_iff.1 hname])
      | cons d ds =>
        rw [hname] at h
        obtain ⟨rfl, hprefix⟩ := List.cons_prefix_cons.1 h
        have hds : String.ofList ds ∈ State.ancestors (Text.split '.' cs) := ih.2 (by rwa [String.toList_ofList])
        exact .inl ⟨_, hds, String.toList_inj.1 (by simp [hname])⟩

theorem above_descends (logger : String) : (above logger).Pairwise fun a b => b.length < a.length := by
  rw [above]
  induction logger.toList with
  | nil => simp [Text.split, State.ancestors]
  | cons c cs ih =>
    rw [ancestors_cons, List.pairwise_append]
    refine ⟨List.pairwise_map.2 (ih.imp fun h => by simpa using h), ?_, fun a ha b hb => ?_⟩
    · split_ifs <;> simp
    · obtain ⟨m, _, rfl⟩ := List.mem_map.1 ha
      split_ifs at hb with hc
      · obtain rfl := List.mem_singleton.1 hb
        rw [String.length_append, String.length_singleton, String.length_empty]
        omega
      · cases hb

/-- Along names that are ever shorter the longest that has something is found, and so none of the shorter ones. -/
theorem exists_nearest {α : Type} {as : List String} {f : String → Option α} (has : as.Pairwise fun a b => b.length < a.length)
    (hname : name ∈ as) (h : f name ≠ none) :
    ∃ a ∈ as, name.length ≤ a.length ∧ f a ≠ none ∧ as.findSome? f = f a := by
  induction as with
  | nil => cases hname
  | cons a r ih =>
    rw [List.pairwise_cons] at has
    cases ha : f a with
    | some x =>
      have hle : name.length ≤ a.length := by
        rcases List.mem_cons.1 hname with rfl | hname
        · exact Nat.le_refl _
        · exact Nat.le_of_lt (has.1 name hname)
      exact ⟨a, List.mem_cons_self, hle, by simp [ha], by simp [ha]⟩
    | none =>
      have hrest : name ∈ r := (List.mem_cons.1 hname).resolve_left fun he => h (he ▸ ha)
      obtain ⟨b, hb, hle, hsome, hfound⟩ := ih has.2 hrest
      exact ⟨b, List.mem_cons_of_mem _ hb, hle, hsome, by rw [List.findSome?_cons, ha, hfound]⟩

end Logging

end BehaviorTree
