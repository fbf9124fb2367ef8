import BehaviorTree.Proofs.Tree.EdgeRules
import BehaviorTree.Proofs.Tree.Lossless

/-!
Second parents. The way up follows the first connection to a node and no other, so that the rules miss an ancestor that lies above
a second parent only. Where the connections to a node come from one source, they miss none, and there may be cycles elsewhere.
-/

set_option autoImplicit false

namespace BehaviorTree.EdgeRules

open Relation

variable {cs : List Connection} {a b source target id : String}

theorem climbs_or_leaves (h : ReflTransGen (Leads cs) target source) :
    ReflTransGen (StepsUp cs) source target ∨
      ∃ a b, ReflTransGen (StepsUp cs) source a ∧ ReflTransGen (Leads cs) target b ∧ Leads cs b a ∧ ¬ StepsUp cs a b := by
  -- the way is followed back from its end
  induction h with
  | refl => exact .inl .refl
  | @tail p a hp hpa ih =>
    by_cases hfirst : StepsUp cs a p
    · refine ih.imp (.head hfirst) ?_
      rintro ⟨x, y, hx, hy⟩
      exact ⟨x, y, .head hfirst hx, hy⟩
    · exact .inr ⟨a, p, .refl, hp, hpa, hfirst⟩

theorem leads_of_climbs (h : ReflTransGen (StepsUp cs) a b) : ReflTransGen (Leads cs) b a := by
  induction h with
  | refl => exact .refl
  | tail _ hstep ih => exact .head (leads_of_stepsUp hstep) ih

theorem reaches_snoc_iff : ReflTransGen (Leads (cs ++ [⟨id, source, target⟩])) target source ↔
    ReflTransGen (Leads cs) target source := by
  refine ⟨fun h => ?_, ReflTransGen.mono (leads_mono (List.subset_append_left cs _)) _ _⟩
  rcases reflTransGen_iff_eq_or_transGen.1 h with rfl | h
  · exact .refl
  · rcases transGen_snoc h with h | ⟨h, _⟩
    · exact h.to_reflTransGen
    · exact h

/-- Does every way from the target that comes to an ancestor of the source by first parents come to it from its first parent? -/
def OnlyFirstParents (cs : List Connection) (source target : String) : Prop :=
  ∀ a b, ReflTransGen (StepsUp cs) source a → ReflTransGen (Leads cs) target b → Leads cs b a → StepsUp cs a b

theorem onlyFirstParents_of_oneSource (h : OneSource cs) : OnlyFirstParents cs source target := by
  intro a b _ _ hba
  obtain ⟨p, hp⟩ := exists_stepsUp hba
  obtain ⟨c, hc, hcp, hca⟩ := leads_of_stepsUp hp
  obtain ⟨d, hd, rfl, hda⟩ := hba
  rw [← h c hc d hd (hca.trans hda.symm), hcp]
  exact hp

/-- Whatever graph it is, an accepted connection lies on no cycle if and only if all that lies above its source by first parents is
reached from its target through first parents. That is so in every graph in which the connections to a node come from one source. -/
theorem accepted_on_no_cycle_iff (nodes : List Node) (cs : List Connection) (lookup : String → String → Option NodeType)
    (source target id : String) (hn : (nodes.map Node.id).Nodup) (h : check nodes cs lookup source target = .ok ()) :
    (¬ ReflTransGen (Leads (cs ++ [⟨id, source, target⟩])) target source ↔ OnlyFirstParents cs source target) ∧
      (OneSource cs → ¬ ReflTransGen (Leads (cs ++ [⟨id, source, target⟩])) target source) := by
  have hclimbs : ¬ ReflTransGen (StepsUp cs) source target := by
    obtain ⟨_, _, _, _, _, hopen⟩ := (check_eq_ok hn).1 h
    rw [← wouldClose_iff, hopen]
    exact Bool.false_ne_true
  rw [reaches_snoc_iff]
  have hiff : ¬ ReflTransGen (Leads cs) target source ↔ OnlyFirstParents cs source target := by
    constructor
    · intro hno a b ha hb hba
      exact absurd (hb.trans (.head hba (leads_of_climbs ha))) hno
    · intro hfirst hreach
      rcases climbs_or_leaves hreach with hup | ⟨a, b, ha, hb, hba, hother⟩
      · exact hclimbs hup
      · exact hother (hfirst a b ha hb hba)
  exact ⟨hiff, fun hone => hiff.2 (onlyFirstParents_of_oneSource hone)⟩

def sequences : List Node :=
  ["a", "b", "s", "t"].map fun id => ⟨id, "Sequence", "composite", "", 0.0, 0.0, []⟩

/-- Two nodes that are each other's child do not stand in the way of a connection between two others. -/
theorem accepted_beside_cycle :
    let cs : List Connection := [⟨"c1", "a", "b"⟩, ⟨"c2", "b", "a"⟩, ⟨"c3", "b", "s"⟩]
    (sequences.map Node.id).Nodup ∧ check sequences cs (Catalog.standard.find? []) "s" "t" = .ok () ∧
      ¬ ReflTransGen (Leads (cs ++ [⟨"c4", "s", "t"⟩])) "t" "s" := by
  intro cs
  have hn : (sequences.map Node.id).Nodup := by decide
  have haccepted : check sequences cs (Catalog.standard.find? []) "s" "t" = .ok () := by decide +kernel
  have hone : OneSource cs := by
    unfold OneSource
    decide
  exact ⟨hn, haccepted, (accepted_on_no_cycle_iff sequences cs _ "s" "t" "c4" hn haccepted).2 hone⟩

/-- A node with two parents of which the first is a root may become the parent of the second, and that closes a cycle. -/
theorem second_parent_missed :
    let cs : List Connection := [⟨"c1", "a", "s"⟩, ⟨"c2", "t", "s"⟩]
    (sequences.map Node.id).Nodup ∧ (∀ c ∈ cs, c.source ∈ sequences.map Node.id ∧ c.target ∈ sequences.map Node.id) ∧
      check sequences cs (Catalog.standard.find? []) "s" "t" = .ok () ∧ ReflTransGen (Leads cs) "t" "s" := by
  intro cs
  have hleads : Leads cs "t" "s" := ⟨⟨"c2", "t", "s"⟩, by decide, rfl, rfl⟩
  exact ⟨by decide, by decide, by decide +kernel, .single hleads⟩

end BehaviorTree.EdgeRules
