import BehaviorTree.Proofs.Graph.Forest
import BehaviorTree.Tree.EdgeRules
import BehaviorTree.Catalog.Basic

/-!
The rules for new connections. The way up from a node finds whatever lies above it, however many connections there are, and on a
forest the rules accept a connection exactly when the graph stays a forest and the parent has room for one more child.
-/

set_option autoImplicit false

namespace BehaviorTree.EdgeRules

open Relation

variable {nodes : List Node} {cs ds : List Connection} {ids : List String} {a b source target : String}

def StepsUp (cs : List Connection) (a b : String) : Prop := parent? cs a = some b

theorem leads_of_stepsUp (h : StepsUp cs a b) : Leads cs b a := by
  obtain ⟨c, hc, rfl⟩ := Option.map_eq_some_iff.1 h
  have hca := List.find?_some hc
  exact ⟨c, List.mem_of_find?_eq_some hc, rfl, of_decide_eq_true hca⟩

theorem exists_stepsUp (h : Leads cs b a) : ∃ p, StepsUp cs a p := by
  obtain ⟨c, hc, _, hca⟩ := h
  have hsome : (cs.find? fun c => c.target = a).isSome := List.find?_isSome.2 ⟨c, hc, decide_eq_true hca⟩
  obtain ⟨d, hd⟩ := Option.isSome_iff_exists.1 hsome
  exact ⟨d.source, Option.map_eq_some_iff.2 ⟨d, hd, rfl⟩⟩

theorem climbs_succ (fuel : Nat) : climbs cs target (fuel + 1) a = true ↔
    a = target ∨ ∃ p, StepsUp cs a p ∧ climbs cs target fuel p = true := by
  rw [climbs]
  by_cases ha : a = target
  · simp [ha]
  · cases hp : parent? cs a with
    | none => simp [ha, StepsUp, hp]
    | some p => simp [ha, StepsUp, hp]

theorem reaches_of_climbs {fuel : Nat} (h : climbs cs target fuel a = true) : ReflTransGen (StepsUp cs) a target := by
  induction fuel generalizing a with
  | zero => simp [climbs] at h
  | succ fuel ih =>
    rcases (climbs_succ fuel).1 h with rfl | ⟨p, hp, h⟩
    · exact .refl
    · exact .head hp (ih h)

theorem climbs_of_le {fuel : Nat} (hs : StepsUp ds ≤ StepsUp cs) (h : climbs ds target fuel a = true) :
    climbs cs target fuel a = true := by
  induction fuel generalizing a with
  | zero => simp [climbs] at h
  | succ fuel ih =>
    rw [climbs_succ] at h ⊢
    exact h.imp_right fun ⟨p, hp, h⟩ => ⟨p, hs a p hp, ih h⟩

def without (cs : List Connection) (id : String) : List Connection := cs.filter fun c => c.target ≠ id

theorem parent?_without : parent? (without cs a) b = if b = a then none else parent? cs b := by
  unfold parent? without
  split_ifs with hb
  · have hnone : (cs.filter fun c => c.target ≠ a).find? (fun c => c.target = b) = none := by simp [hb]
    rw [hnone, Option.map_none]
  · rw [List.find?_filter]
    congr 2
    funext c
    by_cases hc : c.target = b <;> simp [hc, hb]

theorem stepsUp_without : StepsUp (without cs a) b source ↔ b ≠ a ∧ StepsUp cs b source := by
  unfold StepsUp
  rw [parent?_without]
  split_ifs with hb <;> simp [hb]

theorem length_without_lt (h : StepsUp cs a b) : (without cs a).length < cs.length := by
  obtain ⟨c, hc, _, hca⟩ := leads_of_stepsUp h
  exact List.length_filter_lt_length_iff_exists.2 ⟨c, hc, by simp [hca]⟩

theorem reaches_from_last_visit (h : ReflTransGen (StepsUp cs) a b) :
    a = b ∨ ∃ p, StepsUp cs a p ∧ ReflTransGen (StepsUp (without cs a)) p b := by
  induction h with
  | refl => exact .inl rfl
  | @tail x y _ hxy ih =>
    by_cases hx : x = a
    · exact .inr ⟨y, hx ▸ hxy, .refl⟩
    · rcases ih with rfl | ⟨p, hp, h⟩
      · exact absurd rfl hx
      · exact .inr ⟨p, hp, h.tail (stepsUp_without.2 ⟨hx, hxy⟩)⟩

/-- No way up is longer than the number of connections: each step spends the connections to the id it starts from. -/
theorem climbs_of_reaches (n : Nat) (hn : cs.length ≤ n) (h : ReflTransGen (StepsUp cs) a target) :
    climbs cs target (n + 1) a = true := by
  -- what lies above the first step never comes back to where it started, and needs fewer connections
  induction n generalizing cs a with
  | zero =>
    obtain rfl := List.eq_nil_of_length_eq_zero (Nat.le_zero.1 hn)
    rcases ReflTransGen.cases_head h with rfl | ⟨p, hp, _⟩
    · exact (climbs_succ 0).2 (.inl rfl)
    · simp [StepsUp, parent?] at hp
  | succ n ih =>
    rcases reaches_from_last_visit h with rfl | ⟨p, hp, h⟩
    · exact (climbs_succ _).2 (.inl rfl)
    · have hlen := length_without_lt hp
      have hclimbs := ih (by omega) h
      exact (climbs_succ _).2 (.inr ⟨p, hp, climbs_of_le (fun _ _ h => (stepsUp_without.1 h).2) hclimbs⟩)

theorem wouldClose_iff : wouldClose source target cs = true ↔ ReflTransGen (StepsUp cs) source target :=
  ⟨reaches_of_climbs, climbs_of_reaches cs.length (Nat.le_refl _)⟩

theorem stepsUp_iff (h : IsForest ids cs) : StepsUp cs a b ↔ Leads cs b a := by
  refine ⟨leads_of_stepsUp, fun hb => ?_⟩
  obtain ⟨p, hp⟩ := exists_stepsUp hb
  exact h.source_unique hb (leads_of_stepsUp hp) ▸ hp

theorem wouldClose_iff_of_forest (h : IsForest ids cs) :
    wouldClose source target cs = true ↔ ReflTransGen (Leads cs) target source := by
  have hswap : StepsUp cs = Function.swap (Leads cs) := funext₂ fun a b => propext (stepsUp_iff h)
  rw [wouldClose_iff, hswap, reflTransGen_swap]

/-- Where the types of both ends are known and the one of the source limits its children, is there room for one more? -/
def HasRoom (nodes : List Node) (cs : List Connection) (lookup : String → String → Option NodeType)
    (source target : String) : Prop :=
  ∀ s ∈ nodes, ∀ t ∈ nodes, s.id = source → t.id = target → ∀ d e, lookup s.type s.category = some d →
    lookup t.type t.category = some e → ∀ limit, d.maxChildren = some limit → (outgoing cs source).length + 1 ≤ limit

theorem childCount_eq : childCount cs a = (outgoing cs a).length := List.countP_eq_length_filter

theorem checkLimit_eq_ok {type : NodeType} {children : Nat} :
    checkLimit type children = .ok () ↔ ∀ limit, type.maxChildren = some limit → (children : Int) + 1 ≤ limit := by
  unfold checkLimit
  cases type.maxChildren with
  | none => simp
  | some limit =>
    simp only [Option.some.injEq, forall_eq']
    split_ifs with hzero hfull
    · simp; omega
    · simp; omega
    · simp; omega

theorem checkTypes_eq_ok {lookup : String → String → Option NodeType} {s t : Node} {children : Nat} :
    checkTypes lookup s t children = .ok () ↔
      ∀ d e, lookup s.type s.category = some d → lookup t.type t.category = some e →
        ∀ limit, d.maxChildren = some limit → (children : Int) + 1 ≤ limit := by
  unfold checkTypes
  split
  · rename_i d e hd he
    simp [hd, he, checkLimit_eq_ok]
  · rename_i hnone
    simp only [true_iff]
    exact fun d e hd he => (hnone d e hd he).elim

theorem hasRoom_iff {lookup : String → String → Option NodeType} {s t : Node} (hn : (nodes.map Node.id).Nodup)
    (hs : s ∈ nodes) (ht : t ∈ nodes) :
    HasRoom nodes cs lookup s.id t.id ↔ checkTypes lookup s t (childCount cs s.id) = .ok () := by
  rw [checkTypes_eq_ok, childCount_eq]
  refine ⟨fun h => h s hs t ht rfl rfl, fun h s' hs' t' ht' he hf => ?_⟩
  obtain rfl := List.inj_on_of_nodup_map hn hs' hs he
  obtain rfl := List.inj_on_of_nodup_map hn ht' ht hf
  exact h

theorem check_eq_ok {lookup : String → String → Option NodeType} (hn : (nodes.map Node.id).Nodup) :
    check nodes cs lookup source target = .ok () ↔
      source ∈ nodes.map Node.id ∧ target ∈ nodes.map Node.id ∧ source ≠ target ∧ target ∉ cs.map Connection.target ∧
        HasRoom nodes cs lookup source target ∧ wouldClose source target cs = false := by
  rw [← Hierarchy.find?_isSome, ← Hierarchy.find?_isSome]
  unfold check
  cases hs : Hierarchy.find? nodes source with
  | none => simp
  | some s =>
    cases ht : Hierarchy.find? nodes target with
    | none => simp
    | some t =>
      obtain ⟨hsmem, rfl⟩ := Hierarchy.find?_mem hs
      obtain ⟨htmem, rfl⟩ := Hierarchy.find?_mem ht
      have hroom : HasRoom nodes cs lookup s.id t.id ↔ _ := hasRoom_iff hn hsmem htmem
      by_cases hst : s.id = t.id
      · simp [hst]
      by_cases hp : t.id ∈ cs.map Connection.target
      · have hany : (cs.any fun c => c.target = t.id) = true := by simpa using hp
        simp only [hst, ↓reduceIte, hany, hp]
        simp
      have hany : (cs.any fun c => c.target = t.id) = false := by
        simpa using hp
      simp only [hst, ↓reduceIte, hany, Bool.false_eq_true]
      cases hc : checkTypes lookup s t (childCount cs s.id) with
      | error r =>
        have hno : ¬ HasRoom nodes cs lookup s.id t.id := fun h => by simp [hroom.1 h] at hc
        simp [hno]
      | ok u =>
        have hyes := hroom.2 hc
        cases hw : wouldClose s.id t.id cs <;> simp [hst, hp, hyes]

theorem check_eq_ok_of_forest {lookup : String → String → Option NodeType} (hn : (nodes.map Node.id).Nodup)
    (h : IsForest (nodes.map Node.id) cs) (id : String) :
    check nodes cs lookup source target = .ok () ↔
      IsForest (nodes.map Node.id) (cs ++ [⟨id, source, target⟩]) ∧ HasRoom nodes cs lookup source target := by
  rw [check_eq_ok hn, isForest_snoc, ← Bool.not_eq_true, wouldClose_iff_of_forest h]
  constructor
  · rintro ⟨hs, ht, _, hp, hroom, hts⟩
    exact ⟨⟨h, hs, ht, hp, hts⟩, hroom⟩
  · rintro ⟨⟨_, hs, ht, hp, hts⟩, hroom⟩
    refine ⟨hs, ht, ?_, hp, hroom, hts⟩
    rintro rfl
    exact hts .refl

/-- The rules are exact on forests: they accept a connection between nodes if and only if the graph stays a forest with it and, where
both types are known and the number of children is limited, the parent has room for one child more. -/
theorem accepts_iff_stays_forest (nodes : List Node) (cs : List Connection) (lookup : String → String → Option NodeType)
    (source target id : String) (hn : (nodes.map Node.id).Nodup) (h : IsForest (nodes.map Node.id) cs) :
    check nodes cs lookup source target = .ok () ↔
      source ∈ nodes.map Node.id ∧ target ∈ nodes.map Node.id ∧
        IsForest (nodes.map Node.id) (cs ++ [⟨id, source, target⟩]) ∧ HasRoom nodes cs lookup source target := by
  rw [check_eq_ok_of_forest hn h id]
  refine ⟨fun ⟨hf, hroom⟩ => ?_, fun ⟨_, _, hf, hroom⟩ => ⟨hf, hroom⟩⟩
  have hends := hf.ends ⟨id, source, target⟩ (by simp)
  exact ⟨hends.1, hends.2, hf, hroom⟩

def inverterNodes : List Node :=
  [⟨"s", "Sequence", "composite", "", 0.0, 0.0, []⟩, ⟨"i", "Inverter", "decorator", "", 0.0, 0.0, []⟩,
    ⟨"a", "AlwaysSuccess", "action", "", 0.0, 0.0, []⟩, ⟨"b", "AlwaysFailure", "action", "", 0.0, 0.0, []⟩]

/-- With the built-in types the inverter has no room for the second leaf, and the sequence has. -/
theorem inverter_takes_one_child :
    let cs : List Connection := [⟨"c1", "s", "i"⟩, ⟨"c2", "i", "a"⟩]
    let ids := inverterNodes.map Node.id
    let find := Catalog.standard.find? []
    ids.Nodup ∧ IsForest ids cs ∧ check inverterNodes cs find "i" "b" ≠ .ok () ∧
      IsForest ids (cs ++ [⟨"c3", "s", "b"⟩]) ∧ HasRoom inverterNodes cs find "s" "b" := by
  intro cs ids find
  have hn : ids.Nodup := by decide
  have hempty : IsForest ids [] := isForest_nil
  have hone : IsForest ids [⟨"c1", "s", "i"⟩] :=
    ((accepts_iff_stays_forest inverterNodes [] find "s" "i" "c1" hn hempty).1 (by decide +kernel)).2.2.1
  have hcs : IsForest ids cs :=
    ((accepts_iff_stays_forest inverterNodes _ find "i" "a" "c2" hn hone).1 (by decide +kernel)).2.2.1
  have hb := (accepts_iff_stays_forest inverterNodes cs find "s" "b" "c3" hn hcs).1 (by decide +kernel)
  exact ⟨hn, hcs, by decide +kernel, hb.2.2.1, hb.2.2.2⟩

end BehaviorTree.EdgeRules
