import BehaviorTree.Proofs.Tree.EdgeRules

/-!
Graphs that the rules could have let come about. Connections can be inserted one by one, each accepted at that moment, exactly when
they form a forest and no limit is exceeded. Connections to nodes of unknown types count against a limit but are never refused for
it, so they had better come last.
-/

set_option autoImplicit false

namespace BehaviorTree.EdgeRules

variable {nodes : List Node} {lookup : String → String → Option NodeType} {cs ds ts us : List Connection} {c : Connection}
  {source target id : String}

/-- Connections in an order in which the rules accept one after the other, with nothing but the nodes to begin with. -/
inductive Builds (nodes : List Node) (lookup : String → String → Option NodeType) : List Connection → Prop
  | nil : Builds nodes lookup []
  | snoc (cs : List Connection) (c : Connection) (built : Builds nodes lookup cs)
      (accepted : check nodes cs lookup c.source c.target = .ok ()) : Builds nodes lookup (cs ++ [c])

def isTyped (nodes : List Node) (lookup : String → String → Option NodeType) (id : String) : Bool :=
  nodes.any fun n => n.id = id && (lookup n.type n.category).isSome

/-- The type of a node is known and limits its children. -/
def Limits (nodes : List Node) (lookup : String → String → Option NodeType) (id : String) (limit : Int) : Prop :=
  ∃ n ∈ nodes, n.id = id ∧ ∃ d, lookup n.type n.category = some d ∧ d.maxChildren = some limit

def typedChildren (nodes : List Node) (lookup : String → String → Option NodeType) (cs : List Connection) (id : String) :
    List Connection :=
  (outgoing cs id).filter fun c => isTyped nodes lookup c.target

/-- Does no node have more children of known types than its own type allows? -/
def FitsLimits (nodes : List Node) (lookup : String → String → Option NodeType) (cs : List Connection) : Prop :=
  ∀ c ∈ cs, isTyped nodes lookup c.target → ∀ limit, Limits nodes lookup c.source limit →
    (typedChildren nodes lookup cs c.source).length ≤ limit

theorem hasRoom_iff_limits : HasRoom nodes cs lookup source target ↔
    (isTyped nodes lookup target → ∀ limit, Limits nodes lookup source limit → ((outgoing cs source).length : Int) + 1 ≤ limit) := by
  have htyped : isTyped nodes lookup target ↔ ∃ n ∈ nodes, n.id = target ∧ ∃ e, lookup n.type n.category = some e := by
    simp [isTyped, Option.isSome_iff_exists]
  rw [htyped]
  constructor
  · rintro h ⟨t, ht, rfl, e, he⟩ limit ⟨s, hs, rfl, d, hd, hlimit⟩
    exact h s hs t ht rfl rfl d e hd he limit hlimit
  · intro h s hs t ht hsource htarget d e hd he limit hlimit
    exact h ⟨t, ht, htarget, e, he⟩ limit ⟨s, hs, hsource, d, hd, hlimit⟩

theorem outgoing_snoc : outgoing (cs ++ [c]) id = if c.source = id then outgoing cs id ++ [c] else outgoing cs id := by
  rw [outgoing, List.filter_append]
  split_ifs with h <;> simp [outgoing, h]

theorem typedChildren_snoc : typedChildren nodes lookup (cs ++ [c]) id =
    if c.source = id ∧ isTyped nodes lookup c.target then typedChildren nodes lookup cs id ++ [c]
    else typedChildren nodes lookup cs id := by
  rw [typedChildren, outgoing_snoc]
  by_cases hs : c.source = id
  · by_cases ht : isTyped nodes lookup c.target <;> simp [typedChildren, hs, ht]
  · simp [typedChildren, hs]

theorem length_typedChildren_le : (typedChildren nodes lookup cs id).length ≤ (outgoing cs id).length :=
  List.length_filter_le _ _

theorem FitsLimits.sublist (h : FitsLimits nodes lookup cs) (hs : ds.Sublist cs) : FitsLimits nodes lookup ds := by
  intro c hc ht limit hlimit
  have hfewer : (typedChildren nodes lookup ds c.source).length ≤ (typedChildren nodes lookup cs c.source).length :=
    ((hs.filter _).filter _).length_le
  have := h c (hs.subset hc) ht limit hlimit
  omega

theorem FitsLimits.perm (h : FitsLimits nodes lookup cs) (hp : ds.Perm cs) : FitsLimits nodes lookup ds := by
  intro c hc ht limit hlimit
  have hsame : (typedChildren nodes lookup ds c.source).length = (typedChildren nodes lookup cs c.source).length :=
    ((hp.filter _).filter _).length_eq
  rw [hsame]
  exact h c (hp.subset hc) ht limit hlimit

theorem Builds.isForest (hn : (nodes.map Node.id).Nodup) (h : Builds nodes lookup cs) : IsForest (nodes.map Node.id) cs := by
  induction h with
  | nil => exact isForest_nil
  | snoc cs c _ accepted ih => exact ((check_eq_ok_of_forest hn ih c.id).1 accepted).1

theorem Builds.fitsLimits (hn : (nodes.map Node.id).Nodup) (h : Builds nodes lookup cs) : FitsLimits nodes lookup cs := by
  induction h with
  | nil => exact fun c hc => absurd hc List.not_mem_nil
  | snoc cs c _ accepted ih =>
    obtain ⟨_, _, _, _, hroom, _⟩ := (check_eq_ok hn).1 accepted
    intro d hd ht limit hlimit
    rw [typedChildren_snoc]
    split_ifs with hnew
    · have hone := hasRoom_iff_limits.1 hroom hnew.2 limit (hnew.1 ▸ hlimit)
      have hfewer : (typedChildren nodes lookup cs d.source).length ≤ (outgoing cs c.source).length :=
        hnew.1 ▸ length_typedChildren_le
      rw [List.length_append, List.length_singleton]
      omega
    · rcases List.mem_append.1 hd with hd | hd
      · exact ih d hd ht limit hlimit
      · obtain rfl := List.mem_singleton.1 hd
        exact absurd ⟨rfl, ht⟩ hnew

theorem builds_of_typed (hn : (nodes.map Node.id).Nodup) (hf : IsForest (nodes.map Node.id) cs)
    (hl : FitsLimits nodes lookup cs) (ht : ∀ c ∈ cs, isTyped nodes lookup c.target) : Builds nodes lookup cs := by
  induction cs using List.reverseRecOn with
  | nil => exact .nil
  | append_singleton cs c ih =>
    have hsub : cs.Sublist (cs ++ [c]) := List.sublist_append_left cs [c]
    have hbuilt : Builds nodes lookup cs := ih (hf.sublist hsub) (hl.sublist hsub) fun d hd => ht d (hsub.subset hd)
    refine .snoc cs c hbuilt ((check_eq_ok_of_forest hn (hf.sublist hsub) c.id).2 ⟨hf, hasRoom_iff_limits.2 ?_⟩)
    intro hc limit hlimit
    have hall : typedChildren nodes lookup cs c.source = outgoing cs c.source :=
      List.filter_eq_self.2 fun d hd => ht d (hsub.subset (List.mem_of_mem_filter hd))
    have hfits := hl c (by simp) hc limit hlimit
    rw [typedChildren_snoc, if_pos ⟨rfl, hc⟩, hall, List.length_append, List.length_singleton] at hfits
    omega

theorem Builds.append_untyped (hn : (nodes.map Node.id).Nodup) (h : Builds nodes lookup ts)
    (hf : IsForest (nodes.map Node.id) (ts ++ us)) (hu : ∀ c ∈ us, ¬ isTyped nodes lookup c.target) :
    Builds nodes lookup (ts ++ us) := by
  induction us using List.reverseRecOn with
  | nil => rwa [List.append_nil]
  | append_singleton us c ih =>
    rw [← List.append_assoc] at hf ⊢
    have hprev : IsForest (nodes.map Node.id) (ts ++ us) := (isForest_snoc.1 hf).1
    have hbuilt : Builds nodes lookup (ts ++ us) := ih hprev fun d hd => hu d (List.mem_append_left _ hd)
    refine .snoc _ c hbuilt ((check_eq_ok_of_forest hn hprev c.id).2 ⟨hf, hasRoom_iff_limits.2 fun hc => ?_⟩)
    exact absurd hc (hu c (by simp))

theorem exists_order_iff (hn : (nodes.map Node.id).Nodup) : (∃ order : List Connection, order.Perm cs ∧ Builds nodes lookup order) ↔
    IsForest (nodes.map Node.id) cs ∧ FitsLimits nodes lookup cs := by
  constructor
  · rintro ⟨order, hp, hbuilt⟩
    exact ⟨(hbuilt.isForest hn).perm hp.symm, (hbuilt.fitsLimits hn).perm hp.symm⟩
  · rintro ⟨hf, hl⟩
    let typed (c : Connection) : Bool := isTyped nodes lookup c.target
    have hp : (cs.filter typed ++ cs.filter fun c => !typed c).Perm cs := List.filter_append_perm typed cs
    have hfirst : Builds nodes lookup (cs.filter typed) :=
      builds_of_typed hn (hf.sublist List.filter_sublist) (hl.sublist List.filter_sublist) fun c hc => (List.mem_filter.1 hc).2
    refine ⟨_, hp, hfirst.append_untyped hn (hf.perm hp) fun c hc => ?_⟩
    simpa using (List.mem_filter.1 hc).2

end BehaviorTree.EdgeRules
