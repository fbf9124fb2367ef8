import BehaviorTree.Graph.Node
import Mathlib.Data.Fintype.EquivFin
import Mathlib.Data.List.Nodup
import Mathlib.Logic.Relation

/-!
Forests. Connections form a forest over ids when both ends of each are among the ids, no id is the target of two connections, and
no way along connections comes back to where it started. A forest stays one when a root is hung below a node that is not below
it, and when some of its nodes are copied together with the connections among them.
-/

set_option autoImplicit false

namespace BehaviorTree

open Relation

def Leads (cs : List Connection) (a b : String) : Prop := ∃ c ∈ cs, c.source = a ∧ c.target = b

def Acyclic (cs : List Connection) : Prop := ∀ id, ¬ TransGen (Leads cs) id id

structure IsForest (ids : List String) (cs : List Connection) : Prop where
  ends : ∀ c ∈ cs, c.source ∈ ids ∧ c.target ∈ ids
  oneParent : (cs.map Connection.target).Nodup
  acyclic : Acyclic cs

/-- Do the ids differ, do the connections have ids that differ, and does each connection run between two of the ids? -/
structure IsConsistent (ids : List String) (cs : List Connection) : Prop where
  nodup : ids.Nodup
  connections : (cs.map Connection.id).Nodup
  ends : ∀ c ∈ cs, c.source ∈ ids ∧ c.target ∈ ids

def outgoing (cs : List Connection) (id : String) : List Connection := cs.filter fun c => c.source = id

variable {ids : List String} {cs ds : List Connection} {c : Connection} {a b : String}

theorem leads_mono (h : cs ⊆ ds) : Leads cs ≤ Leads ds := by
  rintro a b ⟨c, hc, ha, hb⟩
  exact ⟨c, h hc, ha, hb⟩

theorem Acyclic.mono (h : Acyclic ds) (hs : cs ⊆ ds) : Acyclic cs := fun id hid =>
  h id (TransGen.mono (leads_mono hs) _ _ hid)

theorem Acyclic.of_map (f : String → String) (hf : ∀ c ∈ ds, Leads cs (f c.source) (f c.target)) (h : Acyclic cs) :
    Acyclic ds := by
  intro id hid
  refine h (f id) (TransGen.lift f ?_ _ _ hid)
  rintro a b ⟨c, hc, rfl, rfl⟩
  exact hf c hc

theorem Acyclic.of_rank (rank : String → Nat) (h : ∀ c ∈ cs, rank c.source < rank c.target) : Acyclic cs := by
  have hlater : ∀ a b, TransGen (Leads cs) a b → rank a < rank b := by
    intro a b hab
    induction hab with
    | single hab =>
      obtain ⟨c, hc, rfl, rfl⟩ := hab
      exact h c hc
    | tail _ hab ih =>
      obtain ⟨c, hc, rfl, rfl⟩ := hab
      exact ih.trans (h c hc)
  exact fun id hid => lt_irrefl _ (hlater id id hid)

/-- What holds of an id when it holds of all ids directly above it holds of every id: without cycles, the ways up end. -/
theorem Acyclic.induction (h : Acyclic cs) {P : String → Prop}
    (step : ∀ b ∈ ids, (∀ a ∈ ids, Leads cs a b → P a) → P b) : ∀ b ∈ ids, P b := by
  let above (a b : { id // id ∈ ids }) : Prop := TransGen (Leads cs) a b
  have htrans : IsTrans _ above := ⟨fun _ _ _ => TransGen.trans⟩
  have hirrefl : Std.Irrefl above := ⟨fun a => h a⟩
  have hwf : WellFounded above := Finite.wellFounded_of_trans_of_irrefl above
  intro b hb
  exact hwf.induction (C := fun b => P b) ⟨b, hb⟩ fun b ih => step b b.2 fun a ha hab => ih ⟨a, ha⟩ (.single hab)

theorem leads_snoc : Leads (cs ++ [c]) a b ↔ Leads cs a b ∨ c.source = a ∧ c.target = b := by
  simp [Leads, or_and_right, exists_or]

/-- A way along one more connection uses it or not; if it does, it comes to its source and goes on from its target. -/
theorem transGen_snoc (h : TransGen (Leads (cs ++ [c])) a b) :
    TransGen (Leads cs) a b ∨ ReflTransGen (Leads cs) a c.source ∧ ReflTransGen (Leads cs) c.target b := by
  induction h with
  | single h =>
    rcases leads_snoc.1 h with h | ⟨rfl, rfl⟩
    · exact .inl (.single h)
    · exact .inr ⟨.refl, .refl⟩
  | tail _ h ih =>
    rcases leads_snoc.1 h with h | ⟨rfl, rfl⟩
    · exact ih.imp (·.tail h) fun ⟨hs, ht⟩ => ⟨hs, ht.tail h⟩
    · rcases ih with ih | ⟨hs, _⟩
      · exact .inr ⟨ih.to_reflTransGen, .refl⟩
      · exact .inr ⟨hs, .refl⟩

theorem acyclic_snoc : Acyclic (cs ++ [c]) ↔ Acyclic cs ∧ ¬ ReflTransGen (Leads cs) c.target c.source := by
  have hsub : cs ⊆ cs ++ [c] := List.subset_append_left cs [c]
  constructor
  · refine fun h => ⟨h.mono hsub, fun hts => h c.source ?_⟩
    have hstep : Leads (cs ++ [c]) c.source c.target := leads_snoc.2 (.inr ⟨rfl, rfl⟩)
    exact .head' hstep (ReflTransGen.mono (leads_mono hsub) _ _ hts)
  · rintro ⟨h, hts⟩ id hid
    rcases transGen_snoc hid with hid | ⟨hs, ht⟩
    · exact h id hid
    · exact hts (ht.trans hs)

/-- A connection keeps a forest exactly when its target is a root that does not lie above its source. -/
theorem isForest_snoc : IsForest ids (cs ++ [c]) ↔
    IsForest ids cs ∧ c.source ∈ ids ∧ c.target ∈ ids ∧ c.target ∉ cs.map Connection.target ∧
      ¬ ReflTransGen (Leads cs) c.target c.source := by
  constructor
  · rintro ⟨he, hp, ha⟩
    rw [List.map_append, List.map_singleton, List.nodup_append_comm, List.singleton_append, List.nodup_cons] at hp
    rw [acyclic_snoc] at ha
    have hc := he c (by simp)
    exact ⟨⟨fun d hd => he d (List.mem_append_left _ hd), hp.2, ha.1⟩, hc.1, hc.2, hp.1, ha.2⟩
  · rintro ⟨h, hs, ht, hp, hts⟩
    refine ⟨?_, ?_, acyclic_snoc.2 ⟨h.acyclic, hts⟩⟩
    · intro d hd
      rcases List.mem_append.1 hd with hd | hd
      · exact h.ends d hd
      · rw [List.mem_singleton.1 hd]
        exact ⟨hs, ht⟩
    · rw [List.map_append, List.map_singleton, List.nodup_append_comm, List.singleton_append, List.nodup_cons]
      exact ⟨hp, h.oneParent⟩

theorem IsForest.sublist (h : IsForest ids cs) (hs : ds.Sublist cs) : IsForest ids ds where
  ends c hc := h.ends c (hs.subset hc)
  oneParent := h.oneParent.sublist (hs.map _)
  acyclic := h.acyclic.mono hs.subset

theorem IsForest.perm (h : IsForest ids cs) (hp : ds.Perm cs) : IsForest ids ds where
  ends c hc := h.ends c (hp.subset hc)
  oneParent := (hp.map _).nodup_iff.2 h.oneParent
  acyclic := h.acyclic.mono hp.subset

theorem isForest_nil : IsForest ids [] := by
  refine ⟨by simp, by simp, fun id h => ?_⟩
  obtain ⟨_, h, _⟩ := TransGen.head'_iff.1 h
  simp [Leads] at h

theorem IsForest.source_unique (h : IsForest ids cs) {p q : String} (hp : Leads cs p a) (hq : Leads cs q a) : p = q := by
  obtain ⟨c, hc, rfl, hca⟩ := hp
  obtain ⟨d, hd, rfl, hda⟩ := hq
  rw [List.inj_on_of_nodup_map h.oneParent hc hd (hca.trans hda.symm)]

def Connection.ends (c : Connection) : String × String := (c.source, c.target)

def copiedEnds (copy : String → Option String) (c : Connection) : Option (String × String) :=
  match copy c.source, copy c.target with
  | some x, some y => some (x, y)
  | _, _ => none

structure IsCopying (cs : List Connection) (copy : String → Option String) : Prop where
  injective : ∀ a b x, copy a = some x → copy b = some x → a = b
  loose : ∀ a x, copy a = some x → ∀ c ∈ cs, c.source ≠ x ∧ c.target ≠ x

def CopiedFrom (copy : String → Option String) (cs ds : List Connection) : Prop :=
  (ds.map Connection.ends).Sublist (cs.filterMap (copiedEnds copy))

variable {copy : String → Option String} {x y : String}

theorem copiedEnds_eq_some : copiedEnds copy c = some (x, y) ↔ copy c.source = some x ∧ copy c.target = some y := by
  unfold copiedEnds
  split <;> simp_all

theorem CopiedFrom.exists_original {d : Connection} (h : CopiedFrom copy cs ds) (hd : d ∈ ds) :
    ∃ c ∈ cs, copy c.source = some d.source ∧ copy c.target = some d.target := by
  have hmem := h.subset (List.mem_map_of_mem (f := Connection.ends) hd)
  obtain ⟨c, hc, he⟩ := List.mem_filterMap.1 hmem
  exact ⟨c, hc, copiedEnds_eq_some.1 he⟩

theorem IsCopying.exists_origin (h : IsCopying cs copy) :
    ∃ origin : String → String, (∀ a x, copy a = some x → origin x = a) ∧
      ∀ x, (∀ a, copy a ≠ some x) → origin x = x := by
  classical
  refine ⟨fun x => if hx : ∃ a, copy a = some x then hx.choose else x, fun a x hax => ?_, fun x hx => ?_⟩
  · have hx : ∃ a, copy a = some x := ⟨a, hax⟩
    simp only [hx, ↓reduceDIte]
    exact h.injective _ _ _ hx.choose_spec hax
  · exact dif_neg (not_exists.2 hx)

theorem IsCopying.targets_nodup (h : IsCopying cs copy) (hd : CopiedFrom copy cs ds)
    (hn : (cs.map Connection.target).Nodup) : (ds.map Connection.target).Nodup := by
  have himages : ((cs.filterMap (copiedEnds copy)).map Prod.snd).Nodup := by
    rw [List.Nodup, List.pairwise_map, List.pairwise_filterMap]
    refine (List.pairwise_map.1 hn).imp fun {c d} hcd p hp q hq hpq => hcd ?_
    have hc := (copiedEnds_eq_some.1 hp).2
    have hd := (copiedEnds_eq_some.1 hq).2
    exact h.injective _ _ _ hc (hpq ▸ hd)
  have hsnd : ds.map Connection.target = (ds.map Connection.ends).map Prod.snd := by simp [Connection.ends]
  rw [hsnd]
  exact himages.sublist (hd.map _)

/-- Copied connections lie between copies only, so that a cycle among them would be a cycle among their originals. -/
theorem IsForest.append_copies (h : IsForest ids cs) (hc : IsCopying cs copy) (hd : CopiedFrom copy cs ds)
    (hids : ∀ a x, copy a = some x → x ∈ ids) : IsForest ids (cs ++ ds) where
  ends := by
    intro d hmem
    rcases List.mem_append.1 hmem with hmem | hmem
    · exact h.ends d hmem
    · obtain ⟨c, _, hs, ht⟩ := hd.exists_original hmem
      exact ⟨hids _ _ hs, hids _ _ ht⟩
  oneParent := by
    rw [List.map_append, List.nodup_append]
    refine ⟨h.oneParent, hc.targets_nodup hd h.oneParent, ?_⟩
    rintro _ ht _ hu rfl
    obtain ⟨c, hcs, hct⟩ := List.mem_map.1 ht
    obtain ⟨d, hds, hdt⟩ := List.mem_map.1 hu
    obtain ⟨e, _, _, he⟩ := hd.exists_original hds
    exact (hc.loose _ _ he c hcs).2 (hct.trans hdt.symm)
  acyclic := by
    obtain ⟨origin, horigin, hother⟩ := hc.exists_origin
    refine h.acyclic.of_map origin fun d hmem => ?_
    rcases List.mem_append.1 hmem with hmem | hmem
    · have hs := hother d.source fun a ha => (hc.loose a _ ha d hmem).1 rfl
      have ht := hother d.target fun a ha => (hc.loose a _ ha d hmem).2 rfl
      exact ⟨d, hmem, hs.symm, ht.symm⟩
    · obtain ⟨c, hcs, hs, ht⟩ := hd.exists_original hmem
      exact ⟨c, hcs, (horigin _ _ hs).symm, (horigin _ _ ht).symm⟩

theorem IsCopying.outgoing_copy_le (hc : IsCopying cs copy) (hd : CopiedFrom copy cs ds) (hx : copy a = some x) :
    (outgoing (cs ++ ds) x).length ≤ (outgoing cs a).length := by
  have hnone : outgoing cs x = [] := by
    simpa [outgoing, List.filter_eq_nil_iff] using fun c hcs => (hc.loose a x hx c hcs).1
  have hsources : (outgoing ds x).length = (ds.map Connection.ends).countP (·.1 = x) := by
    rw [List.countP_map, outgoing, ← List.countP_eq_length_filter]
    rfl
  calc (outgoing (cs ++ ds) x).length
      = (outgoing ds x).length := by
        rw [outgoing, List.filter_append, ← outgoing, hnone, List.nil_append, ← outgoing]
    _ ≤ (cs.filterMap (copiedEnds copy)).countP (·.1 = x) := hsources ▸ hd.countP_le
    _ ≤ cs.countP (·.source = a) := by
        rw [List.countP_filterMap]
        refine List.countP_mono_left fun c _ h => ?_
        cases he : copiedEnds copy c with
        | none => simp [he] at h
        | some p =>
          have hp : p.1 = x := by simpa [he] using h
          have hs := (copiedEnds_eq_some.1 he).1
          exact decide_eq_true (hc.injective _ _ _ (hp ▸ hs) hx)
    _ = (outgoing cs a).length := List.countP_eq_length_filter

theorem CopiedFrom.outgoing_append (hd : CopiedFrom copy cs ds) (hx : ∀ a, copy a ≠ some x) :
    outgoing (cs ++ ds) x = outgoing cs x := by
  have hnone : outgoing ds x = [] := by
    rw [outgoing, List.filter_eq_nil_iff]
    intro d hds h
    obtain ⟨c, _, hs, _⟩ := hd.exists_original hds
    exact hx c.source (hs.trans (congrArg some (of_decide_eq_true h)))
  rw [outgoing, List.filter_append, ← outgoing, ← outgoing, hnone, List.append_nil]

end BehaviorTree
