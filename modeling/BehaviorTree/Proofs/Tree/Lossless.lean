import BehaviorTree.Proofs.Tree.Hierarchy
import BehaviorTree.Tree.Semantics

/-!
Which graphs their trees show whole. Every node and every connection has its place in the trees exactly if no id is led to from two
others and there is no cycle. The check of a tree asks for neither.
-/

set_option autoImplicit false

namespace BehaviorTree

open Relation

variable {nodes : List Node} {cs : List Connection} {ids : List String} {a b : String}

def OneSource (cs : List Connection) : Prop := ∀ c ∈ cs, ∀ d ∈ cs, c.target = d.target → c.source = d.source

namespace Tree

mutual

theorem sublist_of_edges (t : Tree) {e : String × String} (h : e ∈ t.edges) : [e.1, e.2].Sublist (t.walk.map Node.id) := by
  cases t with
  | branch n cs => exact sublist_of_edgesBelow n.id cs h

theorem sublist_of_edgesBelow (parent : String) (ts : List Tree) {e : String × String} (h : e ∈ edgesBelow parent ts) :
    [e.1, e.2].Sublist (parent :: (walkAll ts).map Node.id) := by
  cases ts with
  | nil => simp [edgesBelow] at h
  | cons t r =>
    rw [edgesBelow, List.mem_cons, List.mem_append] at h
    rw [walkAll, List.map_append]
    rcases h with rfl | h | h
    · have hroot : t.node.id ∈ t.walk.map Node.id := by
        rw [walk_eq]
        exact List.mem_cons_self
      exact (List.singleton_sublist.2 (List.mem_append_left _ hroot)).cons_cons _
    · exact ((sublist_of_edges t h).trans (List.sublist_append_left _ _)).cons _
    · exact (sublist_of_edgesBelow parent r h).trans ((List.sublist_append_right _ _).cons_cons _)

end

theorem sublist_of_edgesAll {ts : List Tree} {e : String × String} (h : e ∈ edgesAll ts) :
    [e.1, e.2].Sublist ((walkAll ts).map Node.id) := by
  induction ts with
  | nil => simp at h
  | cons t r ih =>
    rw [edgesAll_cons, List.mem_append] at h
    rw [walkAll, List.map_append]
    rcases h with h | h
    · exact (sublist_of_edges t h).trans (List.sublist_append_left _ _)
    · exact (ih h).trans (List.sublist_append_right _ _)

end Tree

theorem idxOf_lt_of_sublist (hn : ids.Nodup) (h : [a, b].Sublist ids) : ids.idxOf a < ids.idxOf b := by
  induction ids with
  | nil => simp at h
  | cons x r ih =>
    rw [List.nodup_cons] at hn
    cases h with
    | cons _ h =>
      have ha : a ≠ x := fun he => hn.1 (he ▸ h.subset List.mem_cons_self)
      have hb : b ≠ x := fun he => hn.1 (he ▸ h.subset (List.mem_cons_of_mem _ List.mem_cons_self))
      rw [List.idxOf_cons_ne _ ha.symm, List.idxOf_cons_ne _ hb.symm]
      exact Nat.succ_lt_succ (ih hn.2 h)
    | cons_cons _ h =>
      have hb : b ≠ a := fun he => hn.1 (he ▸ List.singleton_sublist.1 h)
      rw [List.idxOf_cons_self, List.idxOf_cons_ne _ hb.symm]
      exact Nat.succ_pos _

namespace Hierarchy

open BehaviorTree.Tree

/-- Do the trees of a graph hold every node exactly once and every connection? -/
def IsLossless (nodes : List Node) (cs : List Connection) : Prop :=
  (walkAll (forest nodes cs)).Perm nodes ∧ ∀ c ∈ cs, (c.source, c.target) ∈ edgesAll (forest nodes cs)

theorem oneSource_of_lossless (hn : (nodes.map Node.id).Nodup) (h : IsLossless nodes cs) : OneSource cs := by
  have hspans : Spans nodes cs (forest nodes cs) := forest_spans hn
  have hall := ((walkAll_perm (forest nodes cs)).map Node.id).nodup_iff.1 hspans.nodup
  rw [List.map_append, List.nodup_append, ← edgesAll_snd] at hall
  intro c hc d hd ht
  have hpair := List.inj_on_of_nodup_map hall.2.1 (h.2 c hc) (h.2 d hd) ht
  exact (Prod.mk.inj hpair).1

theorem acyclic_of_lossless (hn : (nodes.map Node.id).Nodup) (h : IsLossless nodes cs) : Acyclic cs := by
  have hspans : Spans nodes cs (forest nodes cs) := forest_spans hn
  exact Acyclic.of_rank (((walkAll (forest nodes cs)).map Node.id).idxOf ·) fun c hc =>
    idxOf_lt_of_sublist hspans.nodup (sublist_of_edgesAll (h.2 c hc))

theorem placed_of_acyclic (hn : (nodes.map Node.id).Nodup) (he : ∀ c ∈ cs, c.source ∈ nodes.map Node.id) (h : Acyclic cs) :
    ∀ b ∈ nodes.map Node.id, b ∈ (walkAll (forest nodes cs)).map Node.id := by
  have hspans : Spans nodes cs (forest nodes cs) := forest_spans hn
  refine h.induction fun b hb ih => ?_
  by_cases hroot : ∃ a, Leads cs a b
  · obtain ⟨_, c, hc, rfl, ht⟩ := hroot
    have hleads : Leads cs c.source b := ⟨c, hc, rfl, ht⟩
    exact hspans.closed _ b (ih _ (he c hc) hleads) hb hleads
  · obtain ⟨n, hmem, rfl⟩ := List.mem_map.1 hb
    have hn' : n ∈ Hierarchy.roots nodes cs := mem_roots.2 ⟨hmem, not_exists.1 hroot⟩
    rw [((walkAll_perm _).map Node.id).mem_iff, hspans.roots, List.map_append]
    exact List.mem_append_left _ (List.mem_map_of_mem hn')

theorem walkAll_perm_of_placed (hn : (nodes.map Node.id).Nodup)
    (h : ∀ b ∈ nodes.map Node.id, b ∈ (walkAll (forest nodes cs)).map Node.id) : (walkAll (forest nodes cs)).Perm nodes := by
  have hspans : Spans nodes cs (forest nodes cs) := forest_spans hn
  refine (List.perm_ext_iff_of_nodup hspans.nodup.of_map hn.of_map).2 fun n => ⟨fun hw => hspans.mem hw, fun hmem => ?_⟩
  obtain ⟨m, hw, hid⟩ := List.mem_map.1 (h n.id (List.mem_map_of_mem hmem))
  rwa [← List.inj_on_of_nodup_map hn (hspans.mem hw) hmem hid]

theorem mem_edges_of_placed (hn : (nodes.map Node.id).Nodup) (hs : OneSource cs) {c : Connection} (hc : c ∈ cs)
    (h : c.target ∈ (walkAll (forest nodes cs)).map Node.id) : (c.source, c.target) ∈ edgesAll (forest nodes cs) := by
  have hspans : Spans nodes cs (forest nodes cs) := forest_spans hn
  rw [((walkAll_perm _).map Node.id).mem_iff, hspans.roots, List.map_append, List.mem_append, ← edgesAll_snd] at h
  rcases h with h | h
  · obtain ⟨n, hroot, hid⟩ := List.mem_map.1 h
    exact absurd ⟨c, hc, rfl, hid.symm⟩ ((mem_roots.1 hroot).2 c.source)
  · obtain ⟨⟨p, t⟩, hp, ht⟩ := List.mem_map.1 h
    obtain ⟨_, d, hd, hds, hdt⟩ := hspans.edges _ hp
    have hsource := hs c hc d hd (ht.symm.trans hdt.symm)
    have hpair : (c.source, c.target) = (p, t) := Prod.ext (hsource.trans hds) ht.symm
    rwa [hpair]

/-- Whether the check accepts a graph or not, its trees show it whole exactly if no id is led to from two others and there is no
cycle. -/
theorem lossless_iff (nodes : List Node) (cs : List Connection) (hn : (nodes.map Node.id).Nodup)
    (he : ∀ c ∈ cs, c.source ∈ nodes.map Node.id ∧ c.target ∈ nodes.map Node.id) :
    IsLossless nodes cs ↔ OneSource cs ∧ Acyclic cs := by
  refine ⟨fun h => ⟨oneSource_of_lossless hn h, acyclic_of_lossless hn h⟩, fun ⟨hs, ha⟩ => ?_⟩
  have hplaced := placed_of_acyclic hn (fun c hc => (he c hc).1) ha
  exact ⟨walkAll_perm_of_placed hn hplaced, fun c hc => mem_edges_of_placed hn hs hc (hplaced _ (he c hc).2)⟩

def strayNodes : List Node :=
  [⟨"a", "AlwaysSuccess", "action", "", 0.0, 0.0, []⟩, ⟨"b", "Sequence", "composite", "", 0.0, 0.0, []⟩,
    ⟨"c", "Sequence", "composite", "", 0.0, 0.0, []⟩]

/-- On a chain the trees show the whole graph. -/
theorem chain_lossless :
    let cs : List Connection := [⟨"c1", "b", "c"⟩, ⟨"c2", "c", "a"⟩]
    let ids := strayNodes.map Node.id
    ids.Nodup ∧ (∀ c ∈ cs, c.source ∈ ids ∧ c.target ∈ ids) ∧ IsLossless strayNodes cs := by
  intro cs ids
  have hn : ids.Nodup := by decide
  have he : ∀ c ∈ cs, c.source ∈ ids ∧ c.target ∈ ids := by decide
  have hsource : OneSource cs := by
    unfold OneSource
    decide
  have hacyclic : Acyclic cs := Acyclic.of_rank (["b", "c", "a"].idxOf ·) (by decide)
  exact ⟨hn, he, (lossless_iff strayNodes cs hn he).2 ⟨hsource, hacyclic⟩⟩

/-- Two sequences that are each other's child are accepted beside a leaf, and no tree shows them. -/
theorem stray_cycle_lost :
    let cs : List Connection := [⟨"c1", "b", "c"⟩, ⟨"c2", "c", "b"⟩]
    let ids := strayNodes.map Node.id
    ids.Nodup ∧ (∀ c ∈ cs, c.source ∈ ids ∧ c.target ∈ ids) ∧
      (∀ singleRoot, Semantics.check strayNodes cs singleRoot = .ok ()) ∧ ¬ IsLossless strayNodes cs := by
  intro cs ids
  refine ⟨by decide, by decide, by decide, fun h => ?_⟩
  have hlength : (walkAll (forest strayNodes cs)).length = 1 := by decide +kernel
  rw [h.1.length_eq] at hlength
  cases hlength

end Hierarchy

end BehaviorTree
