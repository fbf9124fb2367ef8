import BehaviorTree.Proofs.Session.Core
import BehaviorTree.Session.Nodes

/-!
Cloning. Nodes are cloned one after the other, and the connections among them are repeated afterwards. The rules for new
connections are not asked; what makes up for it is that a clone is a twin of its original and no connection touches it yet.
-/

set_option autoImplicit false

namespace BehaviorTree

/-- Is a node like another in all but its id and its place, with a mark behind the name? -/
structure Node.IsCloneOf (m n : Node) : Prop where
  type : m.type = n.type
  category : m.category = n.category
  name : m.name = n.name ++ " (copy)"
  properties : m.properties = n.properties

namespace Session

open Relation Content

variable {s t : Session} {n m : Node} {id new : String} {offsetX offsetY : Value} {clones : Table String}

structure Clones (g : Graph) (clones : Table String) : Prop where
  copying : IsCopying g.connectionList (Table.lookup clones)
  twins : ∀ a x, Table.lookup clones a = some x → Twins g a x

theorem clones_nil (g : Graph) : Clones g [] := ⟨⟨by simp, by simp⟩, by simp⟩

theorem twins_addNode {g : Graph} {a x : String} (h : Twins g a x) : Twins (g.addNode m) a x := by
  obtain ⟨n, hn, p, hp, h⟩ := h
  exact ⟨n, by simp [hn], p, by simp [hp], h⟩

theorem Clones.insert {g : Graph} (h : Clones g clones) (hs : g.IsSound) (hn : n ∈ g.nodeList) (hfresh : m.id ∉ Table.keys g.nodes)
    (hclone : m.IsCloneOf n) : Clones (g.addNode m) (Table.insert clones n.id m.id) := by
  rw [← hs.ids_eq_keys] at hfresh
  -- an id that is new belongs to no clone noted before
  have hold : ∀ a x, Table.lookup clones a = some x → x ≠ m.id := fun a x hx he =>
    hfresh (he ▸ (twins_mem h.twins hx).2)
  refine ⟨⟨fun a b x ha hb => ?_, fun a x ha c hc => ?_⟩, fun a x ha => ?_⟩
  · rw [Table.lookup_insert] at ha hb
    split_ifs at ha hb with hna hnb hnb
    · exact hna.symm.trans hnb
    · exact absurd (Option.some.inj ha).symm (hold b x hb)
    · exact absurd (Option.some.inj hb).symm (hold a x ha)
    · exact h.copying.injective a b x ha hb
  · rw [Table.lookup_insert] at ha
    split_ifs at ha with hna
    · obtain rfl := Option.some.inj ha
      obtain ⟨hsource, htarget⟩ := hs.ends c hc
      exact ⟨fun he => hfresh (he ▸ hsource), fun he => hfresh (he ▸ htarget)⟩
    · exact h.copying.loose a x ha c hc
  · rw [Table.lookup_insert] at ha
    split_ifs at ha with hna
    · obtain rfl := Option.some.inj ha
      exact ⟨n, by simp [hn], m, by simp, hna, rfl, hclone.type.symm, hclone.category.symm⟩
    · exact twins_addNode (h.twins a x ha)

theorem cloneOf_eq_ok {g : GridSettings} (h : cloneOf g n new offsetX offsetY = .ok m) :
    m.id = new ∧ m.IsCloneOf n := by
  obtain ⟨x, _, h⟩ := bind_eq_ok.1 h
  obtain ⟨y, _, h⟩ := bind_eq_ok.1 h
  obtain rfl := Except.ok.inj h
  exact ⟨rfl, rfl, rfl, rfl, rfl⟩

theorem edited_cloneNode : Edited s (s.cloneNode id offsetX offsetY).2 := by
  unfold cloneNode
  split
  · exact edited_refl s
  · rename_i n hn
    split
    · rename_i hissue
      exact edited_issueNodeId hissue
    · rename_i new t hissue
      split
      · exact edited_issueNodeId hissue
      · rename_i m hm
        have hw := nodeIds_writable hissue
        obtain ⟨rfl, rfl⟩ := issueNodeId_eq_ok hissue
        obtain ⟨hid, hclone⟩ := cloneOf_eq_ok hm
        exact edited_of_step fun _ =>
          Store.step_addNode hid hw (.inr ⟨n, Table.value_mem hn, hclone.type.symm, hclone.category.symm⟩)

theorem cloneNode_eq_none (h : s.cloneNode id offsetX offsetY = (.ok none, t)) : t = s ∧ s.graph.node? id = none := by
  unfold cloneNode at h
  split at h
  · rename_i hnone
    cases h
    exact ⟨rfl, hnone⟩
  · split at h
    · cases h
    · split at h
      · cases h
      · rename_i u _ _ m _
        rcases Store.content_addNode u.store m with ⟨f, hadd⟩ | ⟨_, _, hadd, _⟩ <;>
          simp [hadd, onStore, Except.mapError, Except.map] at h

theorem cloneNode_eq_ok (hs : s.graph.IsSound) (h : s.cloneNode id offsetX offsetY = (.ok (some new), t)) :
    ∃ n ∈ s.graph.nodeList, ∃ m : Node, n.id = id ∧ m.id = new ∧ m.IsCloneOf n ∧
      m.id ∉ Table.keys s.graph.nodes ∧ t.graph = s.graph.addNode m := by
  unfold cloneNode at h
  split at h
  · cases h
  · rename_i n hn
    split at h
    · cases h
    · rename_i new' u hissue
      obtain ⟨rfl, rfl⟩ := issueNodeId_eq_ok hissue
      split at h
      · cases h
      · rename_i m hm
        obtain ⟨hmem, hnid⟩ := hs.node?_eq_some.1 hn
        obtain ⟨_, hclone⟩ := cloneOf_eq_ok hm
        rcases Store.content_addNode s.store.issueNodeId.2 m with ⟨f, hadd⟩ | ⟨hfresh, store, hadd, hcontent⟩
        · simp [hadd, onStore, Except.mapError, Except.map] at h
        · simp only [hadd, onStore, Except.mapError, Except.map, Prod.mk.injEq, Except.ok.injEq, Option.some.injEq] at h
          obtain ⟨rfl, rfl⟩ := h
          exact ⟨n, hmem, m, hnid, rfl, hclone, hfresh, congrArg Content.graph hcontent⟩

theorem edited_cloneEach (ids : List String) : Edited s (s.cloneEach offsetX offsetY clones ids).2 := by
  induction ids generalizing s clones with
  | nil => exact edited_refl s
  | cons id r ih =>
    have hone : Edited s (s.cloneNode id offsetX offsetY).2 := edited_cloneNode
    unfold cloneEach
    split
    · rename_i hr
      rw [hr] at hone
      exact hone
    · rename_i hr
      rw [hr] at hone
      exact hone.trans ih
    · rename_i hr
      rw [hr] at hone
      exact hone.trans ih

theorem clones_of_cloneEach {ids : List String} {result : Table String} (hs : s.graph.IsSound) (h : Clones s.graph clones)
    (hr : s.cloneEach offsetX offsetY clones ids = (.ok result, t)) : Clones t.graph result := by
  induction ids generalizing s clones with
  | nil =>
    cases hr
    exact h
  | cons id r ih =>
    unfold cloneEach at hr
    split at hr
    · cases hr
    · rename_i hnone
      obtain ⟨rfl, _⟩ := cloneNode_eq_none hnone
      exact ih hs h hr
    · rename_i hsome
      obtain ⟨n, hn, m, rfl, rfl, hclone, hfresh, hgraph⟩ := cloneNode_eq_ok hs hsome
      refine ih (hgraph ▸ hs.addNode hfresh) ?_ hr
      rw [hgraph]
      exact h.insert hs hn hfresh hclone

/-- What comes of repeating connections between copies of their ends, one after the other and under ids that are just issued,
until one cannot be added. -/
structure Repeats (copy : String → Option String) (cs ds : List Connection) (k l : Content) : Prop where
  copies : CopiedFrom copy cs ds
  issued : ∃ ids, k.connectionIds.Issues (ds.map Connection.id) ids ∧ (l.connectionIds = ids ∨ l.connectionIds = ids.issue.2)
  distinct : (ds.map Connection.id).Nodup
  fresh : ∀ d ∈ ds, d.id ∉ Table.keys k.graph.connections
  graph : l.graph = k.graph.addConnections ds
  nodeIds : l.nodeIds = k.nodeIds

variable {copy : String → Option String} {c : Connection} {cs ds : List Connection} {k l : Content} {source target : String}

theorem addConnections_nil (g : Graph) : g.addConnections [] = g := by
  simp [Graph.addConnections, Table.under]

theorem repeats_nil (k : Content) : Repeats copy [] [] k k :=
  ⟨List.Sublist.refl _, ⟨_, rfl, .inl rfl⟩, List.nodup_nil, by simp, (addConnections_nil _).symm, rfl⟩

theorem repeats_stopped (cs : List Connection) (k : Content) :
    Repeats copy cs [] k { k with connectionIds := k.connectionIds.issue.2 } :=
  ⟨List.nil_sublist _, ⟨_, rfl, .inr rfl⟩, List.nodup_nil, by simp, (addConnections_nil _).symm, rfl⟩

theorem Repeats.passed_over (h : Repeats copy cs ds k l) (hc : copiedEnds copy c = none) : Repeats copy (c :: cs) ds k l := by
  refine { h with copies := ?_ }
  rw [CopiedFrom, List.filterMap_cons_none hc]
  exact h.copies

theorem Repeats.added (hc : copiedEnds copy c = some (source, target)) (hw : k.connectionIds.isExhausted = false)
    (hfresh : k.connectionIds.issue.1 ∉ Table.keys k.graph.connections)
    (h : Repeats copy cs ds
      { k with
        graph := k.graph.addConnections [⟨k.connectionIds.issue.1, source, target⟩]
        connectionIds := k.connectionIds.issue.2 } l) :
    Repeats copy (c :: cs) (⟨k.connectionIds.issue.1, source, target⟩ :: ds) k l where
  copies := by
    rw [CopiedFrom, List.filterMap_cons_some hc]
    exact h.copies.cons_cons _
  issued := by
    obtain ⟨ids, hids, hlast⟩ := h.issued
    exact ⟨ids, ⟨⟨rfl, hw⟩, hids⟩, hlast⟩
  distinct := by
    rw [List.map_cons, List.nodup_cons]
    refine ⟨fun hmem => ?_, h.distinct⟩
    obtain ⟨d, hd, hid⟩ := List.mem_map.1 hmem
    refine h.fresh d hd ?_
    simp [hid]
  fresh d hd := by
    rcases List.mem_cons.1 hd with rfl | hd
    · exact hfresh
    · refine fun hmem => h.fresh d hd ?_
      simp [hmem]
  graph := by
    rw [h.graph]
    simp [Graph.addConnections, Table.under, List.append_assoc]
  nodeIds := h.nodeIds

theorem repeats_cloneConnections (clones : Table String) (cs : List Connection) (s : Session) :
    ∃ ds k, Repeats (Table.lookup clones) cs ds s.store.content k ∧
      (s.cloneConnections clones cs).2.core = { s.core with content := k } ∧
      ((s.cloneConnections clones cs).1 = .ok () → ds.map Connection.ends = cs.filterMap (copiedEnds (Table.lookup clones))) := by
  induction cs generalizing s with
  | nil => exact ⟨[], _, repeats_nil _, rfl, fun _ => rfl⟩
  | cons c r ih =>
    unfold cloneConnections
    split
    · rename_i source target hsource htarget
      have hends : copiedEnds (Table.lookup clones) c = some (source, target) := copiedEnds_eq_some.2 ⟨hsource, htarget⟩
      split
      · rename_i hissue
        obtain ⟨_, rfl⟩ := Prod.mk.inj hissue
        exact ⟨[], _, repeats_stopped _ _, rfl, nofun⟩
      · rename_i id u hissue
        have hw : s.store.content.connectionIds.isExhausted = false := connectionIds_writable hissue
        obtain ⟨rfl, rfl⟩ := issueConnectionId_eq_ok hissue
        dsimp only
        rcases Store.content_addConnection s.store.issueConnectionId.2 ⟨s.store.connectionIds.issue.1, source, target⟩ with
          ⟨f, hadd⟩ | ⟨hfresh, store, hadd, hcontent⟩
        · rw [hadd]
          exact ⟨[], _, repeats_stopped _ _, rfl, nofun⟩
        · rw [hadd]
          obtain ⟨ds, k, hrest, hcore, hall⟩ := ih { s with store := store }
          rw [hcontent] at hrest
          refine ⟨_, k, hrest.added hends hw hfresh, hcore, fun hr => ?_⟩
          rw [List.map_cons, List.filterMap_cons_some hends, hall hr, Connection.ends]
    · rename_i hnone
      obtain ⟨ds, k, hrest, hcore, hall⟩ := ih s
      have hends : copiedEnds (Table.lookup clones) c = none := by
        unfold copiedEnds
        split
        · rename_i source target hsource htarget
          exact (hnone source target hsource htarget).elim
        · rfl
      refine ⟨ds, k, hrest.passed_over hends, hcore, fun hr => ?_⟩
      rw [List.filterMap_cons_none hends, hall hr]

theorem Repeats.steps {lookup : String → String → Option NodeType} (h : Repeats copy k.graph.connectionList ds k l)
    (hcopying : IsCopying k.graph.connectionList copy) (htwins : ∀ a x, copy a = some x → Twins k.graph a x) :
    ReflTransGen (Content.Step lookup) k l := by
  obtain ⟨ids, hissued, hlast⟩ := h.issued
  have hstep : Content.Step lookup k { k with graph := k.graph.addConnections ds, connectionIds := ids } :=
    .copied k copy ds ids hcopying htwins h.copies hissued h.distinct h.fresh
  obtain ⟨g, nodeIds, last⟩ := l
  obtain rfl := h.graph
  obtain rfl := h.nodeIds
  rcases hlast with rfl | rfl
  · exact .single hstep
  · exact .tail (.single hstep) (.connectionIssued _)

theorem edited_cloneConnections (h : Clones s.graph clones) :
    Edited s (s.cloneConnections clones s.graph.connectionList).2 := by
  obtain ⟨ds, k, hrepeats, hcore, _⟩ := repeats_cloneConnections clones s.graph.connectionList s
  intro _
  rw [hcore]
  exact Core.steps_of_content s.core (hrepeats.steps h.copying h.twins)

theorem edited_cloneNodes (ids : List String) : Edited s (s.cloneNodes ids offsetX offsetY).2 := by
  have heach : Edited s (s.cloneEach offsetX offsetY [] ids).2 := edited_cloneEach ids
  intro hs
  unfold cloneNodes
  split
  · rename_i hr
    rw [hr] at heach
    exact heach hs
  · rename_i clones t hr
    rw [hr] at heach
    have hclones := clones_of_cloneEach hs (clones_nil _) hr
    have hconnections := heach.trans (edited_cloneConnections hclones) hs
    split
    · rename_i hr'
      rw [hr'] at hconnections
      exact hconnections
    · rename_i hr'
      rw [hr'] at hconnections
      exact hconnections

end Session

end BehaviorTree
