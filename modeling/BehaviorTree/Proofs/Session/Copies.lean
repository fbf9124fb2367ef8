import BehaviorTree.Proofs.Session.Soundness

/-!
What cloning several nodes brings. The clones and the connections among them are a picture of the nodes that were cloned and of all
connections among these, in their order and under new ids; nothing else is changed, and without the clones the graph is the old one.
-/

set_option autoImplicit false

namespace BehaviorTree

namespace Table

variable {α : Type} {t : Table α}

theorem exists_lookup_zip [Inhabited α] {ks : List String} {as : List α} (hn : ks.Nodup) (hlength : ks.length = as.length) :
    ∃ f : String → α, as = ks.map f ∧ ∀ k, lookup (ks.zip as) k = if k ∈ ks then some (f k) else none := by
  have hkeys : keys (ks.zip as) = ks := List.map_fst_zip hlength.le
  have hvalues : values (ks.zip as) = as := List.map_snd_zip hlength.ge
  let f (k : String) : α := (lookup (ks.zip as) k).getD default
  refine ⟨f, ?_, fun k => ?_⟩
  · have hrows : values (ks.zip as) = (keys (ks.zip as)).map f := by
      rw [values, keys, List.map_map]
      refine List.map_congr_left fun r hr => ?_
      have hrow : lookup (ks.zip as) r.1 = some r.2 := lookup_of_mem (by rwa [hkeys]) hr
      simp [f, hrow]
    rwa [hvalues, hkeys] at hrows
  · split_ifs with hk
    · obtain ⟨a, ha⟩ := Option.isSome_iff_exists.1 (lookup_isSome.2 (by rwa [hkeys]))
      simp [f, ha]
    · exact lookup_eq_none.2 (by rwa [hkeys])

end Table

namespace Graph

variable {g f : Graph} {ids : List String} {copy : String → String}

def addNodes (g : Graph) (ms : List Node) : Graph := { g with nodes := g.nodes ++ Table.under Node.id ms }

theorem addNodes_nil (g : Graph) : g.addNodes [] = g := by simp [addNodes, Table.under]

theorem addNodes_cons (g : Graph) (m : Node) (ms : List Node) : g.addNodes (m :: ms) = (g.addNode m).addNodes ms := by
  simp [addNodes, addNode, Table.under]

/-- Has a graph, besides all that another has, a clone of each of some nodes of it, and a connection between two clones for every
connection between their originals? -/
structure HasClones (g : Graph) (ids : List String) (copy : String → String) (f : Graph) : Prop where
  distinct : (ids.map copy).Nodup
  fresh : ∀ id ∈ ids, copy id ∉ g.ids
  nodes : ∃ ms : List Node, f.nodes = g.nodes ++ Table.under Node.id ms ∧ ms.map Node.id = ids.map copy ∧
    List.Forall₂ (fun id m => ∃ n, g.node? id = some n ∧ m.IsCloneOf n) ids ms
  connections : ∃ ds : List Connection, f.connections = g.connections ++ Table.under Connection.id ds ∧
    ds.map Connection.ends = (g.connectionList.filter fun c => c.source ∈ ids ∧ c.target ∈ ids).map
      (fun c => (copy c.source, copy c.target)) ∧
    (ds.map Connection.id).Nodup ∧ ∀ d ∈ ds, d.id ∉ g.connectionList.map Connection.id

theorem HasClones.withoutAll (h : g.HasClones ids copy f) (hs : g.IsSound) : f.withoutAll (ids.map copy) = g := by
  obtain ⟨ms, hnodes, hids, _⟩ := h.nodes
  obtain ⟨ds, hconnections, hends, _⟩ := h.connections
  have hold : ∀ id ∈ g.ids, id ∉ ids.map copy := fun id hid hmem => by
    obtain ⟨a, ha, rfl⟩ := List.mem_map.1 hmem
    exact h.fresh a ha hid
  have hclones : ∀ r ∈ Table.under Node.id ms, r.1 ∈ ids.map copy := fun r hr => by
    obtain ⟨m, hm, rfl⟩ := List.mem_map.1 hr
    exact hids ▸ List.mem_map_of_mem hm
  have hbetween : ∀ r ∈ Table.under Connection.id ds, r.2.source ∈ ids.map copy := fun r hr => by
    obtain ⟨d, hd, rfl⟩ := List.mem_map.1 hr
    have hcopied : d.ends ∈ ds.map Connection.ends := List.mem_map_of_mem hd
    rw [hends] at hcopied
    obtain ⟨c, hc, hce⟩ := List.mem_map.1 hcopied
    have hsource : copy c.source = d.source := congrArg Prod.fst hce
    exact hsource ▸ List.mem_map_of_mem (of_decide_eq_true (List.mem_filter.1 hc).2).1
  have hf : f = ⟨g.nodes ++ Table.under Node.id ms, g.connections ++ Table.under Connection.id ds⟩ := by rw [← hnodes, ← hconnections]
  rw [hf, withoutAll_append hclones hbetween, hs.withoutAll_of_notMem hold]

end Graph

namespace Session

variable {s t : Session} {ids new : List String} {offsetX offsetY : Value} {clones result : Table String}

theorem cloneEach_eq_ok {g : Graph} (hs : s.graph.IsSound) (hn : ids.Nodup)
    (hids : ∀ id ∈ ids, ∃ n, g.node? id = some n ∧ s.graph.node? id = some n) (hnew : ∀ id ∈ ids, id ∉ Table.keys clones)
    (hr : s.cloneEach offsetX offsetY clones ids = (.ok result, t)) :
    ∃ ms : List Node, t.graph = s.graph.addNodes ms ∧ result = clones ++ ids.zip (ms.map Node.id) ∧
      List.Forall₂ (fun id m => ∃ n, g.node? id = some n ∧ m.IsCloneOf n) ids ms ∧
      (ms.map Node.id).Nodup ∧ ∀ m ∈ ms, m.id ∉ s.graph.ids := by
  -- on the ids; the session goes on meanwhile, but the graph in which the originals are looked up stays
  induction ids generalizing s clones with
  | nil =>
    cases hr
    exact ⟨[], (Graph.addNodes_nil _).symm, by simp, .nil, List.nodup_nil, by simp⟩
  | cons id r ih =>
    rw [List.nodup_cons] at hn
    obtain ⟨⟨n, hg, hstored⟩, hrest⟩ := List.forall_mem_cons.1 hids
    obtain ⟨hnewId, hnewRest⟩ := List.forall_mem_cons.1 hnew
    unfold cloneEach at hr
    split at hr
    · cases hr
    · rename_i hnone
      rw [(cloneNode_eq_none hnone).2] at hstored
      cases hstored
    · rename_i u hsome
      obtain ⟨k, hk, m, hid, rfl, hclone, hfresh, hgraph⟩ := cloneNode_eq_ok hs hsome
      obtain rfl : n = k := Option.some.inj (hstored.symm.trans (hs.node?_eq_some.2 ⟨hk, hid⟩))
      have hkept : ∀ a ∈ r, ∃ n, g.node? a = some n ∧ u.graph.node? a = some n := fun a ha => by
        obtain ⟨k, hka, hks⟩ := hrest a ha
        exact ⟨k, hka, hgraph ▸ Table.lookup_append_left hks⟩
      have hnoted : ∀ a ∈ r, a ∉ Table.keys (Table.insert clones id m.id) := fun a ha hmem => by
        rw [Table.insert_fresh hnewId, Table.keys_append, List.mem_append] at hmem
        rcases hmem with hmem | hmem
        · exact hnewRest a ha hmem
        · obtain rfl : a = id := List.mem_singleton.1 hmem
          exact hn.1 ha
      obtain ⟨ms, ht, hresult, hclones, hdistinct, hothers⟩ := ih (hgraph ▸ hs.addNode hfresh) hn.2 hkept hnoted hr
      rw [hgraph] at ht hothers
      refine ⟨m :: ms, ?_, ?_, .cons ⟨n, hg, hclone⟩ hclones, ?_, ?_⟩
      · rw [ht, Graph.addNodes_cons]
      · rw [hresult, Table.insert_fresh hnewId, List.append_assoc, List.map_cons, List.zip_cons_cons, List.singleton_append]
      · rw [List.map_cons, List.nodup_cons]
        refine ⟨fun hmem => ?_, hdistinct⟩
        obtain ⟨k, hk, hsame⟩ := List.mem_map.1 hmem
        exact hothers k hk (by simp [hsame])
      · refine List.forall_mem_cons.2 ⟨hs.ids_eq_keys ▸ hfresh, fun k hk hmem => hothers k hk (by simp [hmem])⟩

theorem filterMap_copiedEnds {copy : String → String} (h : ∀ id, Table.lookup clones id = if id ∈ ids then some (copy id) else none)
    (cs : List Connection) : cs.filterMap (copiedEnds (Table.lookup clones)) =
      (cs.filter fun c => c.source ∈ ids ∧ c.target ∈ ids).map fun c => (copy c.source, copy c.target) := by
  induction cs with
  | nil => rfl
  | cons c r ih =>
    by_cases hc : c.source ∈ ids ∧ c.target ∈ ids
    · have hends : copiedEnds (Table.lookup clones) c = some (copy c.source, copy c.target) := by
        rw [copiedEnds_eq_some, h, h, if_pos hc.1, if_pos hc.2]
        exact ⟨rfl, rfl⟩
      rw [List.filterMap_cons_some hends, List.filter_cons_of_pos (by simpa using hc), List.map_cons, ih]
    · have hends : copiedEnds (Table.lookup clones) c = none := by
        rw [copiedEnds, h, h]
        grind
      rw [List.filterMap_cons_none hends, List.filter_cons_of_neg (by simpa using hc), ih]

theorem cloneConnections_eq_ok {cs : List Connection} (hr : s.cloneConnections clones cs = (.ok (), t)) :
    ∃ ds : List Connection, t.graph = s.graph.addConnections ds ∧
      ds.map Connection.ends = cs.filterMap (copiedEnds (Table.lookup clones)) ∧
      (ds.map Connection.id).Nodup ∧ ∀ d ∈ ds, d.id ∉ Table.keys s.graph.connections := by
  obtain ⟨ds, k, hrepeats, hcore, hall⟩ := repeats_cloneConnections clones cs s
  rw [hr] at hcore hall
  have hgraph : t.graph = k.graph := congrArg (fun c => c.content.graph) hcore
  exact ⟨ds, hgraph.trans hrepeats.graph, hall rfl, hrepeats.distinct, hrepeats.fresh⟩

theorem cloneNodes_eq_ok (hs : s.graph.IsSound) (hn : ids.Nodup) (hids : ∀ id ∈ ids, id ∈ s.graph.ids)
    (h : s.cloneNodes ids offsetX offsetY = (.ok new, t)) :
    ∃ copy : String → String, new = ids.map copy ∧ s.graph.HasClones ids copy t.graph := by
  have hstored : ∀ id ∈ ids, ∃ n, s.graph.node? id = some n ∧ s.graph.node? id = some n := fun id hid => by
    obtain ⟨n, hmem, hid⟩ := List.mem_map.1 (hids id hid)
    have hn := hs.node?_eq_some.2 ⟨hmem, hid⟩
    exact ⟨n, hn, hn⟩
  unfold cloneNodes at h
  split at h
  · cases h
  · rename_i clones u heach
    obtain ⟨ms, hgraph, hclones, hlike, hdistinct, hfresh⟩ := cloneEach_eq_ok hs hn hstored (by simp [Table.keys]) heach
    split at h
    · cases h
    · rename_i v hconnections
      obtain ⟨hnew, rfl⟩ := Prod.mk.inj h
      obtain ⟨ds, hadded, hends, hdistinctIds, hfreshIds⟩ := cloneConnections_eq_ok hconnections
      have hlength : ids.length = (ms.map Node.id).length := by rw [List.length_map, hlike.length_eq]
      have hvalues : Table.values clones = ms.map Node.id := by
        rw [hclones, List.nil_append, Table.values, List.map_snd_zip hlength.ge]
      obtain ⟨copy, hcopies, hlookup⟩ := Table.exists_lookup_zip hn hlength
      rw [hclones, List.nil_append, show u.graph.connectionList = s.graph.connectionList by rw [hgraph]; rfl,
        filterMap_copiedEnds hlookup] at hends
      rw [hgraph] at hadded hfreshIds
      have hfreshCopies : ∀ id ∈ ids, copy id ∉ s.graph.ids := fun id hid => by
        obtain ⟨m, hm, hcopy⟩ := List.mem_map.1 (hcopies ▸ List.mem_map_of_mem (f := copy) hid)
        exact hcopy ▸ hfresh m hm
      refine ⟨copy, (Except.ok.inj hnew).symm.trans (hvalues.trans hcopies), hcopies ▸ hdistinct, hfreshCopies,
        ⟨ms, ?_, hcopies, hlike⟩, ⟨ds, ?_, hends, hdistinctIds, ?_⟩⟩
      · rw [hadded]
        rfl
      · rw [hadded]
        rfl
      · rw [hs.connectionIds_eq_keys]
        exact hfreshIds

/-- Whatever a session was asked before: if it clones nodes that differ, the answer gives each of them a clone with an id of its own, and
the graph has these clones and the connections among them besides all that it had. Deleting the clones gives that graph back. -/
theorem clones_are_exact (config : EditorConfig) (catalog : Catalog) (cs : List Call) (ids new : List String)
    (offsetX offsetY : Value) (t : Session) :
    let s := (start config catalog).afterAll cs
    ids.Nodup → (∀ id ∈ ids, id ∈ s.graph.ids) → s.cloneNodes ids offsetX offsetY = (.ok new, t) →
      ∃ copy : String → String, new = ids.map copy ∧ s.graph.HasClones ids copy t.graph ∧ (t.deleteNodes new).2.graph = s.graph := by
  intro s hn hids h
  have hs : s.graph.IsSound := isSound_afterAll (start_isForest config catalog).toIsSound cs
  have ht : t.graph.IsSound := by
    have hedited : Edited s (s.cloneNodes ids offsetX offsetY).2 := edited_cloneNodes ids
    rw [h] at hedited
    exact hedited.isSound hs
  obtain ⟨copy, rfl, hclones⟩ := cloneNodes_eq_ok hs hn hids h
  exact ⟨copy, rfl, hclones, (graph_deleteNodes ht _).trans (hclones.withoutAll hs)⟩

/-- A leaf, the sequence above it and another sequence are cloned. The leaf of the other one is not, nor is the connection to it. -/
theorem cloningRun_clones_are_exact :
    let s := (start { grid := { snap := false } } .standard).afterAll cloningRun
    let ids := ["node_3", "node_0", "node_2"]
    ∃ new t, s.cloneNodes ids cloneOffset cloneOffset = (.ok new, t) ∧ new = ["node_4", "node_5", "node_6"] ∧
      t.graph.connectionList = s.graph.connectionList ++ [⟨"conn_2", "node_6", "node_4"⟩] ∧
      (∃ copy : String → String, new = ids.map copy ∧ s.graph.HasClones ids copy t.graph) ∧
      (t.deleteNodes new).2.graph = s.graph := by
  intro s ids
  obtain ⟨new, h⟩ := exists_eq_ok (r := s.cloneNodes ids cloneOffset cloneOffset) (by decide +kernel)
  have hnew : some new = some ["node_4", "node_5", "node_6"] :=
    (congrArg (fun r => r.1.toOption) h).symm.trans (by decide +kernel)
  obtain ⟨copy, hcopy, hclones, hdeleted⟩ :=
    clones_are_exact { grid := { snap := false } } .standard cloningRun ids new cloneOffset cloneOffset _ (by decide)
      (by decide +kernel) h
  exact ⟨new, _, h, Option.some.inj hnew, by decide +kernel, ⟨copy, hcopy, hclones⟩, hdeleted⟩

end Session

end BehaviorTree
