import BehaviorTree.Proofs.Store.Growth
import BehaviorTree.Proofs.Store.Mirror

/-!
The identity of nodes. From the moment a node is added until it is removed it keeps its id and its category, it stands where it stood
among the other nodes that stay, and its properties stay in their order: they are changed in place, and new ones come behind them.
-/

set_option autoImplicit false

namespace BehaviorTree

/-- Is a node still the same? Its id and its category are, and it has the properties that it had, in their places. -/
structure Node.Becomes (n m : Node) : Prop where
  id : m.id = n.id
  category : m.category = n.category
  properties : Table.keys n.properties <+: Table.keys m.properties

variable {n m k : Node} {g f : Graph}

theorem Node.Becomes.refl (n : Node) : n.Becomes n := ⟨rfl, rfl, List.prefix_rfl⟩

theorem Node.Becomes.trans (h : n.Becomes m) (hm : m.Becomes k) : n.Becomes k :=
  ⟨hm.id.trans h.id, hm.category.trans h.category, h.properties.trans hm.properties⟩

namespace Graph

structure Retains (g f : Graph) : Prop where
  nodes : ∀ id n m, g.node? id = some n → f.node? id = some m → n.Becomes m
  order : ∀ ids : List String, ids ⊆ g.ids → ids ⊆ f.ids → (ids.Sublist g.ids ↔ ids.Sublist f.ids)

theorem retains_of_same_nodes (h : f.nodes = g.nodes) : g.Retains f where
  nodes id n m hn hm := by
    rw [node?, h] at hm
    obtain rfl := Option.some.inj (hn.symm.trans hm)
    exact .refl n
  order ids _ _ := by rw [Graph.ids, Graph.ids, nodeList, nodeList, h]

theorem retains_of_same_ids (hids : f.ids = g.ids) (h : ∀ id n m, g.node? id = some n → f.node? id = some m → n.Becomes m) :
    g.Retains f :=
  ⟨h, fun ids _ _ => by rw [hids]⟩

theorem retains_addNode (hs : g.IsSound) (hfresh : n.id ∉ g.ids) : g.Retains (g.addNode n) where
  nodes id a b ha hb := by
    have hkey : n.id ∉ Table.keys g.nodes := hs.ids_eq_keys ▸ hfresh
    have hne : n.id ≠ id := fun he => hkey (he ▸ Table.lookup_isSome.1 (Option.isSome_of_mem ha))
    have hsame : (g.addNode n).node? id = g.node? id := by
      rw [node?, addNode, ← Table.insert_fresh hkey, Table.lookup_insert, if_neg hne, node?]
    obtain rfl := Option.some.inj (ha.symm.trans (hsame.symm.trans hb))
    exact .refl a
  order ids hg _ := by
    rw [ids_addNode]
    refine ⟨fun h => h.trans (List.sublist_append_left _ _), fun h => ?_⟩
    -- The new id is none of those in question, so that nothing is lost when it is left out.
    have hkept : ids.filter (· ≠ n.id) = ids :=
      List.filter_eq_self.2 fun a ha => decide_eq_true fun he => hfresh (he ▸ hg ha)
    have hold : g.ids.filter (· ≠ n.id) = g.ids :=
      List.filter_eq_self.2 fun a ha => decide_eq_true fun he => hfresh (he ▸ ha)
    have hfiltered := h.filter (· ≠ n.id)
    rwa [List.filter_append, hkept, hold, List.filter_cons_of_neg (by simp), List.filter_nil, List.append_nil] at hfiltered

theorem retains_without (hs : g.IsSound) (id : String) : g.Retains (g.without id) where
  nodes a n m hn hm := by
    obtain ⟨hmem, hid⟩ := hs.without.node?_eq_some.1 hm
    rw [nodeList_without hs] at hmem
    have hsame : g.node? a = some m := hs.node?_eq_some.2 ⟨(List.mem_filter.1 hmem).1, hid⟩
    obtain rfl := Option.some.inj (hn.symm.trans hsame)
    exact .refl n
  order ids _ hf := by
    have hids : (g.without id).ids = g.ids.filter (· ≠ id) := by
      rw [Graph.ids, nodeList_without hs, Graph.ids, List.filter_map]
      rfl
    rw [hids] at hf ⊢
    refine ⟨fun h => ?_, fun h => h.trans List.filter_sublist⟩
    have hfiltered := h.filter (· ≠ id)
    rwa [List.filter_eq_self.2 fun a ha => (List.mem_filter.1 (hf ha)).2] at hfiltered

end Graph

theorem Merge.becomes {updates : Table Value} (h : Merge.node n updates = .ok m) : n.Becomes m :=
  ⟨node_id h, node_category h, keys_prefix_node h⟩

namespace Store

variable {s t : Store} {id : String} {staged result : Table Node} {us : List (Table Value)}

theorem becomes_placed {x y : Value} (h : placed n x y = .ok m) : n.Becomes m := by
  obtain ⟨a, _, h⟩ := bind_eq_ok.1 h
  obtain ⟨b, _, h⟩ := bind_eq_ok.1 h
  obtain rfl := Except.ok.inj h
  exact ⟨rfl, rfl, List.prefix_rfl⟩

theorem retains_rewritten (hn : s.graph.node? id = some n) (hm : n.Becomes m) :
    s.graph.Retains (s.withNodes (Table.insert s.graph.nodes id m)).graph := by
  refine Graph.retains_of_same_ids (Graph.ids_of_same_ids (alike_insert hn hm.id)) fun j a b ha hb => ?_
  rw [Graph.node?, withNodes, Table.lookup_insert] at hb
  split_ifs at hb with hj
  · subst hj
    obtain rfl := Option.some.inj (hn.symm.trans ha)
    obtain rfl := Option.some.inj hb
    exact hm
  · obtain rfl := Option.some.inj (ha.symm.trans hb)
    exact .refl a

theorem retains_updateNode (s : Store) (id : String) (updates : Table Value) :
    s.graph.Retains (s.updateNode id updates).2.graph := by
  unfold updateNode
  split
  · exact Graph.retains_of_same_nodes rfl
  · rename_i n hn
    split
    · exact Graph.retains_of_same_nodes rfl
    · rename_i m hm
      exact retains_rewritten hn (Merge.becomes hm)

theorem retains_updateNodeWith (s : Store) (id : String) (updates : Value) :
    s.graph.Retains (s.updateNodeWith id updates).2.graph := by
  unfold updateNodeWith
  split
  · exact Graph.retains_of_same_nodes rfl
  · split
    · exact Graph.retains_of_same_nodes rfl
    · exact retains_updateNode s id _

theorem retains_moveNode (s : Store) (id : String) (x y : Value) : s.graph.Retains (s.moveNode id x y).2.graph := by
  unfold moveNode
  split
  · exact Graph.retains_of_same_nodes rfl
  · rename_i n hn
    split
    · exact Graph.retains_of_same_nodes rfl
    · rename_i m hm
      exact retains_rewritten hn (becomes_placed hm)

def Succeed (g : Graph) (staged : Table Node) : Prop :=
  ∀ id n m, g.node? id = some n → Table.lookup staged id = some m → n.Becomes m

theorem becomes_of_base (h : Succeed g staged) (hn : g.node? id = some n) (hm : base? g staged id = some m) : n.Becomes m := by
  unfold base? at hm
  cases hl : Table.lookup staged id with
  | some k =>
    rw [hl, Option.some_or] at hm
    exact h id n m hn (hl.trans hm)
  | none =>
    rw [hl, Option.none_or, hn] at hm
    exact Option.some.inj hm ▸ .refl n

theorem succeed_of_stage (h : Succeed g staged) (hr : stage g staged us = .ok result) : Succeed g result := by
  induction us generalizing staged with
  | nil => exact Except.ok.inj hr ▸ h
  | cons u us ih =>
    unfold stage at hr
    split at hr
    · rename_i id hid
      split at hr
      · exact ih h hr
      · rename_i k hk
        split at hr
        · cases hr
        · rename_i merged hmerged
          refine ih (fun j n m hn hm => ?_) hr
          rw [Table.lookup_insert] at hm
          split_ifs at hm with hj
          · subst hj
            obtain rfl := Option.some.inj hm
            exact (becomes_of_base h hn hk).trans (Merge.becomes hmerged)
          · exact h j n m hn hm
    · split at hr
      · exact ih h hr
      · cases hr

theorem retains_updateNodes (s : Store) (us : List (Table Value)) : s.graph.Retains (s.updateNodes us).2.graph := by
  unfold updateNodes
  split
  · exact Graph.retains_of_same_nodes rfl
  · exact Graph.retains_of_same_nodes rfl
  · rename_i staged _ hstaged
    have hnone : Succeed s.graph [] := fun _ _ _ _ hm => absurd hm nofun
    have hstands : Stands Node.id s.graph staged :=
      stands_of_stage (fun _ _ _ _ hm => Merge.node_id hm) (fun r hr => absurd hr List.not_mem_nil) hstaged
    have hdistinct : (Table.keys staged).Nodup := nodup_stage (by simp [Table.keys]) hstaged
    refine Graph.retains_of_same_ids (Graph.ids_of_same_ids (alike_overlay hstands)) fun id n m hn hm => ?_
    rw [Graph.node?, emit, withNodes, Table.lookup_overlay hdistinct] at hm
    exact becomes_of_base (succeed_of_stage hnone hstaged) hn hm

theorem retains_updateNodesWith (s : Store) (updates : Value) : s.graph.Retains (s.updateNodesWith updates).2.graph := by
  unfold updateNodesWith
  split
  · exact Graph.retains_of_same_nodes rfl
  · exact retains_updateNodes s _
  · exact Graph.retains_of_same_nodes rfl

theorem retains_addNode (hs : s.graph.IsSound) (n : Node) : s.graph.Retains (s.addNode n).2.graph := by
  rcases content_addNode s n with ⟨f, h⟩ | ⟨hfresh, u, h, hcontent⟩
  · rw [h]
    exact Graph.retains_of_same_nodes rfl
  · have hgraph : u.graph = s.graph.addNode n := congrArg Content.graph hcontent
    rw [h, hgraph]
    exact Graph.retains_addNode hs (hs.ids_eq_keys ▸ hfresh)

theorem retains_removeNode (hs : s.graph.IsSound) (id : String) : s.graph.Retains (s.removeNode id).2.graph := by
  rw [graph_removeNode hs]
  exact Graph.retains_without hs id

theorem nodes_addConnection (s : Store) (c : Connection) : (s.addConnection c).2.graph.nodes = s.graph.nodes := by
  unfold addConnection
  split_ifs
  · rfl
  · split <;> rfl

theorem nodes_removeConnection (s : Store) (id : String) : (s.removeConnection id).2.graph.nodes = s.graph.nodes := by
  unfold removeConnection
  split <;> rfl

theorem Act.retains (h : Act s t) (hs : s.graph.IsSound) : s.graph.Retains t.graph := by
  cases h with
  | nothing => exact Graph.retains_of_same_nodes rfl
  | issueNodeId => exact Graph.retains_of_same_nodes rfl
  | issueConnectionId => exact Graph.retains_of_same_nodes rfl
  | addNode n => exact retains_addNode hs n
  | removeNode id => exact retains_removeNode hs id
  | updateNode id updates => exact retains_updateNodeWith s id updates
  | moveNode id x y => exact retains_moveNode s id x y
  | updateNodes updates => exact retains_updateNodesWith s updates
  | addConnection c => exact Graph.retains_of_same_nodes (nodes_addConnection s c)
  | removeConnection id => exact Graph.retains_of_same_nodes (nodes_removeConnection s id)

theorem grows_updateNodeWith (s : Store) (id : String) (updates : Value) : s.graph.Grows (s.updateNodeWith id updates).2.graph := by
  unfold updateNodeWith
  split
  · exact .refl _
  · split
    · exact .refl _
    · exact grows_updateNode id _

theorem grows_updateNodesWith (s : Store) (updates : Value) : s.graph.Grows (s.updateNodesWith updates).2.graph := by
  unfold updateNodesWith
  split
  · exact .refl _
  · exact grows_updateNodes _
  · exact .refl _

theorem Act.removes_lost (h : Act s t) (hs : s.HasIntegrity) (hid : id ∈ s.graph.ids) (hlost : id ∉ t.graph.ids) :
    t = (s.removeNode id).2 := by
  have ht : t.graph.IsSound := (hs.act h).graph
  rw [hs.graph.ids_eq_keys] at hid
  rw [ht.ids_eq_keys] at hlost
  cases h with
  | nothing => exact absurd hid hlost
  | issueNodeId => exact absurd hid hlost
  | issueConnectionId => exact absurd hid hlost
  | addNode n => exact absurd ((grows_addNode n).nodes.subset hid) hlost
  | removeNode j =>
    rw [← ht.ids_eq_keys, graph_removeNode hs.graph, Graph.mem_ids_without hs.graph, hs.graph.ids_eq_keys] at hlost
    obtain rfl : id = j := not_not.1 fun hne => hlost ⟨hid, hne⟩
    rfl
  | updateNode j updates => exact absurd ((grows_updateNodeWith s j updates).nodes.subset hid) hlost
  | moveNode j x y => exact absurd ((grows_moveNode j x y).nodes.subset hid) hlost
  | updateNodes updates => exact absurd ((grows_updateNodesWith s updates).nodes.subset hid) hlost
  | addConnection c => exact absurd ((grows_addConnection c).nodes.subset hid) hlost
  | removeConnection j => exact absurd (nodes_removeConnection s j ▸ hid) hlost

theorem notMem_removeNode (hs : s.graph.IsSound) : id ∉ (s.removeNode id).2.graph.ids := by
  rw [graph_removeNode hs, Graph.mem_ids_without hs]
  exact fun h => h.2 rfl

/-- Is a node there, and does none of the calls remove it? A call that removes it, by whatever name it is made, leaves the store
that its removal leaves. -/
def Stays (s : Store) (cs : List Call) (id : String) : Prop :=
  id ∈ s.graph.ids ∧ ∀ ds c, ds ++ [c] <+: cs → (s.afterAll ds).after c ≠ ((s.afterAll ds).removeNode id).2

variable {c : Call} {cs : List Call} {ids : List String}

theorem afterAll_concat (s : Store) (cs : List Call) (c : Call) : s.afterAll (cs ++ [c]) = (s.afterAll cs).after c := by
  rw [afterAll, List.foldl_append]
  rfl

theorem Stays.next (h : s.Stays (c :: cs) id) (hs : s.HasIntegrity) (hc : c.IsGradual) : (s.after c).Stays cs id := by
  refine ⟨not_not.1 fun hlost => h.2 [] c (by simp) (hc.act.removes_lost hs h.1 hlost), fun ds d hd => ?_⟩
  exact h.2 (c :: ds) d ((List.prefix_cons_inj c).2 hd)

theorem stays_iff (hs : s.HasIntegrity) (hcs : ∀ c ∈ cs, c.IsGradual) :
    s.Stays cs id ↔ ∀ ds, ds <+: cs → id ∈ (s.afterAll ds).graph.ids := by
  constructor
  · intro h ds hds
    induction ds generalizing s cs with
    | nil => exact h.1
    | cons d ds ih =>
      obtain ⟨rest, rfl⟩ := hds
      obtain ⟨hd, hrest⟩ := List.forall_mem_cons.1 hcs
      exact ih (hs.after d) hrest (h.next hs hd) (List.prefix_append _ _)
  · refine fun h => ⟨h [] List.nil_prefix, fun ds c hd he => ?_⟩
    have hthere : id ∈ (s.afterAll (ds ++ [c])).graph.ids := h _ hd
    rw [afterAll_concat, he] at hthere
    exact notMem_removeNode (hs.afterAll ds).graph hthere

theorem same_of_stays (hs : s.HasIntegrity) (hcs : ∀ c ∈ cs, c.IsGradual) (h : s.Stays cs id) :
    ∃ n m, s.graph.node? id = some n ∧ (s.afterAll cs).graph.node? id = some m ∧ n.Becomes m := by
  induction cs generalizing s with
  | nil =>
    obtain ⟨n, hn⟩ := Option.isSome_iff_exists.1 (Table.lookup_isSome.2 (hs.graph.ids_eq_keys ▸ h.1))
    exact ⟨n, n, hn, hn, .refl n⟩
  | cons c cs ih =>
    obtain ⟨hc, hrest⟩ := List.forall_mem_cons.1 hcs
    obtain ⟨n, hn⟩ := Option.isSome_iff_exists.1 (Table.lookup_isSome.2 (hs.graph.ids_eq_keys ▸ h.1))
    obtain ⟨k, m, hk, hm, hkm⟩ := ih (hs.after c) hrest (h.next hs hc)
    exact ⟨n, m, hn, hm, ((hc.act.retains hs.graph).nodes id n k hn hk).trans hkm⟩

theorem order_of_stays (hs : s.HasIntegrity) (hcs : ∀ c ∈ cs, c.IsGradual) (h : ∀ id ∈ ids, s.Stays cs id) :
    ids.Sublist s.graph.ids ↔ ids.Sublist (s.afterAll cs).graph.ids := by
  induction cs generalizing s with
  | nil => rfl
  | cons c cs ih =>
    obtain ⟨hc, hrest⟩ := List.forall_mem_cons.1 hcs
    have hnext : ∀ id ∈ ids, (s.after c).Stays cs id := fun id hid => (h id hid).next hs hc
    exact ((hc.act.retains hs.graph).order ids (fun id hid => (h id hid).1) fun id hid => (hnext id hid).1).trans
      (ih (hs.after c) hrest hnext)

/-- Take the store at any two moments of a run, with no call in between that replaces the graph as a whole. A node that was not removed in
between, whatever else was asked and refused, is under its id at the later moment too, with the same category, and its property keys
start with those that it had. Nodes that were not removed stand in the order they stood in. -/
theorem runs_keep_identity (capacity : Option Nat) (before cs : List Call) (h : ∀ c ∈ cs, c.IsGradual) :
    let s := (empty capacity).afterAll before
    let t := s.afterAll cs
    (∀ id, s.Stays cs id → ∃ n m, s.graph.node? id = some n ∧ t.graph.node? id = some m ∧ n.id = id ∧ m.id = id ∧
      m.category = n.category ∧ Table.keys n.properties <+: Table.keys m.properties) ∧
        ∀ ids : List String, (∀ id ∈ ids, s.Stays cs id) → (ids.Sublist s.graph.ids ↔ ids.Sublist t.graph.ids) := by
  intro s t
  have hs : s.HasIntegrity := (hasIntegrity_empty capacity).afterAll before
  refine ⟨fun id hid => ?_, fun ids hids => order_of_stays hs h hids⟩
  obtain ⟨n, m, hn, hm, hnm⟩ := same_of_stays hs h hid
  have hown : n.id = id := (hs.graph.node?_eq_some.1 hn).2
  exact ⟨n, m, hn, hm, hown, hnm.id.trans hown, hnm.category, hnm.properties⟩

def threeNodes : List Call :=
  [.addNode ⟨"a", "Sequence", "composite", "A", 0.0, 0.0, []⟩,
    .addNode ⟨"b", "Script", "action", "B", 0.0, 100.0, [("code", .text "x"), ("limit", .int 3)]⟩,
    .addNode ⟨"c", "AlwaysSuccess", "action", "C", 0.0, 200.0, []⟩]

/-- Updates that are refused and updates that are not, and a node that goes and comes back. -/
def editingRun : List Call :=
  [.updateNode "b" (.object [("category", .text "condition"), ("properties", .object [])]),
    .updateNode "b" (.object [("category", .text "action"), ("properties", .object [("note", .text "n"), ("code", .text "y")])]),
    .request "remove_node" [.text "c"],
    .updateNodes (.list [.object [("id", .text "b"), ("properties", .list [.list [.text "retries", .int 2]])],
      .object [("id", .text "a"), ("name", .text "Root")]]),
    .moveNode "b" (.float 50.0) .null, .addNode ⟨"c", "AlwaysSuccess", "action", "C", 0.0, 200.0, []⟩]

/-- The node that stays keeps its two properties in front of the two that come; the one that comes back is another. -/
theorem editingRun_keeps_identity :
    let s := (empty none).afterAll threeNodes
    let t := s.afterAll editingRun
    (∀ c ∈ editingRun, c.IsGradual) ∧ (∀ id ∈ ["a", "b"], s.Stays editingRun id) ∧ ¬ s.Stays editingRun "c" ∧
      (∃ n m, s.graph.node? "b" = some n ∧ t.graph.node? "b" = some m ∧ m.category = n.category ∧
        Table.keys n.properties <+: Table.keys m.properties) ∧
      (t.graph.node? "b").map (fun m => Table.keys m.properties) = some ["code", "limit", "note", "retries"] ∧
        ["a", "b"].Sublist t.graph.ids := by
  intro s t
  have hs : s.HasIntegrity := (hasIntegrity_empty none).afterAll threeNodes
  have hgradual : ∀ c ∈ editingRun, c.IsGradual := by
    simp only [editingRun, List.forall_mem_cons, Call.IsGradual, List.not_mem_nil, false_implies, implies_true, and_true, true_and]
    decide
  have hstays : ∀ id ∈ ["a", "b"], s.Stays editingRun id := by
    have hthere : ∀ id ∈ ["a", "b"], ∀ ds ∈ editingRun.inits, id ∈ (s.afterAll ds).graph.ids := by decide +kernel
    exact fun id hid => (stays_iff hs hgradual).2 fun ds hds => hthere id hid ds ((List.mem_inits _ _).2 hds)
  have hgoes : ¬ s.Stays editingRun "c" := by
    have hgone : "c" ∉ (s.afterAll (editingRun.take 3)).graph.ids := by decide +kernel
    exact fun h => hgone ((stays_iff hs hgradual).1 h _ (List.take_prefix _ _))
  obtain ⟨hsame, horder⟩ := runs_keep_identity none threeNodes editingRun hgradual
  obtain ⟨n, m, hn, hm, _, _, hcategory, hproperties⟩ := hsame "b" (hstays "b" (by simp))
  exact ⟨hgradual, hstays, hgoes, ⟨n, m, hn, hm, hcategory, hproperties⟩, by decide +kernel,
    (horder ["a", "b"] hstays).1 (by decide +kernel)⟩

end Store

end BehaviorTree
