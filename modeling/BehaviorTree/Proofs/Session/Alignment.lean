import BehaviorTree.Proofs.Session.Soundness
import BehaviorTree.Proofs.Session.Transient
import BehaviorTree.Proofs.Store.Batches
import BehaviorTree.Proofs.Value.FloatFinite

/-!
Aligned nodes. All selected nodes come to the same coordinate, in one batch. Their other coordinate and everything else of them stay, and
so does all the rest of the session.
-/

set_option autoImplicit false

namespace BehaviorTree

theorem foldl_mem_cons {α : Type} {f : α → α → α} (hf : ∀ a b, f a b = a ∨ f a b = b) (a : α) (xs : List α) : xs.foldl f a ∈ a :: xs := by
  induction xs generalizing a with
  | nil => exact List.mem_singleton_self a
  | cons b r ih =>
    have hrest := ih (f a b)
    rw [List.foldl_cons]
    rcases hf a b with h | h <;> rw [h] at hrest ⊢
    · rcases List.mem_cons.1 hrest with he | hr
      · rw [he]
        exact List.mem_cons_self
      · exact List.mem_cons_of_mem _ (List.mem_cons_of_mem _ hr)
    · exact List.mem_cons_of_mem _ hrest

theorem Graph.map_id_filterMap {g : Graph} (hg : g.IsSound) (ids : List String) :
    (ids.filterMap g.node?).map Node.id = ids.filter fun id => id ∈ g.ids := by
  induction ids with
  | nil => rfl
  | cons id r ih =>
    rw [hg.ids_eq_keys] at ih ⊢
    cases hn : g.node? id with
    | none =>
      have habsent : id ∉ Table.keys g.nodes := Table.lookup_eq_none.1 hn
      rw [List.filterMap_cons_none hn, ih, List.filter_cons_of_neg (by simpa using habsent)]
    | some n =>
      obtain ⟨_, rfl⟩ := hg.node?_eq_some.1 hn
      have hthere : n.id ∈ Table.keys g.nodes := Table.lookup_isSome.1 (Option.isSome_of_eq_some hn)
      rw [List.filterMap_cons_some hn, List.map_cons, ih, List.filter_cons_of_pos (by simpa using hthere)]

namespace Session

variable {s t : Session} {a : Alignment} {n : Node} {ns : List Node} {ids : List String} {how : String} {o : Layout.Options Float}
  {v : Float} {xs : List Float}

namespace Alignment

def coordinate (a : Alignment) (n : Node) : Float := if a.isHorizontal then n.x else n.y

/-- The extent of nodes in the direction of an alignment. -/
def extent (a : Alignment) (o : Layout.Options Float) : Float := if a.isHorizontal then o.nodeWidth else o.nodeHeight

def place (a : Alignment) (v : Float) (n : Node) : Node := if a.isHorizontal then { n with x := v } else { n with y := v }

/-- Puts the nodes with certain ids at a coordinate. -/
def line (a : Alignment) (ids : List String) (v : Float) (n : Node) : Node := if n.id ∈ ids then a.place v n else n

@[simp] theorem coordinate_place (a : Alignment) (v : Float) (n : Node) : a.coordinate (a.place v n) = v := by
  unfold coordinate place
  split_ifs <;> rfl

theorem isMove_line (a : Alignment) (ids : List String) (v : Float) : IsMove (a.line ids v) := by
  constructor <;> intro n <;> unfold line place <;> split_ifs <;> rfl

theorem leadsTo_alignUpdate (h : n.id ∈ ids) : Store.LeadsTo (alignUpdate a v) (a.line ids v) n where
  names := rfl
  merges := by
    rw [line, if_pos h]
    cases a <;> rfl

theorem least_mem (h : xs ≠ []) : least xs ∈ xs := by
  cases xs with
  | nil => exact absurd rfl h
  | cons x r => exact foldl_mem_cons (fun a b => (ite_eq_or_eq _ _ _).symm) x r

theorem greatest_mem (h : xs ≠ []) : greatest xs ∈ xs := by
  cases xs with
  | nil => exact absurd rfl h
  | cons x r => exact foldl_mem_cons (fun a b => (ite_eq_or_eq _ _ _).symm) x r

theorem mean_isNaN (h : xs ≠ []) (hcount : (Float.ofNat xs.length).isFinite) (hxs : ∀ x ∈ xs, x.isFinite) : (mean xs).isNaN = false :=
  isNaN_div_count (List.length_pos_iff.2 h) hcount (isNaN_sum rfl hxs)

/-- Are the coordinates finite that an alignment compares? Those of far sides and of centers may be infinite though the nodes' own are not. -/
structure IsMeasurable (a : Alignment) (o : Layout.Options Float) (ns : List Node) : Prop where
  coordinates : ∀ n ∈ ns, (a.coordinate n).isFinite
  extent : a ∈ [right, bottom] → (a.extent o).isFinite
  centers : a ∈ [center, middle] → (Float.ofNat ns.length).isFinite ∧ ∀ n ∈ ns, (a.coordinate n + a.extent o / 2.0).isFinite

theorem IsMeasurable.target_isNaN (h : a.IsMeasurable o ns) (hns : ns ≠ []) :
    (a.target (a.extent o) (ns.map a.coordinate)).isNaN = false := by
  have hxs : ns.map a.coordinate ≠ [] := fun he => hns (List.map_eq_nil_iff.1 he)
  have hnumber : ∀ x ∈ ns.map a.coordinate, x.isNaN = false := List.forall_mem_map.2 fun n hn => isNaN_of_isFinite (h.coordinates n hn)
  -- three formulas for two directions: the least coordinate, the greatest far side and the mean of the centers
  have hleast : (least (ns.map a.coordinate)).isNaN = false := hnumber _ (least_mem hxs)
  have hgreatest (ha : a ∈ [right, bottom]) : (greatest ((ns.map a.coordinate).map (· + a.extent o)) - a.extent o).isNaN = false := by
    have hsides : (ns.map a.coordinate).map (· + a.extent o) ≠ [] := by simpa using hns
    obtain ⟨x, hx, he⟩ := List.mem_map.1 (greatest_mem hsides)
    rw [← he]
    exact isNaN_sub_finite (isNaN_add_finite (hnumber x hx) (h.extent ha)) (h.extent ha)
  have hmean (ha : a ∈ [center, middle]) :
      (mean ((ns.map a.coordinate).map (· + a.extent o / 2.0)) - a.extent o / 2.0).isNaN = false := by
    obtain ⟨hcount, hcenters⟩ := h.centers ha
    obtain ⟨n, hn⟩ := List.exists_mem_of_ne_nil ns hns
    refine isNaN_sub_finite (mean_isNaN (by simpa using hns) (by simpa using hcount) ?_) (isFinite_of_add (hcenters n hn))
    simpa using hcenters
  cases a with
  | left => exact hleast
  | center => exact hmean (by decide)
  | right => exact hgreatest (by decide)
  | top => exact hleast
  | middle => exact hmean (by decide)
  | bottom => exact hgreatest (by decide)

end Alignment

/-- The selected nodes in the order of the selection. -/
def selectedNodes (s : Session) : List Node := s.selection.nodes.filterMap s.graph.node?

def selectedIds (s : Session) : List String := s.selection.nodes.filter fun id => id ∈ s.graph.ids

theorem map_id_selectedNodes (hs : s.graph.IsSound) : s.selectedNodes.map Node.id = s.selectedIds :=
  Graph.map_id_filterMap hs s.selection.nodes

theorem mem_nodeList_of_selected (hs : s.graph.IsSound) : s.selectedNodes ⊆ s.graph.nodeList := fun n hn => by
  obtain ⟨id, _, hid⟩ := List.mem_filterMap.1 hn
  exact (hs.node?_eq_some.1 hid).1

/-- Is a session as before but for nodes that stand at a common coordinate now, and has that been told of once? -/
structure LinedUp (a : Alignment) (ids : List String) (v : Float) (s t : Session) : Prop where
  settings : t = { s with store := t.store }
  nodes : t.graph.nodeList = s.graph.nodeList.map (a.line ids v)
  connections : t.graph.connections = s.graph.connections
  nodeIds : t.store.nodeIds = s.store.nodeIds
  connectionIds : t.store.connectionIds = s.store.connectionIds
  told : t.store.outbox = s.store.outbox ++ [⟨.nodesUpdated ids, t.graph⟩]

theorem LinedUp.coordinate (h : LinedUp a ids v s t) : ∀ n ∈ t.graph.nodeList, n.id ∈ ids → a.coordinate n = v := by
  rw [h.nodes]
  refine List.forall_mem_map.2 fun n _ hid => ?_
  rw [(Alignment.isMove_line a ids v).id] at hid
  rw [Alignment.line, if_pos hid, Alignment.coordinate_place]

theorem alignSelectedNodes_eq (ha : Alignment.ofName? how = some a) (h : 2 ≤ s.selectedNodes.length) :
    s.alignSelectedNodes how = match s.grid.snapFloat (a.target (a.extent s.config.layout) (s.selectedNodes.map a.coordinate)) with
      | .error e => (.error (.number e), s)
      | .ok v => s.onStore (s.store.updateNodes (s.selectedNodes.map (alignUpdate a v))) := by
  unfold alignSelectedNodes
  dsimp only
  rw [← selectedNodes, if_neg (Nat.not_lt.2 h), ha]
  cases a <;> rfl

theorem linedUp_updateNodes (hs : s.graph.IsSound) (hns : ns ⊆ s.graph.nodeList) (hn : (ns.map Node.id).Nodup) (hne : ns ≠ []) :
    ∃ t, s.onStore (s.store.updateNodes (ns.map (alignUpdate a v))) = (.ok (ns.map Node.id), t) ∧ LinedUp a (ns.map Node.id) v s t := by
  have hupdates : ∀ n ∈ ns, Store.LeadsTo (alignUpdate a v) (a.line (ns.map Node.id) v) n :=
    fun n hn => Alignment.leadsTo_alignUpdate (List.mem_map_of_mem hn)
  have hothers : ∀ n ∈ s.graph.nodeList, n.id ∉ ns.map Node.id → a.line (ns.map Node.id) v n = n := fun n _ hn => if_neg hn
  obtain ⟨hresult, hgraph⟩ := Store.updateNodes_moves (Alignment.isMove_line a _ v) hs hns hn hupdates hothers
  obtain ⟨_, _, _, _, hnodeIds, hconnectionIds, htold⟩ := Store.updateNodes_eq_ok (Prod.ext hresult rfl)
  rw [if_neg fun he => hne (List.map_eq_nil_iff.1 he)] at htold
  have hnodes := congrArg Graph.nodeList hgraph
  have hconnections := congrArg Graph.connections hgraph
  refine ⟨{ s with store := (s.store.updateNodes (ns.map (alignUpdate a v))).2 }, ?_, ?_⟩
  · rw [onStore, hresult]
    rfl
  · exact {
      settings := rfl
      nodes := hnodes.trans Table.values_mapValues
      connections := hconnections
      nodeIds := hnodeIds
      connectionIds := hconnectionIds
      told := htold }

/-- However a session came about, at least two selected nodes can be aligned, unless the coordinate where they should stand cannot be
brought to the grid; then nothing changes. Otherwise the answer is their ids in the order of the selection, and all of them stand at one
coordinate. Their other coordinate, their names and properties, the other nodes, the connections, the selection and both counters stay,
and there is one notice of it. On the grid that coordinate is a number, and elsewhere if those are finite that were compared. Unless the
store was asked directly, the ids are the whole selection. -/
theorem alignment_moves_selected (config : EditorConfig) (catalog : Catalog) (cs : List Call) (how : String) (a : Alignment) :
    let s := (start config catalog).afterAll cs
    let x := a.target (a.extent s.config.layout) (s.selectedNodes.map a.coordinate)
    Alignment.ofName? how = some a → 2 ≤ s.selectedIds.length →
      ((∃ e, s.grid.snapFloat x = .error e ∧ s.alignSelectedNodes how = (.error (.number e), s)) ∨
        ∃ v t, s.grid.snapFloat x = .ok v ∧ s.alignSelectedNodes how = (.ok s.selectedIds, t) ∧ LinedUp a s.selectedIds v s t ∧
          (∀ n ∈ t.graph.nodeList, n.id ∈ s.selectedIds → a.coordinate n = v) ∧
          (s.grid.snap = true ∨ a.IsMeasurable s.config.layout s.selectedNodes → v.isNaN = false)) ∧
        ((∀ c ∈ cs, c.TakesOver fun _ => True) → s.selectedIds = s.selection.nodes) := by
  intro s x ha hlength
  have hs : s.graph.IsSound := isSound_afterAll (start_isForest config catalog).toIsSound cs
  have hdistinct : s.IsDistinct := isDistinct_afterAll config catalog cs
  have hids := map_id_selectedNodes hs
  have htwo : 2 ≤ s.selectedNodes.length := by rwa [← hids, List.length_map] at hlength
  have hne : s.selectedNodes ≠ [] := List.ne_nil_of_length_pos (by omega)
  refine ⟨?_, fun hown => ?_⟩
  · rw [alignSelectedNodes_eq ha htwo]
    cases hv : s.grid.snapFloat x with
    | error e => exact .inl ⟨e, rfl, rfl⟩
    | ok v =>
      obtain ⟨t, ht, hlined⟩ := linedUp_updateNodes (a := a) (v := v) hs (mem_nodeList_of_selected hs) (hids ▸ hdistinct.filter _) hne
      rw [hids] at ht hlined
      refine .inr ⟨v, t, rfl, ht, hlined, hlined.coordinate, fun h => GridSettings.snapFloat_isNaN hv (h.imp_right fun hm => ?_)⟩
      exact hm.target_isNaN hne
  · have href : Refers True s := (refers_start True config catalog).afterAll (by simpa using hown)
    refine List.filter_eq_self.2 fun id hid => ?_
    rw [hs.ids_eq_keys]
    exact decide_eq_true (href.selected id hid)

def aligningRun : List Call :=
  [.request "create_node" [.text "Sequence", .text "composite", .float 0.0, .float 0.0],
    .request "create_node" [.text "AlwaysSuccess", .text "action", .float 60.0, .float 100.0],
    .request "create_node" [.text "AlwaysSuccess", .text "action", .float 200.0, .float 100.0],
    .request "select_nodes" [.list [.text "node_1", .text "node_0", .text "nobody"]]]

/-- In the middle between the two, halfway on the grid, they go to the even multiple. -/
theorem aligningRun_moves_selected :
    let s := (start {} .standard).afterAll aligningRun
    Alignment.ofName? "center" = some .center ∧ 2 ≤ s.selectedIds.length ∧ s.selection.nodes = ["node_1", "node_0"] ∧
      ∃ t, s.alignSelectedNodes "center" = (.ok ["node_1", "node_0"], t) ∧ LinedUp .center ["node_1", "node_0"] 40.0 s t ∧
        t.graph.nodeList.map (fun n => (n.id, n.x, n.y)) =
          [("node_0", 40.0, 0.0), ("node_1", 40.0, 100.0), ("node_2", 200.0, 100.0)] := by
  intro s
  have hname : Alignment.ofName? "center" = some .center := by decide
  have hids : s.selectedIds = ["node_1", "node_0"] := by decide +kernel
  have htwo : 2 ≤ s.selectedIds.length := by
    rw [hids]
    decide
  have hplaces : (s.alignSelectedNodes "center").2.graph.nodeList.map (fun n => (n.id, n.x, n.y)) =
      [("node_0", 40.0, 0.0), ("node_1", 40.0, 100.0), ("node_2", 200.0, 100.0)] := by decide +kernel
  obtain ⟨h, hselection⟩ := alignment_moves_selected {} .standard aligningRun "center" .center hname htwo
  have hown : ∀ c ∈ aligningRun, c.TakesOver fun _ => True := by
    simp only [aligningRun, List.forall_mem_cons, Call.TakesOver, List.not_mem_nil, false_implies, implies_true, and_true]
    decide +kernel
  rcases h with ⟨e, -, he⟩ | ⟨v, t, -, ht, hlined, hcommon, -⟩
  · have hfine : (s.alignSelectedNodes "center").1.isOk = true := by decide +kernel
    rw [he] at hfine
    cases hfine
  · rw [ht] at hplaces
    rw [hids] at ht hlined hcommon
    have hfirst : ("node_0", 40.0, 0.0) ∈ t.graph.nodeList.map fun n => (n.id, n.x, n.y) := hplaces ▸ List.mem_cons_self
    obtain ⟨n, hn, hplace⟩ := List.mem_map.1 hfirst
    obtain ⟨hid, hcoordinates⟩ := Prod.mk.inj hplace
    have hx : Alignment.coordinate .center n = 40.0 := (Prod.mk.inj hcoordinates).1
    obtain rfl : v = 40.0 := (hcommon n hn (by simp [hid])).symm.trans hx
    exact ⟨hname, htwo, (hselection hown).symm.trans hids, t, ht, hlined, hplaces⟩

end Session

end BehaviorTree
