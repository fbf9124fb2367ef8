import BehaviorTree.Proofs.Config
import BehaviorTree.Proofs.Graph.Grid
import BehaviorTree.Proofs.Session.Configuration
import BehaviorTree.Proofs.Session.Saving
import BehaviorTree.Proofs.Store.Moves
import BehaviorTree.Proofs.Tree.Layout

/-!
Automatic layout in a session. It only moves nodes, and of two siblings it never puts the later one to the left of the earlier one.
Where the grid puts both at the same place, though, they fall back to the order of their connections, and the tree may be another one
than before.
-/

set_option autoImplicit false

namespace BehaviorTree.Session

open Hierarchy BehaviorTree.Tree

variable {s t : Session} {f : Node → Node}

section Positions

variable {g : GridSettings} {ps : List (Layout.Position Float)} {us : List (Table Value)}

structure MovesTo (g : GridSettings) (ps : List (Layout.Position Float)) (f : Node → Node) : Prop where
  move : IsMove f
  placed : ∀ p ∈ ps, ∀ n : Node, n.id = p.id → g.snapFloat p.x = .ok (f n).x ∧ g.snapFloat p.y = .ok (f n).y
  others : ∀ n : Node, n.id ∉ ps.map Layout.Position.id → f n = n

def moveOne (id : String) (x y : Float) (f : Node → Node) (n : Node) : Node := if n.id = id then { n with x := x, y := y } else f n

theorem isMove_moveOne (hf : IsMove f) (id : String) (x y : Float) : IsMove (moveOne id x y f) := by
  constructor <;> intro n <;> unfold moveOne <;> split_ifs
  · rfl
  · exact hf.id n
  · rfl
  · exact hf.type n
  · rfl
  · exact hf.category n
  · rfl
  · exact hf.name n
  · rfl
  · exact hf.properties n

theorem MovesTo.moveOne {p : Layout.Position Float} {x y : Float} (h : MovesTo g ps f) (hp : p.id ∉ ps.map Layout.Position.id)
    (hx : g.snapFloat p.x = .ok x) (hy : g.snapFloat p.y = .ok y) : MovesTo g (p :: ps) (moveOne p.id x y f) where
  move := isMove_moveOne h.move p.id x y
  placed q hq n hn := by
    rcases List.mem_cons.1 hq with rfl | hq
    · rw [Session.moveOne, if_pos hn]
      exact ⟨hx, hy⟩
    · have hne : n.id ≠ p.id := fun he => hp (he ▸ hn ▸ List.mem_map_of_mem hq)
      rw [Session.moveOne, if_neg hne]
      exact h.placed q hq n hn
  others n hn := by
    rw [List.map_cons, List.mem_cons, not_or] at hn
    rw [Session.moveOne, if_neg hn.1]
    exact h.others n hn.2

theorem movesTo_of_placements (h : placements g ps = .ok us) (hn : (ps.map Layout.Position.id).Nodup) :
    ∃ f, MovesTo g ps f ∧ ∀ ns : List Node, ns.map Node.id = ps.map Layout.Position.id → us = ns.map (Store.moveUpdate f) := by
  induction ps generalizing us with
  | nil =>
    obtain rfl := Except.ok.inj h
    refine ⟨fun n => n, ⟨⟨fun _ => rfl, fun _ => rfl, fun _ => rfl, fun _ => rfl, fun _ => rfl⟩, by simp, fun _ _ => rfl⟩, fun ns hns => ?_⟩
    rw [List.map_eq_nil_iff.1 hns, List.map_nil]
  | cons p r ih =>
    obtain ⟨x, hx, h⟩ := bind_eq_ok.1 h
    obtain ⟨y, hy, h⟩ := bind_eq_ok.1 h
    obtain ⟨rest, hrest, h⟩ := bind_eq_ok.1 h
    obtain rfl := Except.ok.inj h
    rw [List.map_cons, List.nodup_cons] at hn
    obtain ⟨f, hf, hus⟩ := ih hrest hn.2
    refine ⟨moveOne p.id x y f, hf.moveOne hn.1 hx hy, fun ns hns => ?_⟩
    obtain ⟨n, ns, rfl, hid, hids⟩ := List.map_eq_cons_iff.1 hns
    have hfirst : Store.moveUpdate (moveOne p.id x y f) n = [("id", .text p.id), ("x", .float x), ("y", .float y)] := by
      rw [Store.moveUpdate, moveOne, if_pos hid, hid]
    have hlater : ns.map (Store.moveUpdate (moveOne p.id x y f)) = ns.map (Store.moveUpdate f) := by
      refine List.map_congr_left fun m hm => ?_
      have hne : m.id ≠ p.id := fun he => hn.1 (hids ▸ he ▸ List.mem_map_of_mem hm)
      rw [Store.moveUpdate, moveOne, if_neg hne, Store.moveUpdate]
    rw [List.map_cons, hfirst, hlater, hus ns hids]

end Positions

/-- What a layout relies on: nodes stand under their ids and connections between nodes, and the measures were accepted. -/
structure IsArrangeable (s : Session) : Prop where
  sound : s.graph.IsSound
  grid : 1 ≤ s.grid.size
  measures : s.config.layout.IsAccepted

theorem isArrangeable_afterAll {data : Yaml.Data} {config : EditorConfig} {catalog : Catalog} {cs : List Call}
    (hconfig : Config.parse data = .ok config) (hown : ∀ c ∈ cs, c.IsOwn) : ((start config catalog).afterAll cs).IsArrangeable := by
  obtain ⟨hgrid, hmeasures⟩ := Config.accepted_of_parse hconfig
  have hreadable : ((start config catalog).afterAll cs).IsReadable := isReadable_afterAll hgrid hown
  refine ⟨hreadable.sound, hreadable.core.grid, ?_⟩
  rw [config_afterAll hown]
  exact hmeasures

/-- Is a session as before but for nodes that were moved, with siblings that are placed from left to right? -/
structure LaidOut (s t : Session) (f : Node → Node) : Prop where
  move : IsMove f
  settings : t = { s with store := t.store }
  nodes : t.graph.nodes = Table.mapValues f s.graph.nodes
  connections : t.graph.connections = s.graph.connections
  unplaced : ∀ n ∈ s.graph.nodeList, n.id ∉ (walkAll s.hierarchy).map Node.id → f n = n
  ascending : ∀ p ∈ partsAll s.hierarchy, p.children.Pairwise fun u v =>
    (f u.node).x.isNaN = false → (f v.node).x.isNaN = false → (f u.node).x ≤ (f v.node).x

theorem MovesTo.ascending (hs : s.IsArrangeable) (h : MovesTo s.grid (Layout.forest s.config.layout s.hierarchy) f) {p : Tree}
    (hp : p ∈ partsAll s.hierarchy) : p.children.Pairwise fun u v =>
      (f u.node).x.isNaN = false → (f v.node).x.isNaN = false → (f u.node).x ≤ (f v.node).x := by
  refine (Layout.forest_ascends hs.measures.nodeWidth hs.measures.spacingX hp).imp ?_
  rintro u v ⟨x, y, ⟨q, hq, hqid, rfl⟩, ⟨r, hr, hrid, rfl⟩, hle⟩ hu hv
  have hx := (h.placed q hq u.node hqid.symm).1
  have hy := (h.placed r hr v.node hrid.symm).1
  have hle := hle (GridSettings.isNaN_of_snapFloat hs.grid hx hu) (GridSettings.isNaN_of_snapFloat hs.grid hy hv)
  exact GridSettings.snapFloat_mono hs.grid hle hx hy

/-- A layout fails as a whole, or it gives the ids of all nodes that hang from a root and has moved them. -/
theorem autoLayout_cases (hs : s.IsArrangeable) : (∃ e, s.autoLayout = (.error e, s)) ∨
    ∃ f t, s.autoLayout = (.ok ((walkAll s.hierarchy).map Node.id), t) ∧ LaidOut s t f := by
  have hspans : Spans s.graph.nodeList s.graph.connectionList s.hierarchy := forest_spans hs.sound.ids_nodup
  have hids := Layout.forest_ids s.config.layout s.hierarchy
  cases hp : placements s.grid (Layout.forest s.config.layout s.hierarchy) with
  | error e =>
    refine .inl ⟨.number e, ?_⟩
    rw [autoLayout, hp]
  | ok us =>
    obtain ⟨f, hf, hus⟩ := movesTo_of_placements hp (hids ▸ hspans.nodup)
    have hrest : ∀ n ∈ s.graph.nodeList, n.id ∉ (walkAll s.hierarchy).map Node.id → f n = n :=
      fun n _ hn => hf.others n (hids ▸ hn)
    have hupdates : ∀ n ∈ walkAll s.hierarchy, Store.LeadsTo (Store.moveUpdate f) f n := fun n _ => Store.leadsTo_moveUpdate hf.move n
    obtain ⟨hresult, hgraph⟩ := Store.updateNodes_moves hf.move hs.sound hspans.mem hspans.nodup hupdates hrest
    rw [← hus _ hids.symm] at hresult hgraph
    have hconnections := congrArg Graph.connections hgraph
    refine .inr ⟨f, { s with store := (s.store.updateNodes us).2 }, ?_, ?_⟩
    · rw [autoLayout, hp]
      dsimp only
      rw [onStore, hresult]
      rfl
    · exact {
        move := hf.move
        settings := rfl
        nodes := congrArg Graph.nodes hgraph
        connections := hconnections
        unplaced := hrest
        ascending := fun p hp => hf.ascending hs hp }

namespace LaidOut

theorem nodeList (h : LaidOut s t f) : t.graph.nodeList = s.graph.nodeList.map f := by
  rw [Graph.nodeList, h.nodes, Table.values_mapValues, Graph.nodeList]

theorem connectionList (h : LaidOut s t f) : t.graph.connectionList = s.graph.connectionList :=
  congrArg Table.values h.connections

theorem hierarchy_eq (h : LaidOut s t f) : t.hierarchy = forest (s.graph.nodeList.map f) s.graph.connectionList := by
  rw [hierarchy, h.nodeList, h.connectionList]

theorem roots (h : LaidOut s t f) (hs : s.graph.IsSound) : t.hierarchy.map Tree.node = (s.hierarchy.map Tree.node).map f := by
  have hids : ((s.graph.nodeList.map f).map Node.id).Nodup := by
    rw [h.move.map_ids]
    exact hs.ids_nodup
  rw [h.hierarchy_eq, (forest_spans hids).roots, roots_map h.move, hierarchy, (forest_spans hs.ids_nodup).roots]

theorem hierarchy_iff (h : LaidOut s t f) (hs : s.graph.IsSound) (hx : ∀ n ∈ t.graph.nodeList, n.x.isNaN = false) :
    t.hierarchy = s.hierarchy.map (Tree.map f) ↔ ∀ p ∈ partsAll s.hierarchy, p.children.Pairwise fun u v =>
      (f v.node).x ≤ (f u.node).x →
        firstPlace s.graph.connectionList p.node.id u.node.id < firstPlace s.graph.connectionList p.node.id v.node.id := by
  rw [h.nodeList] at hx
  have hnumber : ∀ p ∈ partsAll s.hierarchy, ∀ u ∈ p.children, (f u.node).x.isNaN = false := by
    intro p hp u hu
    have hsub := (forest_grown hs.ids_nodup).children_sublist hp
    have hmem := ((mem_noted hs.ids_nodup).1 (hsub.subset (List.mem_map_of_mem hu))).1
    exact hx _ (List.mem_map_of_mem hmem)
  rw [h.hierarchy_eq, hierarchy, forest_map_iff hs.ids_nodup (fun c hc => (hs.ends c hc).2) h.move hx]
  refine forall₂_congr fun p hp => ?_
  constructor
  · exact fun horder => horder.imp fun huv => by simpa only [h.move.id] using huv.2
  · refine fun horder => ((h.ascending p hp).and horder).imp_of_mem fun {u v} hu hv huv => ⟨?_, ?_⟩
    · exact huv.1 (hnumber p hp u hu) (hnumber p hp v hv)
    · simpa only [h.move.id] using huv.2

theorem exportXml_eq (h : LaidOut s t f) (hkept : t.hierarchy = s.hierarchy.map (Tree.map f)) : t.exportXml = s.exportXml := by
  have hconfig : t.config = s.config := by rw [h.settings]
  have htypes : t.customTypes = s.customTypes := by rw [h.settings]
  have hvalid : t.validateTree = s.validateTree := by
    rw [validateTree, h.nodeList, h.connectionList, Semantics.check_map h.move, hconfig, validateTree]
  rw [Session.exportXml, hvalid, hkept, Xml.document_map h.move, hconfig, htypes, Session.exportXml]

end LaidOut

/-- Whatever a session has been through, a layout leaves it as it is or moves nodes and does nothing else. The roots stay the same. Unless
some coordinate is no number then, later siblings stand nowhere to the left of earlier ones, and the trees are the same as before if
and only if siblings that stand at the same place now are in the order in which they were connected first. If the trees are the same,
so is what is exported. -/
theorem layout_keeps_trees_iff {data : Yaml.Data} {config : EditorConfig} {catalog : Catalog} {cs : List Call}
    (hconfig : Config.parse data = .ok config) (hown : ∀ c ∈ cs, c.IsOwn) (hs : (start config catalog).afterAll cs = s) :
    (∃ e, s.autoLayout = (.error e, s)) ∨
      ∃ f t, s.autoLayout = (.ok ((walkAll s.hierarchy).map Node.id), t) ∧ LaidOut s t f ∧
        t.hierarchy.map Tree.node = (s.hierarchy.map Tree.node).map f ∧
          ((∀ n ∈ t.graph.nodeList, n.x.isNaN = false) →
            (t.hierarchy = s.hierarchy.map (Tree.map f) ↔ ∀ p ∈ partsAll s.hierarchy, p.children.Pairwise fun u v =>
              (f v.node).x ≤ (f u.node).x →
                firstPlace s.graph.connectionList p.node.id u.node.id < firstPlace s.graph.connectionList p.node.id v.node.id)) ∧
            (t.hierarchy = s.hierarchy.map (Tree.map f) → t.exportXml = s.exportXml) := by
  have harrangeable : s.IsArrangeable := hs ▸ isArrangeable_afterAll hconfig hown
  refine (autoLayout_cases harrangeable).imp_right ?_
  rintro ⟨f, t, hlayout, hlaid⟩
  exact ⟨f, t, hlayout, hlaid, hlaid.roots harrangeable.sound, hlaid.hierarchy_iff harrangeable.sound, hlaid.exportXml_eq⟩

def forkRoot (p : Float × Float) : Node := ⟨"r", "Sequence", "composite", "Sequence", p.1, p.2, []⟩

def forkLeaf (id : String) (p : Float × Float) : Node := ⟨id, "AlwaysSuccess", "action", "AlwaysSuccess", p.1, p.2, []⟩

def forkNodes (r a b : Float × Float) : List Node := [forkRoot r, forkLeaf "a" a, forkLeaf "b" b]

def forkConnections : List Connection := [⟨"c1", "r", "a"⟩, ⟨"c2", "r", "b"⟩]

theorem growAll_fork {successors : String → List Node} {r u v : Node} (hr : successors r.id = [u, v]) (hu : successors u.id = [])
    (hv : successors v.id = []) (hids : [r.id, u.id, v.id].Nodup) :
    growAll successors 3 [r] [] = [.branch r [.branch u [], .branch v []]] := by
  simp only [List.nodup_cons, List.mem_cons, List.not_mem_nil, or_false, not_or] at hids
  obtain ⟨⟨hru, hrv⟩, huv, -⟩ := hids
  simp [growAll, grow, claim, hr, hu, hv, Ne.symm hru, Ne.symm hrv, Ne.symm huv]

theorem forest_fork (r a b : Float × Float) : forest (forkNodes r a b) forkConnections = [.branch (forkRoot r)
    (if a.1 ≤ b.1 then [.branch (forkLeaf "a" a) [], .branch (forkLeaf "b" b) []]
      else [.branch (forkLeaf "b" b) [], .branch (forkLeaf "a" a) []])] := by
  have htargets : targets (forkNodes r a b) forkConnections "r" = [forkLeaf "a" a, forkLeaf "b" b] := rfl
  have hroot : noted (forkNodes r a b) forkConnections "r" =
      if a.1 ≤ b.1 then [forkLeaf "a" a, forkLeaf "b" b] else [forkLeaf "b" b, forkLeaf "a" a] := by
    have hx : ∀ id p, (forkLeaf id p).x = p.1 := fun _ _ => rfl
    rw [noted_eq List.mem_cons_self, successors_eq, htargets]
    by_cases hle : a.1 ≤ b.1 <;> simp [List.mergeSort, hx, hle]
  have hroots : Hierarchy.roots (forkNodes r a b) forkConnections = [forkRoot r] := rfl
  rw [forest_eq, hroots]
  split_ifs at hroot ⊢
  · exact growAll_fork hroot rfl rfl (by simp [forkRoot, forkLeaf])
  · exact growAll_fork hroot rfl rfl (by simp [forkRoot, forkLeaf])

def forkTree (r a b : Float × Float) : Tree := .branch (forkRoot r) [.branch (forkLeaf "b" b) [], .branch (forkLeaf "a" a) []]

def forkRun : List Call :=
  [.loadSource (.object [("nodes", .list ((forkNodes (0.0, 0.0) (10.0, 0.0) (0.0, 0.0)).map Node.toValue)),
    ("connections", .list (forkConnections.map Connection.toValue))])]

def forked (size : Int) : Session := (start { grid := { size := size } } .standard).afterAll forkRun

theorem graph_forked (size : Int) : (forked size).graph =
    ⟨Table.under Node.id (forkNodes (0.0, 0.0) (10.0, 0.0) (0.0, 0.0)), Table.under Connection.id forkConnections⟩ := rfl

theorem hierarchy_forked (size : Int) : (forked size).hierarchy = [forkTree (0.0, 0.0) (10.0, 0.0) (0.0, 0.0)] := by
  have hright : ¬ (10.0 : Float) ≤ 0.0 := by decide
  rw [hierarchy, graph_forked, Graph.nodeList, Graph.connectionList, Table.values_under, Table.values_under, forest_fork,
    if_neg hright, forkTree]

def gridPlace (g : GridSettings) (p : Layout.Position Float) : Except NumberFault Float × Except NumberFault Float :=
  (g.snapFloat p.x, g.snapFloat p.y)

theorem placements_of_places {g : GridSettings} {ps : List (Layout.Position Float)} {qs : List (Float × Float)}
    (h : ps.map (gridPlace g) = qs.map fun q => (.ok q.1, .ok q.2)) :
    placements g ps = .ok (List.zipWith (fun p q => [("id", .text p.id), ("x", .float q.1), ("y", .float q.2)]) ps qs) := by
  induction ps generalizing qs with
  | nil => rfl
  | cons p ps ih =>
    cases qs with
    | nil => cases h
    | cons q qs =>
      obtain ⟨hhead, htail⟩ := List.cons.inj h
      obtain ⟨hx, hy⟩ := Prod.mk.inj hhead
      rw [placements, hx, hy, ih htail]
      rfl

theorem autoLayout_forked {size : Int} {r a b : Float × Float}
    (h : (Layout.forest Layout.defaultOptions [forkTree (0.0, 0.0) (10.0, 0.0) (0.0, 0.0)]).map (gridPlace { size := size }) =
      [r, b, a].map fun q => (.ok q.1, .ok q.2)) :
    ∃ t, (forked size).autoLayout = (.ok ["r", "b", "a"], t) ∧
      t.graph = ⟨Table.under Node.id (forkNodes r a b), Table.under Connection.id forkConnections⟩ := by
  have hpositions : placements (forked size).grid (Layout.forest (forked size).config.layout (forked size).hierarchy) =
      .ok ([forkRoot r, forkLeaf "b" b, forkLeaf "a" a].map (Store.moveUpdate fun n => n)) := by
    rw [hierarchy_forked]
    exact placements_of_places h
  refine ⟨(forked size).autoLayout.2, ?_, ?_⟩
  · rw [autoLayout, hpositions]
    rfl
  · rw [autoLayout, hpositions]
    rfl

theorem autoLayout_forked_wide : ∃ t, (forked 1000).autoLayout = (.ok ["r", "b", "a"], t) ∧
    t.graph = ⟨Table.under Node.id (forkNodes (0.0, 0.0) (0.0, 0.0) (0.0, 0.0)), Table.under Connection.id forkConnections⟩ :=
  autoLayout_forked (by decide +kernel)

theorem autoLayout_forked_narrow : ∃ t, (forked 20).autoLayout = (.ok ["r", "b", "a"], t) ∧
    t.graph = ⟨Table.under Node.id (forkNodes (80.0, 0.0) (160.0, 60.0) (0.0, 60.0)), Table.under Connection.id forkConnections⟩ :=
  autoLayout_forked (by decide +kernel)

/-- On a grid that is narrower than the nodes, the children stand side by side and the tree stays. -/
theorem forked_narrow_keeps_tree : Config.parse (.map []) = .ok {} ∧ (∀ c ∈ forkRun, c.IsOwn) ∧
    ∃ f t, (forked 20).autoLayout = (.ok ["r", "b", "a"], t) ∧ LaidOut (forked 20) t f ∧
      t.hierarchy = (forked 20).hierarchy.map (Tree.map f) ∧ t.exportXml = (forked 20).exportXml := by
  have hconfig : Config.parse (.map []) = .ok {} := rfl
  have hown : ∀ c ∈ forkRun, c.IsOwn := by simp [forkRun, Call.IsOwn]
  have hsession : (start {} .standard).afterAll forkRun = forked 20 := rfl
  obtain ⟨u, hu, hgraph⟩ := autoLayout_forked_narrow
  have hplaces : u.graph.nodeList = forkNodes (80.0, 0.0) (160.0, 60.0) (0.0, 60.0) := by
    rw [hgraph]
    exact Table.values_under _
  rcases layout_keeps_trees_iff hconfig hown hsession with ⟨e, he⟩ | ⟨f, t, ht, hlaid, -, hiff, hexport⟩
  · rw [hu] at he
    cases he
  obtain rfl : u = t := (Prod.mk.inj (hu.symm.trans ht)).2
  have hmoved : forkNodes (80.0, 0.0) (160.0, 60.0) (0.0, 60.0) = (forkNodes (0.0, 0.0) (10.0, 0.0) (0.0, 0.0)).map f :=
    hplaces.symm.trans hlaid.nodeList
  obtain ⟨-, hmoved⟩ := List.cons.inj hmoved
  obtain ⟨ha, hmoved⟩ := List.cons.inj hmoved
  obtain ⟨hb, -⟩ := List.cons.inj hmoved
  have hkept : u.hierarchy = (forked 20).hierarchy.map (Tree.map f) := by
    refine (hiff ?_).2 fun p hp => ?_
    · rw [hplaces]
      decide +kernel
    · rw [hierarchy_forked] at hp
      simp only [partsAll, parts, forkTree, List.append_nil, List.cons_append, List.nil_append, List.mem_cons, List.not_mem_nil,
        or_false] at hp
      rcases hp with rfl | rfl | rfl
      · refine List.pairwise_pair.2 fun hle => ?_
        rw [node, node, ← ha, ← hb] at hle
        exact absurd hle (by decide)
      · exact .nil
      · exact .nil
  exact ⟨hconfig, hown, f, u, hu, hlaid, hkept, hexport hkept⟩

/-- On a wide grid all nodes come to the same place, and the children change places. -/
theorem forked_wide_turns_children_round :
    Config.parse (.map [(.text "grid", .map [(.text "size", .int 1000)])]) = .ok { grid := { size := 1000 } } ∧
      (∀ c ∈ forkRun, c.IsOwn) ∧
        let s := (start { grid := { size := 1000 } } .standard).afterAll forkRun
        (∀ n ∈ s.graph.nodeList, n.x.isFinite && n.y.isFinite) ∧ s.hierarchy.map (fun t => t.walk.map Node.id) = [["r", "b", "a"]] ∧
          ∃ t, s.autoLayout = (.ok ["r", "b", "a"], t) ∧ t.hierarchy.map (fun t => t.walk.map Node.id) = [["r", "a", "b"]] := by
  have hown : ∀ c ∈ forkRun, c.IsOwn := by simp [forkRun, Call.IsOwn]
  have hbefore : (forked 1000).hierarchy.map (fun t => t.walk.map Node.id) = [["r", "b", "a"]] := by
    rw [hierarchy_forked]
    rfl
  obtain ⟨t, ht, hgraph⟩ := autoLayout_forked_wide
  refine ⟨rfl, hown, by decide +kernel, hbefore, t, ht, ?_⟩
  have hsame : (0.0 : Float) ≤ 0.0 := by decide
  rw [hierarchy, hgraph, Graph.nodeList, Graph.connectionList, Table.values_under, Table.values_under, forest_fork, if_pos hsame]
  rfl

end BehaviorTree.Session
