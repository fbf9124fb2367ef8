import BehaviorTree.Proofs.Session.Requests
import BehaviorTree.Proofs.Store.Loading
import BehaviorTree.Proofs.Tree.Insertion

/-!
Loading. A document is taken over as a whole, its graph with its counters and its custom types, or the session stays as it is. The
graph need not be one that editing could lead to: cycles away from the roots, second parents and too many children are let in.
-/

set_option autoImplicit false

namespace BehaviorTree.Session

theorem apply_cases (s : Session) (l : Loaded) :
    (∃ f, s.apply l = (.error f, s)) ∨
      ∃ g t, Store.graphOf l.nodes l.connections = .ok g ∧ s.apply l = (.ok (), t) ∧
        t.core = ⟨⟨g, ⟨s.store.nodeIds.tag, l.nextNode⟩, ⟨s.store.connectionIds.tag, l.nextConnection⟩⟩, l.customTypes, s.catalog,
          if l.gridPresent then l.grid else s.grid⟩ := by
  unfold apply Store.load
  cases hgraph : Store.graphOf l.nodes l.connections with
  | error f => exact .inl ⟨_, rfl⟩
  | ok g => exact .inr ⟨g, _, rfl, rfl, core_resetTransient _⟩

theorem loadSource_cases (s : Session) (source : Value) :
    (∃ f, s.loadSource source = (.error f, s)) ∨
      ∃ l t, Document.decode source = .ok l ∧
        Semantics.check l.nodes l.connections s.config.output.requireSingleRoot = .ok () ∧ s.apply l = (.ok (), t) ∧
          s.loadSource source = (.ok l, t) := by
  unfold loadSource
  split
  · exact .inl ⟨_, rfl⟩
  · rename_i l hl
    unfold applyChecked
    split
    · exact .inl ⟨_, rfl⟩
    · rename_i hchecked
      rcases apply_cases s l with ⟨f, happly⟩ | ⟨_, t, _, happly, _⟩
      · exact .inl ⟨f, by rw [happly]; rfl⟩
      · exact .inr ⟨l, t, hl, hchecked, happly, by rw [happly]; rfl⟩

open EdgeRules

theorem exists_eq_ok {α : Type} {r : Outcome α} (h : r.1.isOk) : ∃ a, r = (.ok a, r.2) := by
  obtain ⟨x, t⟩ := r
  cases x with
  | error f => cases h
  | ok a => exact ⟨a, rfl⟩

theorem loadSource_eq_ok {s t : Session} {source : Value} {l : Loaded} (h : s.loadSource source = (.ok l, t)) :
    t.graph.IsSound ∧ t.graph.nodeList = l.nodes ∧ t.graph.connectionList = l.connections ∧
      t.definition? = s.catalog.find? l.customTypes := by
  rcases loadSource_cases s source with ⟨f, hload⟩ | ⟨m, u, _, _, happly, hload⟩
  · rw [hload] at h
    cases h
  · rw [hload] at h
    obtain ⟨hm, rfl⟩ := Prod.mk.inj h
    obtain rfl := Except.ok.inj hm
    rcases apply_cases s m with ⟨f, hfailed⟩ | ⟨g, v, hg, happlied, hcore⟩
    · rw [hfailed] at happly
      cases happly
    · rw [happlied] at happly
      obtain ⟨_, rfl⟩ := Prod.mk.inj happly
      obtain ⟨hsound, hnodes, hconnections⟩ := Store.graphOf_eq_ok hg
      have hgraph : v.graph = g := congrArg (fun c => c.content.graph) hcore
      have hlookup : v.definition? = s.catalog.find? m.customTypes := congrArg Core.lookup hcore
      exact ⟨hgraph ▸ hsound, hgraph ▸ hnodes, hgraph ▸ hconnections, hlookup⟩

/-- The graph of a document that was loaded is one that could be made connection by connection, each accepted at that moment, if and
only if it is a forest and no node has more children of known types than its own type allows. -/
theorem loaded_can_be_built_iff (s t : Session) (source : Value) (l : Loaded) (h : s.loadSource source = (.ok l, t)) :
    t.graph.nodeList = l.nodes ∧ t.graph.connectionList = l.connections ∧ t.definition? = s.catalog.find? l.customTypes ∧
      ((∃ order : List Connection, order.Perm l.connections ∧ Builds t.graph.nodeList t.definition? order) ↔
        IsForest t.graph.ids l.connections ∧ FitsLimits t.graph.nodeList t.definition? l.connections) := by
  obtain ⟨hsound, hnodes, hconnections, hlookup⟩ := loadSource_eq_ok h
  exact ⟨hnodes, hconnections, hlookup, exists_order_iff hsound.ids_nodup⟩

def plainNode (id type category : String) : Value :=
  .object [("id", .text id), ("type", .text type), ("category", .text category), ("x", .float 0.0), ("y", .float 0.0),
    ("properties", .object [])]

def documentOf (nodes : List Value) (connections : List Connection) : Value :=
  .object [("nodes", .list nodes), ("connections", .list (connections.map Connection.toValue))]

def inverterDocument : Value :=
  documentOf [plainNode "i" "Inverter" "decorator", plainNode "a" "Mystery" "action", plainNode "b" "AlwaysSuccess" "action"]
    [⟨"c1", "i", "a"⟩, ⟨"c2", "i", "b"⟩]

/-- In the order of the document the second connection would be refused, in the other order neither is. -/
theorem inverterDocument_can_be_built :
    ∃ l t, (start {} .standard).loadSource inverterDocument = (.ok l, t) ∧ l.connections = [⟨"c1", "i", "a"⟩, ⟨"c2", "i", "b"⟩] ∧
      check t.graph.nodeList [⟨"c1", "i", "a"⟩] t.definition? "i" "b" ≠ .ok () ∧
        Builds t.graph.nodeList t.definition? [⟨"c2", "i", "b"⟩, ⟨"c1", "i", "a"⟩] ∧
          IsForest t.graph.ids l.connections ∧ FitsLimits t.graph.nodeList t.definition? l.connections := by
  obtain ⟨l, h⟩ := exists_eq_ok (r := (start {} .standard).loadSource inverterDocument) (by decide +kernel)
  let t := ((start {} .standard).loadSource inverterDocument).2
  obtain ⟨_, hconnections, _, hiff⟩ := loaded_can_be_built_iff _ t inverterDocument l h
  have hl : l.connections = [⟨"c1", "i", "a"⟩, ⟨"c2", "i", "b"⟩] := hconnections.symm.trans (by decide +kernel)
  have hone : Builds t.graph.nodeList t.definition? [⟨"c2", "i", "b"⟩] := .snoc [] _ .nil (by decide +kernel)
  have hboth : Builds t.graph.nodeList t.definition? [⟨"c2", "i", "b"⟩, ⟨"c1", "i", "a"⟩] :=
    .snoc [_] _ hone (by decide +kernel)
  have hp : [⟨"c2", "i", "b"⟩, ⟨"c1", "i", "a"⟩].Perm l.connections := hl ▸ List.Perm.swap _ _ _
  exact ⟨l, t, h, hl, by decide +kernel, hboth, hiff.1 ⟨_, hp, hboth⟩⟩

def loopDocument : Value :=
  documentOf [plainNode "a" "AlwaysSuccess" "action", plainNode "b" "Sequence" "composite"] [⟨"c1", "b", "b"⟩]

/-- The leaf is a root, the sequence is no leaf, and so the document is loaded; but no connection from a node to itself is accepted. -/
theorem loopDocument_cannot_be_built :
    ∃ l t, (start {} .standard).loadSource loopDocument = (.ok l, t) ∧
      ¬ ∃ order : List Connection, order.Perm t.graph.connectionList ∧ Builds t.graph.nodeList t.definition? order := by
  obtain ⟨l, h⟩ := exists_eq_ok (r := (start {} .standard).loadSource loopDocument) (by decide +kernel)
  refine ⟨l, _, h, ?_⟩
  rintro ⟨order, hp, hbuilt⟩
  have hforest := hbuilt.isForest (loadSource_eq_ok h).1.ids_nodup
  have hloop : (⟨"c1", "b", "b"⟩ : Connection) ∈ order := hp.mem_iff.2 (by decide +kernel)
  exact hforest.acyclic "b" (.single ⟨_, hloop, rfl, rfl⟩)

end BehaviorTree.Session
