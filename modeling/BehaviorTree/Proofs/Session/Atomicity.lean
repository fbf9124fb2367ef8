import BehaviorTree.Proofs.Document.Decode
import BehaviorTree.Proofs.Session.Loading

/-!
Loading is all or nothing. What can go wrong is found out before the session changes: a document that could be decoded makes a graph,
so that nothing fails once the first part of it is taken over.
-/

set_option autoImplicit false

namespace BehaviorTree.Session

variable {s t : Session} {l : Loaded} {source : Value}

/-- What a session is after it took over a document. What the document says is in its place, the transient state is gone but for the
viewport, and the last that was told is that a document was loaded. -/
structure TookOver (s : Session) (l : Loaded) (t : Session) : Prop where
  nodes : t.graph.nodes = Table.under Node.id l.nodes
  connections : t.graph.connections = Table.under Connection.id l.connections
  nodeIds : t.store.nodeIds = { s.store.nodeIds with next := l.nextNode }
  connectionIds : t.store.connectionIds = { s.store.connectionIds with next := l.nextConnection }
  customTypes : t.customTypes = l.customTypes
  collapsed : t.collapsed = l.collapsed
  grid : t.grid = if l.gridPresent then l.grid else s.grid
  viewport : t.viewport = s.viewport
  selection : t.selection = {}
  pending : t.pending = none
  box : t.box = {}
  monitor : t.monitor = { s.monitor with states := [] }
  fixed : t.config = s.config ∧ t.catalog = s.catalog
  told : t.store.outbox = s.store.outbox ++ (if s.monitor.states.isEmpty then [] else [⟨.statusStopped, t.graph⟩]) ++
    [⟨.stateLoaded l.nodes.length l.connections.length, t.graph⟩]

theorem clear_eq (m : Monitor) (s : Store) : m.clear s =
    ({ m with states := [] }, if m.states.isEmpty then s else s.emit .statusStopped) := by
  obtain ⟨states, active⟩ := m
  cases states <;> rfl

theorem apply_tookOver (h : IsConsistent (l.nodes.map Node.id) l.connections) : ∃ t, s.apply l = (.ok (), t) ∧ TookOver s l t := by
  unfold apply Store.load
  rw [Store.graphOf_of_consistent h]
  refine ⟨_, rfl, ?_⟩
  unfold resetTransient
  rw [clear_eq]
  by_cases hstates : s.monitor.states = []
  · constructor <;> simp [graph, emit, Store.emit, hstates]
  · constructor <;> simp [graph, emit, Store.emit, hstates]

theorem loadSource_of_refused {f : Semantics.Fault} (h : Document.decode source = .ok l)
    (hcheck : Semantics.check l.nodes l.connections s.config.output.requireSingleRoot = .error f) :
    s.loadSource source = (.error (.semantic f), s) := by
  rw [loadSource, h]
  simp only [applyChecked, hcheck]

theorem loadSource_of_accepted (h : Document.decode source = .ok l)
    (hcheck : Semantics.check l.nodes l.connections s.config.output.requireSingleRoot = .ok ()) :
    ∃ t, s.loadSource source = (.ok l, t) ∧ TookOver s l t := by
  obtain ⟨t, happly, htook⟩ := apply_tookOver (s := s) (Document.isUsable_of_decode h).consistent
  refine ⟨t, ?_, htook⟩
  rw [loadSource, h]
  simp only [applyChecked, hcheck, happly]
  rfl

theorem loadSource_succeeds_iff (h : Document.decode source = .ok l) :
    (∃ m t, s.loadSource source = (.ok m, t)) ↔
      Semantics.check l.nodes l.connections s.config.output.requireSingleRoot = .ok () := by
  refine ⟨fun ⟨m, t, ht⟩ => ?_, fun hcheck => ?_⟩
  · cases hcheck : Semantics.check l.nodes l.connections s.config.output.requireSingleRoot with
    | error f =>
      rw [loadSource_of_refused h hcheck] at ht
      cases ht
    | ok => rfl
  · obtain ⟨t, ht, _⟩ := loadSource_of_accepted h hcheck
    exact ⟨l, t, ht⟩

/-- A document is loaded whole or not at all. Either the source cannot be decoded, or what comes out of it is no valid tree, and then
the session is as it was, its outbox included; or the session takes all of it over. -/
theorem loadSource_all_or_nothing (s : Session) (source : Value) :
    (∃ f, Document.decode source = .error f ∧ s.loadSource source = (.error (.document f), s)) ∨
      (∃ l f, Document.decode source = .ok l ∧
        Semantics.check l.nodes l.connections s.config.output.requireSingleRoot = .error f ∧
          s.loadSource source = (.error (.semantic f), s)) ∨
        ∃ l t, Document.decode source = .ok l ∧
          Semantics.check l.nodes l.connections s.config.output.requireSingleRoot = .ok () ∧
            s.loadSource source = (.ok l, t) ∧ TookOver s l t := by
  cases hdecoded : Document.decode source with
  | error f => exact .inl ⟨f, rfl, by rw [loadSource, hdecoded]⟩
  | ok l =>
    cases hcheck : Semantics.check l.nodes l.connections s.config.output.requireSingleRoot with
    | error f => exact .inr (.inl ⟨l, f, rfl, hcheck, loadSource_of_refused hdecoded hcheck⟩)
    | ok =>
      obtain ⟨t, ht, htook⟩ := loadSource_of_accepted hdecoded hcheck
      exact .inr (.inr ⟨l, t, rfl, hcheck, ht, htook⟩)

end BehaviorTree.Session
