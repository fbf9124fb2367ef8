import BehaviorTree.Document.Decode
import BehaviorTree.Proofs.Graph.Forest
import BehaviorTree.Proofs.Graph.IdSequence
import BehaviorTree.Proofs.Result

/-!
What is known of a document that could be decoded: its parts refer to each other, and its counters are ahead of its ids. A document
that could not be decoded is not one of the format, or its numbers are beyond the limits.
-/

set_option autoImplicit false

namespace BehaviorTree.Document

variable {s : IdSequence} {ids seen : List String} {cs : List Connection} {next : Int} {e : Envelope} {source : Value} {l : Loaded}
  {f : Fault}

theorem repeated?_eq_none : repeated? seen ids = none ↔ ids.Nodup ∧ ∀ a ∈ ids, a ∉ seen := by
  induction ids generalizing seen with
  | nil => simp [repeated?]
  | cons a r ih =>
    rw [repeated?]
    split_ifs with ha
    · have hmem : a ∈ seen := by simpa using ha
      simp [hmem]
    · have hmem : a ∉ seen := by simpa using ha
      rw [ih, List.nodup_cons]
      grind

theorem checkConnections_eq_ok : checkConnections ids seen cs = .ok () ↔
    (cs.map Connection.id).Nodup ∧ (∀ c ∈ cs, c.id ∉ seen) ∧ ∀ c ∈ cs, c.source ∈ ids ∧ c.target ∈ ids := by
  induction cs generalizing seen with
  | nil => simp [checkConnections]
  | cons c r ih =>
    rw [checkConnections]
    split_ifs with hc
    · have hmem : c.id ∈ seen := by simpa using hc
      simp [hmem]
    · have hmem : c.id ∉ seen := by simpa using hc
      split
      · rename_i hends
        have hboth : c.source ∈ ids ∧ c.target ∈ ids := by simpa using hends
        rw [ih, List.map_cons, List.nodup_cons]
        grind
      · rename_i hends
        refine ⟨nofun, fun ⟨_, _, h⟩ => absurd ?_ hends⟩
        obtain ⟨hs, ht⟩ := h c List.mem_cons_self
        simp [hs, ht]

theorem checkReferences_eq_ok : e.checkReferences = .ok () ↔ IsConsistent (e.nodes.map NodeRecord.id) e.connections := by
  unfold Envelope.checkReferences
  split
  · rename_i a ha
    refine ⟨nofun, fun h => ?_⟩
    have hnone : repeated? [] (e.nodes.map NodeRecord.id) = none := repeated?_eq_none.2 ⟨h.nodup, by simp⟩
    exact absurd (ha.symm.trans hnone) nofun
  · rename_i hnone
    obtain ⟨hn, _⟩ := repeated?_eq_none.1 hnone
    rw [checkConnections_eq_ok]
    exact ⟨fun ⟨hc, _, he⟩ => ⟨hn, hc, he⟩, fun h => ⟨h.connections, by simp, h.ends⟩⟩

theorem id_of_toNode {r : NodeRecord} {n : Node} (h : r.toNode = .ok n) : n.id = r.id := by
  unfold NodeRecord.toNode at h
  split at h
  · rw [← Except.ok.inj h]
  · cases h

theorem ids_of_mapM {rs : List NodeRecord} {ns : List Node} (h : rs.mapM NodeRecord.toNode = .ok ns) :
    ns.map Node.id = rs.map NodeRecord.id := by
  have hall := mapM_eq_ok.1 h
  clear h
  induction hall with
  | nil => rfl
  | cons hn _ ih => rw [List.map_cons, List.map_cons, id_of_toNode hn, ih]

theorem resume_eq_ok : resume s ids = .ok next ↔ ∃ ns, s.suffixes ids = .ok ns ∧ next = IdSequence.above ns := by
  unfold resume IdSequence.resumeAfter
  cases s.suffixes ids with
  | error g => exact ⟨nofun, nofun⟩
  | ok ns => exact ⟨fun h => ⟨ns, rfl, (Except.ok.inj h).symm⟩, fun ⟨_, h, hnext⟩ => by cases h; rw [hnext]; rfl⟩

theorem isAheadOf_of_resume (h : resume s ids = .ok next) : IdSequence.IsAheadOf { s with next := next } ids := by
  obtain ⟨ns, hns, rfl⟩ := resume_eq_ok.1 h
  exact IdSequence.isAheadOf_above hns

theorem isAbove_of_resume (h : resume s ids = .ok next) : IdSequence.IsAbove { s with next := next } ids := by
  obtain ⟨ns, hns, rfl⟩ := resume_eq_ok.1 h
  exact IdSequence.isAbove_above hns

theorem exists_resume : (∃ next, resume s ids = .ok next) ↔ ∀ id ∈ ids, s.Reads id := by
  rw [← IdSequence.exists_suffixes]
  simp only [resume_eq_ok]
  exact ⟨fun ⟨_, ns, hns, _⟩ => ⟨ns, hns⟩, fun ⟨ns, hns⟩ => ⟨_, ns, hns, rfl⟩⟩

theorem toLoaded_eq_ok : e.toLoaded = .ok l ↔
    e.nodes.mapM NodeRecord.toNode = .ok l.nodes ∧ resume .nodes (l.nodes.map Node.id) = .ok l.nextNode ∧
      resume .connections (e.connections.map Connection.id) = .ok l.nextConnection ∧ l.connections = e.connections ∧
        l.customTypes = e.customTypes ∧ l.collapsed = e.collapsed ∧ l.grid = e.grid.getD {} ∧ l.gridPresent = e.grid.isSome := by
  unfold Envelope.toLoaded
  simp only [bind_eq_ok]
  constructor
  · rintro ⟨nodes, hnodes, nextNode, hnode, nextConnection, hconnection, h⟩
    obtain rfl := Except.ok.inj h
    exact ⟨hnodes, hnode, hconnection, rfl, rfl, rfl, rfl, rfl⟩
  · rintro ⟨hnodes, hnode, hconnection, hrest⟩
    refine ⟨_, hnodes, _, hnode, _, hconnection, congrArg Except.ok ?_⟩
    obtain ⟨⟨_, _, _, _, _⟩, _, _, _⟩ := l
    simp_all

theorem isAheadOf_of_toLoaded (h : e.toLoaded = .ok l) :
    IdSequence.IsAheadOf ⟨"node_", l.nextNode⟩ (l.nodes.map Node.id) ∧
      IdSequence.IsAheadOf ⟨"conn_", l.nextConnection⟩ (l.connections.map Connection.id) := by
  obtain ⟨_, hnode, hconnection, hcs, _⟩ := toLoaded_eq_ok.1 h
  exact ⟨isAheadOf_of_resume hnode, hcs ▸ isAheadOf_of_resume hconnection⟩

/-- The checks of a document, before nodes are made of its records and its counters are found. -/
def checked (source : Value) : Except Fault Envelope := do
  let e ← parse source >>= envelope
  e.checkReferences
  return e

theorem checked_eq_ok : checked source = .ok e ↔
    (∃ v, parse source = .ok v ∧ envelope v = .ok e) ∧ IsConsistent (e.nodes.map NodeRecord.id) e.connections := by
  unfold checked
  simp only [bind_eq_ok, ← checkReferences_eq_ok]
  constructor
  · rintro ⟨e', hread, _, hreferences, h⟩
    obtain rfl := Except.ok.inj h
    exact ⟨hread, hreferences⟩
  · rintro ⟨hread, hreferences⟩
    exact ⟨e, hread, (), hreferences, rfl⟩

theorem decode_eq (source : Value) : decode source = checked source >>= Envelope.toLoaded := by
  unfold decode checked
  simp only [bind_assoc, pure_bind]

theorem decode_eq_ok : decode source = .ok l ↔ ∃ e, checked source = .ok e ∧ e.toLoaded = .ok l := by rw [decode_eq, bind_eq_ok]

theorem decode_eq_error : decode source = .error f ↔ checked source = .error f ∨ ∃ e, checked source = .ok e ∧ e.toLoaded = .error f := by
  rw [decode_eq, bind_eq_error]

theorem isAheadOf_of_decode (h : decode source = .ok l) :
    IdSequence.IsAheadOf ⟨"node_", l.nextNode⟩ (l.nodes.map Node.id) ∧
      IdSequence.IsAheadOf ⟨"conn_", l.nextConnection⟩ (l.connections.map Connection.id) := by
  obtain ⟨_, _, h⟩ := decode_eq_ok.1 h
  exact isAheadOf_of_toLoaded h

/-- Do the parts of a decoded document refer to each other, with counters above the numbers of its ids? -/
structure IsUsable (l : Loaded) : Prop where
  consistent : IsConsistent (l.nodes.map Node.id) l.connections
  nodeIds : IdSequence.IsAbove ⟨"node_", l.nextNode⟩ (l.nodes.map Node.id)
  connectionIds : IdSequence.IsAbove ⟨"conn_", l.nextConnection⟩ (l.connections.map Connection.id)

theorem isUsable_of_decode (h : decode source = .ok l) : IsUsable l := by
  obtain ⟨e, hchecked, h⟩ := decode_eq_ok.1 h
  obtain ⟨hnodes, hnode, hconnection, hcs, _⟩ := toLoaded_eq_ok.1 h
  have hconsistent := (checked_eq_ok.1 hchecked).2
  rw [← ids_of_mapM hnodes, ← hcs] at hconsistent
  exact ⟨hconsistent, isAbove_of_resume (s := .nodes) hnode, hcs ▸ isAbove_of_resume (s := .connections) hconnection⟩

theorem isFormat_of_parseBy {read : List Char → Except Json.Fault Value} {text : List Char} (h : parseBy read text = .error f) :
    f.isFormat = true := by
  unfold parseBy at h
  cases hread : read text with
  | ok v =>
    rw [hread] at h
    cases h
  | error g =>
    rw [hread] at h
    obtain rfl := Except.error.inj h
    rfl

theorem isFormat_of_parse (h : parse source = .error f) : f.isFormat = true := by
  cases source with
  | text s => exact isFormat_of_parseBy h
  | bytes bs =>
    rw [parse, parseBytes] at h
    split at h
    · exact isFormat_of_parseBy h
    · obtain rfl := Except.error.inj h
      rfl
  | object ms => cases h
  | _ => obtain rfl := Except.error.inj h; rfl

theorem isFormat_of_envelope {v : Value} (h : envelope v = .error f) : f.isFormat = true := by
  unfold envelope at h
  split at h
  · split at h
    · cases h
    · obtain rfl := Except.error.inj h
      rfl
  · obtain rfl := Except.error.inj h
    rfl

theorem isFormat_of_checkConnections (h : checkConnections ids seen cs = .error f) : f.isFormat = true := by
  induction cs generalizing seen with
  | nil => cases h
  | cons c r ih =>
    rw [checkConnections] at h
    split_ifs at h
    · obtain rfl := Except.error.inj h
      rfl
    · split at h
      · exact ih h
      · obtain rfl := Except.error.inj h
        rfl

theorem isFormat_of_checkReferences (h : e.checkReferences = .error f) : f.isFormat = true := by
  unfold Envelope.checkReferences at h
  split at h
  · obtain rfl := Except.error.inj h
    rfl
  · exact isFormat_of_checkConnections h

theorem isFormat_of_checked (h : checked source = .error f) : f.isFormat = true := by
  rcases bind_eq_error.1 h with h | ⟨e, _, h⟩
  · rcases bind_eq_error.1 h with h | ⟨v, _, h⟩
    · exact isFormat_of_parse h
    · exact isFormat_of_envelope h
  · rcases bind_eq_error.1 h with h | ⟨_, _, h⟩
    · exact isFormat_of_checkReferences h
    · cases h

/-- Is each coordinate within the range of floats, and can the number of each id be read? -/
structure Envelope.IsWithinLimits (e : Envelope) : Prop where
  coordinates : ∀ r ∈ e.nodes, (∃ x, r.x.toFloat = .ok x) ∧ ∃ y, r.y.toFloat = .ok y
  nodeIds : ∀ r ∈ e.nodes, IdSequence.nodes.Reads r.id
  connectionIds : ∀ c ∈ e.connections, IdSequence.connections.Reads c.id

theorem exists_toNode {r : NodeRecord} : (∃ n, r.toNode = .ok n) ↔ (∃ x, r.x.toFloat = .ok x) ∧ ∃ y, r.y.toFloat = .ok y := by
  unfold NodeRecord.toNode
  split
  · rename_i x y hx hy
    exact ⟨fun _ => ⟨⟨x, hx⟩, y, hy⟩, fun _ => ⟨_, rfl⟩⟩
  · rename_i hno
    exact ⟨nofun, fun ⟨⟨x, hx⟩, y, hy⟩ => absurd hy (hno x y hx)⟩

theorem exists_toLoaded : (∃ l, e.toLoaded = .ok l) ↔ e.IsWithinLimits := by
  constructor
  · rintro ⟨l, h⟩
    obtain ⟨hnodes, hnode, hconnection, _⟩ := toLoaded_eq_ok.1 h
    have hnodeIds := exists_resume.1 ⟨_, hnode⟩
    rw [ids_of_mapM hnodes] at hnodeIds
    exact ⟨fun r hr => exists_toNode.1 (exists_mapM_eq_ok.1 ⟨_, hnodes⟩ r hr), fun r hr => hnodeIds _ (List.mem_map_of_mem hr),
      fun c hc => exists_resume.1 ⟨_, hconnection⟩ _ (List.mem_map_of_mem hc)⟩
  · intro h
    obtain ⟨nodes, hnodes⟩ := exists_mapM_eq_ok.2 fun r hr => exists_toNode.2 (h.coordinates r hr)
    have hids : ∀ id ∈ nodes.map Node.id, IdSequence.nodes.Reads id := by
      rw [ids_of_mapM hnodes]
      exact List.forall_mem_map.2 h.nodeIds
    obtain ⟨nextNode, hnode⟩ := exists_resume.2 hids
    obtain ⟨nextConnection, hconnection⟩ := exists_resume.2 (List.forall_mem_map.2 h.connectionIds)
    exact ⟨⟨⟨nodes, e.connections, e.customTypes, e.collapsed, e.grid.getD {}⟩, nextNode, nextConnection, e.grid.isSome⟩,
      toLoaded_eq_ok.2 ⟨hnodes, hnode, hconnection, rfl, rfl, rfl, rfl, rfl⟩⟩

theorem exists_toLoaded_eq_error : (∃ f, e.toLoaded = .error f) ↔ ¬ e.IsWithinLimits := by
  rw [← exists_toLoaded]
  cases e.toLoaded with
  | error f => exact ⟨fun _ => nofun, fun _ => ⟨f, rfl⟩⟩
  | ok l => exact ⟨nofun, fun h => absurd ⟨l, rfl⟩ h⟩

theorem not_isFormat_of_toNode {r : NodeRecord} (h : r.toNode = .error f) : f.isFormat = false := by
  unfold NodeRecord.toNode at h
  split at h
  · cases h
  · obtain rfl := Except.error.inj h
    rfl

theorem not_isFormat_of_resume (h : resume s ids = .error f) : f.isFormat = false := by
  unfold resume at h
  split at h
  · cases h
  · obtain rfl := Except.error.inj h
    rfl

theorem not_isFormat_of_toLoaded (h : e.toLoaded = .error f) : f.isFormat = false := by
  rcases bind_eq_error.1 h with h | ⟨nodes, _, h⟩
  · obtain ⟨r, _, h⟩ := exists_of_mapM_eq_error h
    exact not_isFormat_of_toNode h
  rcases bind_eq_error.1 h with h | ⟨nextNode, _, h⟩
  · exact not_isFormat_of_resume h
  rcases bind_eq_error.1 h with h | ⟨nextConnection, _, h⟩
  · exact not_isFormat_of_resume h
  · cases h

/-- Whatever is given to be decoded, either a usable document comes out of it or a fault. The fault is one of the format unless
everything about the format was right and a number is beyond the limits: a coordinate is no float, or an id has too many digits. -/
theorem decode_fails_beyond_format_iff (source : Value) :
    (∀ l, decode source = .ok l → IsUsable l) ∧
      ((∃ f, decode source = .error f ∧ f.isFormat = false) ↔ ∃ e, checked source = .ok e ∧ ¬ e.IsWithinLimits) := by
  refine ⟨fun l => isUsable_of_decode, ?_, ?_⟩
  · rintro ⟨f, h, hf⟩
    rw [decode_eq] at h
    rcases bind_eq_error.1 h with h | ⟨e, he, h⟩
    · exact absurd (isFormat_of_checked h) (by simp [hf])
    · refine ⟨e, he, fun hlimits => ?_⟩
      obtain ⟨l, hl⟩ := exists_toLoaded.2 hlimits
      exact absurd (h.symm.trans hl) nofun
  · rintro ⟨e, he, hlimits⟩
    cases hl : e.toLoaded with
    | ok l => exact absurd (exists_toLoaded.1 ⟨l, hl⟩) hlimits
    | error f => exact ⟨f, by rw [decode_eq, he]; exact hl, not_isFormat_of_toLoaded hl⟩

def farDocument : Value :=
  .object [("nodes", .list [.object [("id", .text "a"), ("type", .text "AlwaysSuccess"), ("category", .text "action"),
    ("x", .int (Nat.pow 10 400)), ("y", .int 0), ("properties", .object [])]]), ("connections", .list [])]

/-- No fault of the format is found, and yet nothing comes out. -/
theorem farDocument_fails_beyond_format :
    ¬ ((∃ l, decode farDocument = .ok l ∧ IsUsable l) ∨ ∃ f, decode farDocument = .error f ∧ f.isFormat = true) := by
  have h : (match decode farDocument with | .ok _ => true | .error f => f.isFormat) = false := by decide +kernel
  rintro (⟨l, hl, _⟩ | ⟨f, hf, hformat⟩)
  · rw [hl] at h
    cases h
  · rw [hf] at h
    exact absurd hformat (by simp [h])

end BehaviorTree.Document
