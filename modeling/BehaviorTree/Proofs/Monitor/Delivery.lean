import BehaviorTree.Json.Writer
import BehaviorTree.Monitor.Stream
import BehaviorTree.Proofs.Monitor.Framing

/-!
The delivery of reports. However a series of events is cut into pieces, and whenever the inbox is drained in between, every report reaches
the monitor once, in the order of the events.
-/

set_option autoImplicit false

namespace BehaviorTree

namespace StatusStream

variable {s : StatusStream} {ps : List (List Char)} {applied pending : List Value} {es : List Framing.Event}

def readable (ps : List (List Char)) : List Value := ps.filterMap fun p => (Json.parse p).toOption

def reportsOf (es : List Framing.Event) : List Value := readable (es.filterMap Framing.Event.payload?)

theorem reportsOf_append (es fs : List Framing.Event) : reportsOf (es ++ fs) = reportsOf es ++ reportsOf fs := by
  simp only [reportsOf, readable, List.filterMap_append]

/-- What a monitor and its store become when reports are applied to it one after the other. -/
def applyAll (m : Monitor) (store : Store) (reports : List Value) : Monitor × Store :=
  reports.foldl (fun state report => state.1.apply state.2 report) (m, store)

theorem offer_eq (s : StatusStream) (p : List Char) :
    (s.offer p).2 = { s with inbox := s.inbox ++ (readable [p]).map .report } := by
  unfold offer readable
  cases hp : Json.parse p with
  | error f => simp [hp, Except.toOption]
  | ok message => simp [hp, Except.toOption]

theorem offerAll_eq (h : s.stopping = false) :
    s.offerAll ps = ((readable ps).length, { s with inbox := s.inbox ++ (readable ps).map .report }) := by
  induction ps generalizing s with
  | nil => simp [offerAll, readable]
  | cons p r ih =>
    rw [offerAll, if_neg (by rw [h]; exact Bool.false_ne_true)]
    cases hp : Json.parse p with
    | error f =>
      have hsame : readable (p :: r) = readable r := List.filterMap_cons_none (by rw [hp]; rfl)
      have hcall : s.offer p = (false, s) := by rw [offer, hp]
      simp only [hcall, ih h, hsame, Bool.false_eq_true, if_false]
    | ok message =>
      have hmore : readable (p :: r) = message :: readable r := List.filterMap_cons_some (by rw [hp]; rfl)
      have hcall : s.offer p = (true, { s with inbox := s.inbox ++ [.report message] }) := by rw [offer, hp]
      have hrest := ih (s := { s with inbox := s.inbox ++ [.report message] }) h
      simp only [hcall, hrest, hmore, if_true, List.length_cons, List.map_cons, List.append_assoc, List.singleton_append]

theorem exists_consume_eq (s : StatusStream) (lines : List Framing.Line) :
    ∃ reports : List Value, (s.consume lines).2 = { s with inbox := s.inbox ++ reports.map .report } := by
  rcases Bool.eq_false_or_eq_true s.stopping with h | h
  · refine ⟨[], ?_⟩
    rw [List.map_nil, List.append_nil, consume]
    cases Framing.payloads [] lines with
    | nil => rfl
    | cons p r => rw [offerAll, if_pos h]
  · exact ⟨_, congrArg Prod.snd (offerAll_eq h)⟩

theorem acceptAll_reports (s : StatusStream) (reports : List Value) :
    s.acceptAll (reports.map .report) =
      { s with
        monitor := (applyAll s.monitor s.store reports).1
        store := (applyAll s.monitor s.store reports).2 } := by
  induction reports generalizing s with
  | nil => rfl
  | cons report r ih =>
    have hstep : s.acceptAll ((report :: r).map .report) = (s.accept (.report report)).acceptAll (r.map .report) := rfl
    rw [hstep, ih]
    rfl

/-- The reports among what waits in the inbox: those that the next drain applies. -/
def waiting (s : StatusStream) : List Value :=
  s.inbox.filterMap fun
    | .report message => some message
    | .ended => none

/-- What a stream becomes when some reports have been applied and some more wait in its inbox. -/
def holding (s : StatusStream) (applied pending : List Value) : StatusStream :=
  { s with
    inbox := pending.map .report
    monitor := (applyAll s.monitor s.store applied).1
    store := (applyAll s.monitor s.store applied).2 }

theorem waiting_holding (s : StatusStream) (applied pending : List Value) : (s.holding applied pending).waiting = pending := by
  rw [waiting, holding, List.filterMap_map]
  exact List.filterMap_some

theorem consume_holding (h : s.stopping = false) (applied pending : List Value) (es : List Framing.Event) :
    (s.holding applied pending).consume (es.flatMap Framing.Event.lines) =
      ((reportsOf es).length, s.holding applied (pending ++ reportsOf es)) := by
  have hopen : (s.holding applied pending).stopping = false := h
  rw [consume, Framing.Event.payloads_lines, offerAll_eq hopen, holding, holding, List.map_append]
  rfl

theorem drain_holding (s : StatusStream) (applied pending : List Value) :
    (s.holding applied pending).drain = (pending.length, s.holding (applied ++ pending) []) := by
  have hcount : (s.holding applied pending).inbox.countP Delivery.isReport = pending.length := by
    rw [holding, List.countP_map]
    exact List.countP_eq_length.2 fun _ _ => rfl
  have happlied : applyAll s.monitor s.store (applied ++ pending) =
      applyAll (applyAll s.monitor s.store applied).1 (applyAll s.monitor s.store applied).2 pending := List.foldl_append
  have hstream : (s.holding applied []).acceptAll (pending.map .report) = s.holding (applied ++ pending) [] := by
    rw [acceptAll_reports, holding, holding, happlied]
  rw [drain, hcount, ← hstream]
  rfl

theorem holding_nil (h : s.inbox = []) : s.holding [] [] = s := by
  rw [holding, List.map_nil, ← h]
  rfl

theorem drain_consume (hs : s.stopping = false) (hinbox : s.inbox = []) :
    (s.consume (es.flatMap Framing.Event.lines)).2.drain.2 = s.holding (reportsOf es) [] := by
  have hcall := consume_holding hs [] [] es
  rw [holding_nil hinbox] at hcall
  rw [hcall, drain_holding]
  rfl

/-- What the session does with a stream whose events come to it piece by piece. -/
inductive Deed where
  | consume (events : List Framing.Event)
  | drain

def Deed.events : Deed → List Framing.Event
  | .consume es => es
  | .drain => []

/-- A stream with the reports that were applied so far, and with the totals of what its calls gave back. -/
structure Account where
  stream : StatusStream
  applied : List Value := []
  queued : Nat := 0
  drained : Nat := 0

namespace Account

variable {a : Account} {reports : List Value}

def after (a : Account) : Deed → Account
  | .consume es =>
    let (count, stream) := a.stream.consume (es.flatMap Framing.Event.lines)
    { a with stream := stream, queued := a.queued + count }
  | .drain =>
    let (count, stream) := a.stream.drain
    { a with stream := stream, applied := a.applied ++ a.stream.waiting, drained := a.drained + count }

def afterAll (a : Account) (deeds : List Deed) : Account := deeds.foldl after a

/-- Do the reports received so far, and no others, stand in an account, each of them either applied or waiting? -/
structure Balances (s : StatusStream) (reports : List Value) (a : Account) (pending : List Value) : Prop where
  reports_eq : a.applied ++ pending = reports
  stream_eq : a.stream = s.holding a.applied pending
  queued_eq : a.queued = a.applied.length + pending.length
  drained_eq : a.drained = a.applied.length

theorem Balances.consume (hs : s.stopping = false) (h : Balances s reports a pending) (es : List Framing.Event) :
    Balances s (reports ++ reportsOf es) (a.after (.consume es)) (pending ++ reportsOf es) := by
  have hcall := consume_holding hs a.applied pending es
  rw [← h.stream_eq] at hcall
  simp only [after, hcall]
  exact {
    reports_eq := by rw [← List.append_assoc, h.reports_eq]
    stream_eq := rfl
    queued_eq := by rw [h.queued_eq, List.length_append, Nat.add_assoc]
    drained_eq := h.drained_eq }

theorem Balances.drain (h : Balances s reports a pending) : Balances s reports (a.after .drain) [] := by
  have hcall := drain_holding s a.applied pending
  have hwaiting := waiting_holding s a.applied pending
  rw [← h.stream_eq] at hcall hwaiting
  simp only [after, hcall, hwaiting]
  exact {
    reports_eq := by rw [List.append_nil, h.reports_eq]
    stream_eq := rfl
    queued_eq := by rw [h.queued_eq, List.length_append, List.length_nil, Nat.add_zero]
    drained_eq := by rw [h.drained_eq, List.length_append] }

theorem Balances.afterAll (hs : s.stopping = false) (h : Balances s reports a pending) (deeds : List Deed) :
    ∃ left, Balances s (reports ++ reportsOf (deeds.flatMap Deed.events)) (a.afterAll deeds) left := by
  induction deeds generalizing a reports pending with
  | nil =>
    have hsame : reports ++ reportsOf ([].flatMap Deed.events) = reports := List.append_nil reports
    exact ⟨pending, hsame.symm ▸ h⟩
  | cons deed deeds ih =>
    cases deed with
    | consume es =>
      obtain ⟨left, hleft⟩ := ih (h.consume hs es)
      rw [List.append_assoc, ← reportsOf_append] at hleft
      exact ⟨left, hleft⟩
    | drain => exact ih h.drain

theorem Balances.applied_eq (h : Balances s reports a []) : a.applied = reports := by
  rw [← h.reports_eq, List.append_nil]

theorem balances_of_drain (hs : s.stopping = false) (hinbox : s.inbox = []) (deeds : List Deed) :
    Balances s (reportsOf (deeds.flatMap Deed.events)) (afterAll { stream := s } (deeds ++ [.drain])) [] := by
  have hfresh : Balances s [] { stream := s } [] :=
    { reports_eq := rfl, stream_eq := (holding_nil hinbox).symm, queued_eq := rfl, drained_eq := rfl }
  obtain ⟨left, hleft⟩ := hfresh.afterAll hs deeds
  rw [afterAll, List.foldl_append]
  exact hleft.drain

end Account

/-- Events that come to a new stream piece by piece, with the inbox drained at any time in between and at the end. Every report is applied
once and in order, as many are drained as were queued, and the stream ends as if all events had come at once. -/
theorem reports_delivered_in_order (store : Store) (monitor : Monitor) (deeds : List Deed) :
    let s : StatusStream := { store := store, monitor := monitor }
    let events := deeds.flatMap Deed.events
    let done := Account.afterAll { stream := s } (deeds ++ [.drain])
    done.applied = reportsOf events ∧
      (done.stream.monitor, done.stream.store) = applyAll monitor store done.applied ∧
      done.queued = done.drained ∧ done.drained = (reportsOf events).length ∧
      done.stream = (s.consume (events.flatMap Framing.Event.lines)).2.drain.2 := by
  intro s events done
  have h := Account.balances_of_drain (s := s) rfl rfl deeds
  refine ⟨h.applied_eq, congrArg (fun t : StatusStream => (t.monitor, t.store)) h.stream_eq, ?_, ?_, ?_⟩
  · rw [h.queued_eq, h.drained_eq, List.length_nil, Nat.add_zero]
  · rw [h.drained_eq, h.applied_eq]
  · rw [h.stream_eq, h.applied_eq, drain_consume rfl rfl]

/-- An event in bytes, one without data, one whose data cannot be read, and one whose data stand on two lines beside a comment. -/
def mixedEvents : List Framing.Event :=
  [{ body := [.bytes [0x64, 0x61, 0x74, 0x61, 0x3A, 0x5B, 0x5D]]
     closing := .bytes []
     body_isBlank := by decide
     closing_isBlank := rfl },
    { body := [.text "event: tick"]
      closing := .text "\r"
      body_isBlank := by decide
      closing_isBlank := rfl },
    { body := [.text "data: \x7b\"node_name\""]
      closing := .text ""
      body_isBlank := by decide
      closing_isBlank := rfl },
    { body := [.text ": root", .text "data: \x7b\"node_name\": \"Root\",", .nothing, .text "data:   \"status\": \"running\"\x7d\r"]
      closing := .text ""
      body_isBlank := by decide
      closing_isBlank := rfl }]

def mixedDeeds : List Deed :=
  [.consume (mixedEvents.take 1), .drain, .drain, .consume ((mixedEvents.drop 1).take 1), .consume (mixedEvents.drop 2)]

def rootStore : Store := { graph := { nodes := [("node_0", ⟨"node_0", "Sequence", "composite", "Root", 0.0, 0.0, []⟩)] } }

theorem mixedDeeds_delivered :
    let done := Account.afterAll { stream := { store := rootStore, monitor := {} } } (mixedDeeds ++ [.drain])
    done.applied.map Json.compact = ["[]", "\x7b\"node_name\": \"Root\", \"status\": \"running\"\x7d"] ∧
      done.drained = 2 ∧ done.stream.monitor.states = [("node_0", .running)] := by
  have hreports : (reportsOf (mixedDeeds.flatMap Deed.events)).map Json.compact =
      ["[]", "\x7b\"node_name\": \"Root\", \"status\": \"running\"\x7d"] := by decide +kernel
  have hcount : (reportsOf (mixedDeeds.flatMap Deed.events)).length = 2 := by decide +kernel
  have hstates : (applyAll {} rootStore (reportsOf (mixedDeeds.flatMap Deed.events))).1.states = [("node_0", .running)] := by
    decide +kernel
  have hdelivered := reports_delivered_in_order rootStore {} mixedDeeds
  dsimp only at hdelivered ⊢
  -- What the run leads to is told by the general statement; it is not computed here.
  generalize Account.afterAll { stream := { store := rootStore, monitor := {} } } (mixedDeeds ++ [.drain]) = done at hdelivered ⊢
  obtain ⟨happlied, hstream, -, hdrained, -⟩ := hdelivered
  have hmonitor : done.stream.monitor.states = (applyAll {} rootStore done.applied).1.states :=
    congrArg (fun state => state.1.states) hstream
  rw [happlied] at hmonitor ⊢
  exact ⟨hreports, hdrained.trans hcount, hmonitor.trans hstates⟩

end StatusStream

end BehaviorTree
