import BehaviorTree.Proofs.Monitor.Activity

/-!
A stream that was stopped. Stopping raises a flag, waits for the reader and empties the inbox. While the flag is up nothing but markers of
ends comes into the inbox, and these change nothing of a monitor that is clear already: until the next start no report gets through.
-/

set_option autoImplicit false

namespace BehaviorTree.StatusStream

variable {s t u : StatusStream} {h : Happening} {hs acts later : List Happening} {late : List Value} {n : Nat}

/-- Is this what a reader does on a thread of its own? -/
def Happening.IsReaders : Happening → Prop
  | .connect _ | .receive _ _ | .close _ | .fail _ _ => True
  | .start | .begin | .consume _ | .drain | .stop => False

def raised (s : StatusStream) : StatusStream := { s with stopping := true }

def unblocked (s : StatusStream) : StatusStream :=
  match s.connected with
  | some number => s.finish number
  | none => s

/-- What stopping does once it has waited for the reader. -/
def settled (s : StatusStream) : StatusStream :=
  let (m, store) := Monitor.clear { s.monitor with active := false } s.store
  { s with inbox := [], monitor := m, store := store }

/-- A stop during which readers go on for a while. Reports may still come in that were let through before the flag was raised. -/
def stopAmid (s : StatusStream) (acts : List Happening) (late : List Value) : StatusStream :=
  let t := s.raised.afterAll acts
  settled { t with inbox := t.inbox ++ late.map .report }

/-- What a stop can lead to: the reader that is connected ends at once, or readers go on while the stop waits. -/
inductive Stops (s : StatusStream) : StatusStream → Prop
  | atOnce : Stops s s.stop
  | amid (acts : List Happening) (late : List Value) (readers : ∀ h ∈ acts, h.IsReaders) : Stops s (s.stopAmid acts late)

/-- Has the monitor nothing to show, and are there only markers in the inbox, with the flag up? -/
structure IsQuiet (s : StatusStream) : Prop where
  stopping : s.stopping = true
  inbox : ∀ d ∈ s.inbox, d = .ended
  active : s.monitor.active = false
  states : s.monitor.states = []

structure Rests (s t : StatusStream) : Prop where
  stopping : t.stopping = s.stopping
  inbox : ∀ d ∈ t.inbox, d ∈ s.inbox ∨ d = .ended
  monitor : t.monitor = s.monitor
  store : t.store = s.store

theorem Rests.refl (s : StatusStream) : Rests s s := ⟨rfl, fun _ => .inl, rfl, rfl⟩

theorem Rests.trans (h : Rests s t) (k : Rests t u) : Rests s u where
  stopping := k.stopping.trans h.stopping
  inbox d hd := (k.inbox d hd).elim (h.inbox d) .inr
  monitor := k.monitor.trans h.monitor
  store := k.store.trans h.store

theorem Rests.isQuiet (h : Rests s t) (hs : s.IsQuiet) : t.IsQuiet where
  stopping := h.stopping.trans hs.stopping
  inbox d hd := (h.inbox d hd).elim (hs.inbox d) id
  active := h.monitor ▸ hs.active
  states := h.monitor ▸ hs.states

theorem rests_finish : Rests s (s.finish n) where
  stopping := rfl
  inbox _ hd := (List.mem_append.1 hd).imp_right List.mem_singleton.1
  monitor := rfl
  store := rfl

theorem rests_withParts {parts : List (List Char)} : Rests s (s.withParts n parts) := ⟨rfl, fun _ => .inl, rfl, rfl⟩

theorem rests_connect (hs : s.stopping = true) : Rests s (s.connect n) := by
  rw [connect, if_pos hs]
  split
  · exact .refl s
  · exact rests_finish

theorem rests_receive (hs : s.stopping = true) {line : Framing.Line} : Rests s (s.receive n line) := by
  unfold receive
  split
  · exact .refl s
  · split
    · exact rests_withParts
    · rw [if_pos hs]
      exact rests_finish

theorem rests_close (hs : s.stopping = true) : Rests s (s.close n) := by
  unfold close
  split
  · exact .refl s
  · split
    · rw [if_pos hs]
      exact rests_finish
    · exact rests_finish

theorem rests_fail {message : Option String} : Rests s (s.fail n message) := by
  have hends : Rests s (s.finish n) := rests_finish
  unfold fail
  split
  · exact .refl s
  · split
    · exact ⟨hends.stopping, hends.inbox, hends.monitor, hends.store⟩
    · exact hends

theorem rests_consume (hs : s.stopping = true) {lines : List Framing.Line} : Rests s (s.consume lines).2 := by
  rw [consume]
  cases Framing.payloads [] lines with
  | nil => exact .refl s
  | cons p ps =>
    rw [offerAll, if_pos hs]
    exact .refl s

theorem rests_reader (hs : s.stopping = true) (hreader : h.IsReaders) : Rests s (s.after h) := by
  cases h with
  | connect n => exact rests_connect hs
  | receive n line => exact rests_receive hs
  | close n => exact rests_close hs
  | fail n message => exact rests_fail
  | start | begin | consume | drain | stop => exact hreader.elim

theorem rests_readers (hs : s.stopping = true) (hacts : ∀ h ∈ acts, h.IsReaders) : Rests s (s.afterAll acts) := by
  induction acts generalizing s with
  | nil => exact .refl s
  | cons h acts ih =>
    obtain ⟨hreader, hrest⟩ := List.forall_mem_cons.1 hacts
    have hstep := rests_reader hs hreader
    exact hstep.trans (ih (hstep.stopping.trans hs) hrest)

theorem clear_of_no_states {m : Monitor} (store : Store) (hm : m.states = []) : m.clear store = (m, store) := by
  rw [Monitor.clear, hm]

theorem clear_inactive {m : Monitor} (store : Store) (hactive : m.active = false) (hstates : m.states = []) :
    Monitor.clear { m with active := false } store = (m, store) := by
  rw [← hactive]
  exact clear_of_no_states store hstates

theorem IsQuiet.acceptAll (hs : s.IsQuiet) {ds : List Delivery} (hds : ∀ d ∈ ds, d = .ended) : s.acceptAll ds = s := by
  induction ds with
  | nil => rfl
  | cons d ds ih =>
    obtain ⟨rfl, hrest⟩ := List.forall_mem_cons.1 hds
    have hstep : s.accept .ended = s := by
      rw [accept, clear_inactive _ hs.active hs.states]
    rw [StatusStream.acceptAll, List.foldl_cons, hstep]
    exact ih hrest

theorem IsQuiet.withoutInbox (hs : s.IsQuiet) : IsQuiet { s with inbox := [] } :=
  { hs with inbox := nofun }

theorem IsQuiet.drain_eq (hs : s.IsQuiet) : s.drain = (0, { s with inbox := [] }) := by
  have hcount : s.inbox.countP Delivery.isReport = 0 := List.countP_eq_zero.2 fun d hd => by
    rw [hs.inbox d hd]
    exact Bool.false_ne_true
  rw [drain, hcount, hs.withoutInbox.acceptAll hs.inbox]

theorem monitor_states_clear (m : Monitor) (store : Store) : (m.clear store).1.states = [] := by
  unfold Monitor.clear
  split
  · assumption
  · rfl

theorem isQuiet_settled (hs : s.stopping = true) : s.settled.IsQuiet where
  stopping := hs
  inbox := nofun
  active := monitor_active_clear ..
  states := monitor_states_clear ..

theorem IsQuiet.settled_eq (hs : s.IsQuiet) : s.settled = { s with inbox := [] } := by
  rw [settled, clear_inactive _ hs.active hs.states]

theorem stop_eq (s : StatusStream) : s.stop = s.raised.unblocked.settled := rfl

theorem rests_unblocked : Rests s s.unblocked := by
  unfold unblocked
  split
  · exact rests_finish
  · exact .refl s

theorem Stops.isQuiet (h : s.Stops t) : t.IsQuiet ∧ t.inbox = [] := by
  cases h with
  | atOnce =>
    have hends : Rests s.raised s.raised.unblocked := rests_unblocked
    exact ⟨isQuiet_settled hends.stopping, rfl⟩
  | amid acts late hreaders =>
    have hraised : s.raised.stopping = true := rfl
    exact ⟨isQuiet_settled ((rests_readers hraised hreaders).stopping.trans hraised), rfl⟩

theorem IsQuiet.after (hs : s.IsQuiet) (hstart : h ≠ .start) : (s.after h).IsQuiet ∧ (s.after h).store = s.store := by
  have hrests (hr : Rests s (s.after h)) : (s.after h).IsQuiet ∧ (s.after h).store = s.store := ⟨hr.isQuiet hs, hr.store⟩
  cases h with
  | start => exact absurd rfl hstart
  | begin => exact hrests ⟨rfl, fun _ => .inl, rfl, rfl⟩
  | connect n => exact hrests (rests_connect hs.stopping)
  | receive n line => exact hrests (rests_receive hs.stopping)
  | close n => exact hrests (rests_close hs.stopping)
  | fail n message => exact hrests rests_fail
  | consume lines => exact hrests (rests_consume hs.stopping)
  | drain =>
    rw [StatusStream.after, hs.drain_eq]
    exact ⟨hs.withoutInbox, rfl⟩
  | stop =>
    have hraised : Rests s s.raised := ⟨hs.stopping.symm, fun _ => .inl, rfl, rfl⟩
    have hends := hraised.trans rests_unblocked
    rw [StatusStream.after, stop_eq, (hends.isQuiet hs).settled_eq]
    exact ⟨(hends.isQuiet hs).withoutInbox, hends.store⟩

theorem IsQuiet.afterAll (hs : s.IsQuiet) (hstart : .start ∉ later) :
    (s.afterAll later).IsQuiet ∧ (s.afterAll later).store = s.store := by
  induction later generalizing s with
  | nil => exact ⟨hs, rfl⟩
  | cons h later ih =>
    obtain ⟨hne, hrest⟩ := List.ne_and_not_mem_of_not_mem_cons hstart
    obtain ⟨hquiet, hstore⟩ := hs.after hne.symm
    obtain ⟨hlast, hlater⟩ := ih hquiet hrest
    exact ⟨hlast, hlater.trans hstore⟩

/-- Right after a stop the inbox is empty and the monitor is clear. It stays clear, no drain applies a report and nobody is notified,
whatever comes until the next start. -/
theorem stop_is_final (hstop : s.Stops t) (hstart : .start ∉ later) :
    t.inbox = [] ∧ t.monitor.active = false ∧ t.monitor.states = [] ∧
      ∀ p, p <+: later →
        let u := t.afterAll p
        u.monitor.active = false ∧ u.monitor.states = [] ∧ u.store = t.store ∧ u.drain.1 = 0 := by
  obtain ⟨hquiet, hinbox⟩ := hstop.isQuiet
  refine ⟨hinbox, hquiet.active, hquiet.states, fun p hp => ?_⟩
  obtain ⟨hlater, hstore⟩ := hquiet.afterAll fun hmem => hstart (hp.subset hmem)
  exact ⟨hlater.active, hlater.states, hstore, by rw [hlater.drain_eq]⟩

def readingRun : List Happening := [.start, .connect 0, .receive 0 (.text "data:1"), .receive 0 (.text "")]

def belatedRun : List Happening := [.close 0, .drain, .consume [.text "data:4"], .begin, .connect 1, .drain]

theorem readingRun_is_stopped :
    let s := ({} : StatusStream).afterAll readingRun
    let t := s.stopAmid [.receive 0 (.text "data:2"), .receive 0 (.text "")] [.int 3]
    s.Stops t ∧ .start ∉ belatedRun ∧ t.inbox = [] ∧ (t.afterAll belatedRun).monitor.states = [] ∧
      (t.afterAll belatedRun).drain.1 = 0 := by
  intro s t
  have hstop : s.Stops t := .amid _ _ (List.forall_mem_cons.2 ⟨trivial, List.forall_mem_singleton.2 trivial⟩)
  have hstart : .start ∉ belatedRun := by simp [belatedRun]
  obtain ⟨hinbox, -, -, hlater⟩ := stop_is_final hstop hstart
  obtain ⟨-, hstates, -, hdrain⟩ := hlater belatedRun List.prefix_rfl
  exact ⟨hstop, hstart, hinbox, hstates, hdrain⟩

end BehaviorTree.StatusStream
