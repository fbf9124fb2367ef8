import BehaviorTree.Events.Bus
import BehaviorTree.Proofs.Events.Journal

/-!
What a bus at work does, whatever its handlers do. Each emission calls the handlers that were registered when it began, one after the
other, and no failure, no change of the registrations and no emission within it makes any difference to that.
-/

set_option autoImplicit false

namespace BehaviorTree.Dispatch

variable {H : Type} {d c : Dispatch H} {n : Nat} {e : Event} {hs : List H}

/-- The events that are emitted, in the order in which their emissions begin. -/
def emitted (as : List (Reaction H)) : List Event :=
  as.filterMap fun a => match a with
    | .emit e => some e
    | _ => none

/-- The handlers that an emission has called so far. -/
def called (d : Dispatch H) (n : Nat) : List H := (d.calls.filter fun c => c.emission = n).map Call.handler

def waiting (d : Dispatch H) (n : Nat) : List H := (d.underWay.filter fun m => m.number = n).flatMap Emission.waiting

structure IsNumbered (d : Dispatch H) : Prop where
  calls : ∀ c ∈ d.calls, c.emission < d.begun
  underWay : ∀ m ∈ d.underWay, m.number < d.begun

structure Serves (d : Dispatch H) (n : Nat) (e : Event) (hs : List H) : Prop where
  calls : ∀ c ∈ d.calls, c.emission = n → c.event = e
  underWay : ∀ m ∈ d.underWay, m.number = n → m.event = e
  handlers : d.called n ++ d.waiting n = hs

/-- A new bus, whose journal has room for so many events. -/
def fresh (capacity : Option Nat) : Dispatch H := { bus := { journal := { capacity := capacity } } }

theorem isNumbered_fresh (capacity : Option Nat) : (fresh capacity : Dispatch H).IsNumbered := ⟨nofun, nofun⟩

theorem IsNumbered.advance (h : d.IsNumbered) : d.advance.IsNumbered := by
  obtain ⟨bus, underWay, begun, calls⟩ := d
  match underWay, h with
  | [], h => exact h
  | ⟨_, _, []⟩ :: r, h => exact ⟨h.calls, fun m hm => h.underWay m (List.mem_cons_of_mem _ hm)⟩
  | ⟨k, e, f :: fs⟩ :: r, h =>
    have hfirst : k < begun := h.underWay _ List.mem_cons_self
    refine ⟨fun c hc => ?_, fun m hm => ?_⟩
    · rcases List.mem_append.1 hc with hc | hc
      · exact h.calls c hc
      · exact List.mem_singleton.1 hc ▸ hfirst
    · rcases List.mem_cons.1 hm with rfl | hm
      · exact hfirst
      · exact h.underWay m (List.mem_cons_of_mem _ hm)

/-- The innermost emission calls the handler that was first in line, and no other emission gains or loses one. -/
theorem Serves.advance (h : d.Serves n e hs) : d.advance.Serves n e hs := by
  obtain ⟨bus, underWay, begun, calls⟩ := d
  match underWay, h with
  | [], h => exact h
  | ⟨k, f, []⟩ :: r, h =>
    refine ⟨h.calls, fun m hm => h.underWay m (List.mem_cons_of_mem _ hm), ?_⟩
    have hhandlers := h.handlers
    by_cases hk : k = n <;> simp_all [Dispatch.advance, called, waiting]
  | ⟨k, f, g :: gs⟩ :: r, h =>
    refine ⟨fun c hc hn => ?_, fun m hm hn => ?_, ?_⟩
    · rcases List.mem_append.1 hc with hc | hc
      · exact h.calls c hc hn
      · obtain rfl := List.mem_singleton.1 hc
        exact h.underWay _ List.mem_cons_self hn
    · rcases List.mem_cons.1 hm with rfl | hm
      · exact h.underWay ⟨k, f, g :: gs⟩ List.mem_cons_self hn
      · exact h.underWay m (List.mem_cons_of_mem _ hm) hn
    · have hhandlers := h.handlers
      by_cases hk : k = n <;> simp_all [Dispatch.advance, called, waiting, List.filter_append]

theorem IsNumbered.begin (h : d.IsNumbered) (e : Event) : (d.begin e).IsNumbered := by
  refine ⟨fun c hc => Nat.lt_succ_of_lt (h.calls c hc), fun m hm => ?_⟩
  rcases List.mem_cons.1 hm with rfl | hm
  · exact Nat.lt_succ_self _
  · exact Nat.lt_succ_of_lt (h.underWay m hm)

theorem Serves.begin (h : d.Serves n e hs) (hn : n < d.begun) (f : Event) : (d.begin f).Serves n e hs := by
  have hother : d.begun ≠ n := Nat.ne_of_gt hn
  refine ⟨h.calls, fun m hm hk => ?_, ?_⟩
  · rcases List.mem_cons.1 hm with rfl | hm
    · exact absurd hk hother
    · exact h.underWay m hm hk
  · rw [← h.handlers]
    simp [Dispatch.begin, called, waiting, hother]

theorem IsNumbered.serves_begin (h : d.IsNumbered) (e : Event) : (d.begin e).Serves d.begun e (d.bus.listeners e.topic) := by
  have hcalls : d.calls.filter (fun c => c.emission = d.begun) = [] :=
    List.filter_eq_nil_iff.2 fun c hc => by simpa using Nat.ne_of_lt (h.calls c hc)
  have hunderWay : d.underWay.filter (fun m => m.number = d.begun) = [] :=
    List.filter_eq_nil_iff.2 fun m hm => by simpa using Nat.ne_of_lt (h.underWay m hm)
  refine ⟨fun c hc hn => absurd hn (Nat.ne_of_lt (h.calls c hc)), fun m hm hn => ?_, ?_⟩
  · rcases List.mem_cons.1 hm with rfl | hm
    · rfl
    · exact absurd hn (Nat.ne_of_lt (h.underWay m hm))
  · simp [Dispatch.begin, called, waiting, hcalls, hunderWay]

theorem Serves.eq_of_over (h : d.Serves n e hs) (hover : ∀ m ∈ d.underWay, m.number ≠ n) : d.called n = hs := by
  have hnone : d.underWay.filter (fun m => m.number = n) = [] :=
    List.filter_eq_nil_iff.2 fun m hm => by simpa using hover m hm
  have hhandlers := h.handlers
  rwa [waiting, hnone, List.flatMap_nil, List.append_nil] at hhandlers

theorem begun_advance (d : Dispatch H) : d.advance.begun = d.begun := by
  unfold advance
  split <;> rfl

theorem bus_advance (d : Dispatch H) : d.advance.bus = d.bus := by
  unfold advance
  split <;> rfl

/-- How often a handler has to end until all emissions are over. -/
def load (d : Dispatch H) : Nat := (d.underWay.flatMap Emission.waiting).length + d.underWay.length

theorem load_advance (d : Dispatch H) : d.advance.load = d.load - 1 := by
  obtain ⟨bus, underWay, begun, calls⟩ := d
  match underWay with
  | [] => rfl
  | ⟨_, _, []⟩ :: r => rfl
  | ⟨_, _, f :: fs⟩ :: r =>
    simp only [load, advance, List.flatMap_cons, List.cons_append, List.length_cons]
    omega

theorem underWay_of_load (h : d.load = 0) : d.underWay = [] := by
  obtain ⟨bus, underWay, begun, calls⟩ := d
  match underWay with
  | [] => rfl
  | m :: r => exact absurd h (Nat.succ_ne_zero _)

theorem underWay_advance (h : d.underWay = c.underWay) : d.advance.underWay = c.advance.underWay := by
  obtain ⟨_, underWay, _, _⟩ := d
  obtain ⟨_, underWay', _, _⟩ := c
  obtain rfl : underWay = underWay' := h
  match underWay with
  | [] => rfl
  | ⟨_, _, []⟩ :: r => rfl
  | ⟨_, _, f :: fs⟩ :: r => rfl

variable [DecidableEq H]

/-- One thing after the other is done, each by the handler that runs then. -/
def run (d : Dispatch H) (as : List (Reaction H)) : Dispatch H := as.foldl react d

theorem run_cons (d : Dispatch H) (a : Reaction H) (as : List (Reaction H)) : d.run (a :: as) = (d.react a).run as := rfl

theorem run_append (d : Dispatch H) (as bs : List (Reaction H)) : d.run (as ++ bs) = (d.run as).run bs := List.foldl_append

theorem IsNumbered.react (h : d.IsNumbered) (a : Reaction H) : (d.react a).IsNumbered := by
  cases a with
  | subscribe i f => exact ⟨h.calls, h.underWay⟩
  | withdraw s => exact ⟨h.calls, h.underWay⟩
  | emit e => exact (h.begin e).advance
  | finish => exact h.advance
  | fail => exact h.advance

theorem Serves.react (h : d.Serves n e hs) (hn : n < d.begun) (a : Reaction H) : (d.react a).Serves n e hs := by
  cases a with
  | subscribe i f => exact ⟨h.calls, h.underWay, h.handlers⟩
  | withdraw s => exact ⟨h.calls, h.underWay, h.handlers⟩
  | emit f => exact (h.begin hn f).advance
  | finish => exact h.advance
  | fail => exact h.advance

theorem begun_run (d : Dispatch H) (as : List (Reaction H)) : (d.run as).begun = d.begun + (emitted as).length := by
  induction as generalizing d with
  | nil => rfl
  | cons a r ih =>
    rw [run_cons, ih]
    cases a with
    | emit e =>
      have hone : (d.react (.emit e)).begun = d.begun + 1 := begun_advance (d.begin e)
      have hlength : (emitted (.emit e :: r)).length = (emitted r).length + 1 := rfl
      omega
    | subscribe i f => rfl
    | withdraw s => rfl
    | finish => exact congrArg (· + _) (begun_advance d)
    | fail => exact congrArg (· + _) (begun_advance d)

theorem journal_run (d : Dispatch H) (as : List (Reaction H)) :
    (d.run as).bus.journal = d.bus.journal.recordAll (emitted as) := by
  induction as generalizing d with
  | nil => rfl
  | cons a r ih =>
    rw [run_cons, ih]
    cases a with
    | emit e => exact congrArg (fun b : Bus H => b.journal.recordAll (emitted r)) (bus_advance (d.begin e))
    | subscribe i f => rfl
    | withdraw s => rfl
    | finish => exact congrArg (fun b : Bus H => b.journal.recordAll (emitted r)) (bus_advance d)
    | fail => exact congrArg (fun b : Bus H => b.journal.recordAll (emitted r)) (bus_advance d)

theorem IsNumbered.run (h : d.IsNumbered) (as : List (Reaction H)) : (d.run as).IsNumbered := by
  induction as generalizing d with
  | nil => exact h
  | cons a r ih => exact ih (h.react a)

theorem Serves.run (h : d.Serves n e hs) (hn : n < d.begun) (as : List (Reaction H)) : (d.run as).Serves n e hs := by
  induction as generalizing d with
  | nil => exact h
  | cons a r ih =>
    have hle : d.begun ≤ (d.react a).begun := by
      have hbegun := begun_run d [a]
      rw [show d.run [a] = d.react a from rfl] at hbegun
      omega
    exact ih (h.react hn a) (Nat.lt_of_lt_of_le hn hle)

/-- Whatever is done after an emission began, it goes through the handlers that were registered then. -/
theorem IsNumbered.serves_run (h : d.IsNumbered) (e : Event) (as : List (Reaction H)) :
    (d.run (.emit e :: as)).Serves d.begun e (d.bus.listeners e.topic) := by
  have hbegun : (d.react (.emit e)).begun = d.begun + 1 := begun_advance (d.begin e)
  exact (h.serves_begin e).advance.run (hbegun ▸ Nat.lt_succ_self _) as

theorem underWay_ended {ends : List (Reaction H)} (h : ∀ a ∈ ends, a = .finish ∨ a = .fail) (hload : d.load ≤ ends.length) :
    (d.run ends).underWay = [] := by
  induction ends generalizing d with
  | nil => exact underWay_of_load (Nat.le_zero.1 hload)
  | cons a r ih =>
    have hone : d.react a = d.advance := by
      rcases h a List.mem_cons_self with rfl | rfl <;> rfl
    rw [run_cons, hone]
    refine ih (fun b hb => h b (List.mem_cons_of_mem _ hb)) ?_
    rw [load_advance]
    rw [List.length_cons] at hload
    omega

def Leads (d c : Dispatch H) : Prop := ∃ as, c = d.run as

theorem leads_trans {b : Dispatch H} (h : Leads d c) (h' : Leads c b) : Leads d b := by
  obtain ⟨as, rfl⟩ := h
  obtain ⟨bs, rfl⟩ := h'
  exact ⟨as ++ bs, (run_append d as bs).symm⟩

theorem leads_react (d : Dispatch H) (a : Reaction H) : Leads d (d.react a) := ⟨[a], rfl⟩

variable {inner : Event → Dispatch H → Dispatch H}

theorem leads_perform (hinner : ∀ e d, Leads d (inner e d) ∧ (inner e d).underWay = d.underWay) (rs : List (Reaction H))
    (d : Dispatch H) : Leads d (perform inner rs d) ∧ (perform inner rs d).underWay = d.advance.underWay := by
  induction rs generalizing d with
  | nil => exact ⟨leads_react d .finish, rfl⟩
  | cons a r ih =>
    cases a with
    | subscribe i f =>
      obtain ⟨hleads, hunderWay⟩ := ih (d.react (.subscribe i f))
      exact ⟨leads_trans (leads_react d _) hleads, hunderWay.trans (underWay_advance rfl)⟩
    | withdraw s =>
      obtain ⟨hleads, hunderWay⟩ := ih (d.react (.withdraw s))
      exact ⟨leads_trans (leads_react d _) hleads, hunderWay.trans (underWay_advance rfl)⟩
    | emit e =>
      obtain ⟨hemits, hsame⟩ := hinner e d
      obtain ⟨hleads, hunderWay⟩ := ih (inner e d)
      exact ⟨leads_trans hemits hleads, hunderWay.trans (underWay_advance hsame)⟩
    | finish => exact ⟨leads_react d .finish, rfl⟩
    | fail => exact ⟨leads_react d .fail, rfl⟩

variable {reactions : H → Event → List (Reaction H)}

theorem leads_handlers (hinner : ∀ e d, Leads d (inner e d) ∧ (inner e d).underWay = d.underWay) (e : Event) {r : List (Emission H)}
    (hunderWay : d.underWay = (advance { d with underWay := ⟨n, e, hs⟩ :: r }).underWay) :
    Leads d (hs.foldl (fun d h => perform inner (reactions h e) d) d) ∧
      (hs.foldl (fun d h => perform inner (reactions h e) d) d).underWay = r := by
  induction hs generalizing d with
  | nil => exact ⟨⟨[], rfl⟩, hunderWay⟩
  | cons h hs ih =>
    obtain ⟨hleads, hnext⟩ := leads_perform hinner (reactions h e) d
    obtain ⟨hrest, hover⟩ := ih (hnext.trans (underWay_advance hunderWay))
    exact ⟨leads_trans hleads hrest, hover⟩

theorem leads_emit (reactions : H → Event → List (Reaction H)) (depth : Nat) (e : Event) (d : Dispatch H) :
    Leads d (emit reactions depth e d) ∧ (emit reactions depth e d).underWay = d.underWay := by
  induction depth generalizing e d with
  | zero => exact ⟨⟨[], rfl⟩, rfl⟩
  | succ depth ih =>
    obtain ⟨hleads, hover⟩ := leads_handlers ih e (d := d.react (.emit e)) (n := d.begun) (underWay_advance rfl)
    exact ⟨leads_trans (leads_react d _) hleads, hover⟩

theorem emit_eq_run (reactions : H → Event → List (Reaction H)) (depth : Nat) (e : Event) (d : Dispatch H) :
    ∃ as, emit reactions (depth + 1) e d = d.run (.emit e :: as) :=
  (leads_handlers (leads_emit reactions depth) e (d := d.react (.emit e)) (n := d.begun) (underWay_advance rfl)).1

/-- Whatever users and handlers of a bus do, each emission calls those who were registered for its topic when it began, and then those
registered for every topic, in the order of their registrations. It calls no others, under no other event, and it calls all of them
before it is over, which it is once the handlers end, be it that they fail. The journal counts the emissions that began, and holds the
last of their events, as many as it has room for. Handlers whose reactions are known do nothing else. -/
theorem emissions_reach_listeners (capacity : Option Nat) (as : List (Reaction H)) :
    let d : Dispatch H := (fresh capacity).run as
    (∀ p e q, as = p ++ .emit e :: q →
        let n := (emitted p).length
        let listeners := ((fresh capacity).run p).bus.listeners e.topic
        (∀ c ∈ d.calls, c.emission = n → c.event = e) ∧ d.called n <+: listeners ∧
          ((∀ m ∈ d.underWay, m.number ≠ n) → d.called n = listeners)) ∧
      (∀ c ∈ d.calls, c.emission < (emitted as).length) ∧
        (∀ ends : List (Reaction H), (∀ a ∈ ends, a = .finish ∨ a = .fail) → d.load ≤ ends.length → (d.run ends).underWay = []) ∧
          (∀ topic, d.bus.journal.count topic = (emitted as).countP fun e => e.topic = topic) ∧
            d.bus.journal.recent <:+ emitted as ∧
              d.bus.journal.recent.length = (capacity.elim (emitted as).length fun room => min room (emitted as).length) ∧
              ∀ reactions depth e, ∃ more, emit reactions (depth + 1) e d = d.run (.emit e :: more) ∧
                (d.run (.emit e :: more)).underWay = d.underWay := by
  intro d
  have hd : d.IsNumbered := (isNumbered_fresh capacity).run as
  have hbegun (p : List (Reaction H)) : ((fresh capacity).run p).begun = (emitted p).length := by
    rw [begun_run]
    exact Nat.zero_add _
  have hjournal : d.bus.journal = Journal.recordAll { capacity := capacity } (emitted as) := journal_run (fresh capacity) as
  have hrecent : d.bus.journal.recent = Journal.lastOf capacity (emitted as) := by
    have hnew : ({ capacity := capacity } : Journal).recent = Journal.lastOf capacity [] := by
      cases capacity <;> simp [Journal.lastOf]
    rw [hjournal]
    exact Journal.recent_recordAll hnew
  refine ⟨fun p e q hp => ?_, fun c hc => ?_, fun ends hends hload => underWay_ended hends hload, fun topic => ?_,
    hrecent ▸ Journal.lastOf_suffix capacity _, hrecent ▸ Journal.length_lastOf capacity _, fun reactions depth e => ?_⟩
  · have hserves : d.Serves (emitted p).length e (((fresh capacity).run p).bus.listeners e.topic) := by
      have hrun := ((isNumbered_fresh capacity).run p).serves_run e q
      rw [hbegun, ← run_append, ← hp] at hrun
      exact hrun
    exact ⟨hserves.calls, ⟨_, hserves.handlers⟩, hserves.eq_of_over⟩
  · rw [← hbegun]
    exact hd.calls c hc
  · rw [hjournal, Journal.count_recordAll]
    exact Nat.zero_add _
  · obtain ⟨more, hmore⟩ := emit_eq_run reactions depth e d
    exact ⟨more, hmore, hmore ▸ (leads_emit reactions (depth + 1) e d).2⟩

/-- Three handlers are registered. The first takes back the second and registers itself once more, emits in turn and fails; the third
fails as well, in both emissions. -/
def nestedRun : List (Reaction String) :=
  [.subscribe (.topic .node) "first", .subscribe (.topic .node) "second", .subscribe .everything "third",
    .emit ⟨.node, .text "moved", []⟩, .withdraw ⟨.topic .node, "second"⟩, .subscribe (.topic .node) "first",
    .emit ⟨.grid, .text "updated", []⟩, .fail, .fail, .finish, .fail, .emit ⟨.node, .text "deleted", []⟩, .finish]

/-- The second handler is still called, and the first is called twice the next time. Of the three events the last two are kept. -/
theorem nestedRun_reaches_listeners :
    let d := (fresh (some 2)).run nestedRun
    d.called 0 = ["first", "second", "third"] ∧ d.called 1 = ["third"] ∧ d.called 2 <+: ["first", "first", "third"] ∧
      d.bus.journal.count .node = 2 ∧
      d.bus.journal.recent = [⟨.grid, .text "updated", []⟩, ⟨.node, .text "deleted", []⟩] ∧
      (d.run [.fail, .finish]).underWay = [] := by
  intro d
  obtain ⟨hcalled, _, hends, hcount, hsuffix, hlength, _⟩ := emissions_reach_listeners (some 2) nestedRun
  have hrecent := List.suffix_iff_eq_drop.1 hsuffix
  rw [hlength] at hrecent
  obtain ⟨_, _, hfirst⟩ := hcalled (nestedRun.take 3) _ (nestedRun.drop 4) rfl
  obtain ⟨_, _, hsecond⟩ := hcalled (nestedRun.take 6) _ (nestedRun.drop 7) rfl
  obtain ⟨_, hthird, _⟩ := hcalled (nestedRun.take 11) _ (nestedRun.drop 12) rfl
  exact ⟨hfirst (by decide +kernel), hsecond (by decide +kernel), hthird, hcount .node, hrecent, hends _ (by simp) (by decide +kernel)⟩

end BehaviorTree.Dispatch
