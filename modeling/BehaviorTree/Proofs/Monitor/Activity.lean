import BehaviorTree.Proofs.Monitor.Delivery
import Mathlib.Data.List.Basic
import Mathlib.Data.List.Induction

/-!
Whether the monitor is active while a reader is. A reader that ends leaves a marker in the inbox, and a marker does not say whose end it was:
one that still waits when the next reader is started is taken for the end of that one. Nothing else makes a live stream inactive.
-/

set_option autoImplicit false

namespace BehaviorTree.StatusStream

/-- A reader fails, with an error that is kept or with one that is not. -/
def fail (s : StatusStream) (number : Nat) (message : Option String) : StatusStream :=
  if (s.reader? number).isNone then s
  else match message with
    | some m => s.finishWith number m
    | none => s.finish number

/-- What can happen to a stream, on the thread of the session or on those of the readers. -/
inductive Happening where
  | start
  | begin
  | connect (number : Nat)
  | receive (number : Nat) (line : Framing.Line)
  | close (number : Nat)
  | fail (number : Nat) (message : Option String)
  | consume (lines : List Framing.Line)
  | drain
  | stop

def after (s : StatusStream) : Happening → StatusStream
  | .start => s.start.2
  | .begin => s.begin.2
  | .connect n => s.connect n
  | .receive n line => s.receive n line
  | .close n => s.close n
  | .fail n message => s.fail n message
  | .consume lines => (s.consume lines).2
  | .drain => s.drain.2
  | .stop => s.stop

def afterAll (s : StatusStream) (hs : List Happening) : StatusStream := hs.foldl after s

def numbers (s : StatusStream) : List Nat := s.readers.map Reader.number

def HasMarker (s : StatusStream) : Prop := Delivery.ended ∈ s.inbox

/-- Is a reader under way that was started, with no stop since? -/
def IsLive (s : StatusStream) (hs : List Happening) : Prop :=
  ∃ before rest, hs = before ++ .start :: rest ∧ .stop ∉ rest ∧ (s.afterAll before).begun ∈ (s.afterAll hs).numbers

/-- Does every reader begin when no other is under way and the ends of all others have been drained? -/
def BeginsAlone (s : StatusStream) : List Happening → Prop
  | [] => True
  | h :: hs => (h = .start ∨ h = .begin → s.numbers = [] ∧ ¬ s.HasMarker) ∧ (s.after h).BeginsAlone hs

def IsUnmixed (s : StatusStream) : Prop := s.numbers.length ≤ 1 ∧ (s.numbers ≠ [] → ¬ s.HasMarker)

variable {s t : StatusStream} {h : Happening} {p hs : List Happening} {n : Nat}

theorem mem_numbers {r : Reader} (hr : s.reader? n = some r) : n ∈ s.numbers := by
  unfold reader? at hr
  exact List.mem_map.2 ⟨r, List.mem_of_find?_eq_some hr,
    of_decide_eq_true (List.find?_some (p := fun r : Reader => decide (r.number = n)) hr)⟩

/-- What a happening may do to the readers, to the markers in the inbox and to the monitor. -/
inductive Turn (s t : StatusStream) (h : Happening) : Prop
  | begins (kind : h = .start ∨ h = .begin) (numbers : t.numbers = s.numbers ++ [s.begun]) (begun : t.begun = s.begun + 1)
      (inbox : t.inbox = s.inbox) (active : t.monitor.active = true ↔ h = .start ∨ s.monitor.active = true)
  | ends (number : Nat) (mem : number ∈ s.numbers) (numbers : t.numbers = s.numbers.filter (· ≠ number)) (begun : t.begun = s.begun)
      (active : t.monitor.active = s.monitor.active)
  | goesOn (numbers : t.numbers = s.numbers) (begun : t.begun = s.begun) (marker : t.HasMarker ↔ s.HasMarker)
      (active : t.monitor.active = s.monitor.active)
  | drains (kind : h = .drain) (numbers : t.numbers = s.numbers) (begun : t.begun = s.begun) (inbox : t.inbox = [])
      (active : t.monitor.active = true ↔ s.monitor.active = true ∧ ¬ s.HasMarker)
  | stops (kind : h = .stop) (numbers : t.numbers.Sublist s.numbers) (begun : t.begun = s.begun) (inbox : t.inbox = [])

theorem Turn.same : Turn s s h := .goesOn rfl rfl Iff.rfl rfl

theorem numbers_finish : (s.finish n).numbers = s.numbers.filter (· ≠ n) := by
  rw [numbers, numbers, finish, List.filter_map]
  rfl

theorem Turn.finish (hn : n ∈ s.numbers) : Turn s (s.finish n) h := .ends n hn numbers_finish rfl rfl

theorem numbers_withParts {parts : List (List Char)} : (s.withParts n parts).numbers = s.numbers := by
  rw [numbers, numbers, withParts, List.map_map]
  refine List.map_congr_left fun r _ => ?_
  rw [Function.comp_apply]
  split <;> rfl

theorem ended_mem_append_reports {ds : List Delivery} {reports : List Value} :
    .ended ∈ ds ++ reports.map Delivery.report ↔ .ended ∈ ds := by
  simp

theorem monitor_active_clear (m : Monitor) (store : Store) : (m.clear store).1.active = m.active := by
  unfold Monitor.clear
  split <;> rfl

theorem active_acceptAll (s : StatusStream) (ds : List Delivery) :
    (s.acceptAll ds).monitor.active = true ↔ s.monitor.active = true ∧ .ended ∉ ds := by
  induction ds generalizing s with
  | nil => simp [acceptAll]
  | cons d ds ih =>
    have hstep : s.acceptAll (d :: ds) = (s.accept d).acceptAll ds := rfl
    rw [hstep, ih]
    cases d with
    | report message => simp [accept, Monitor.apply]
    | ended => simp [accept, monitor_active_clear]

theorem acceptAll_keeps (s : StatusStream) (ds : List Delivery) :
    (s.acceptAll ds).numbers = s.numbers ∧ (s.acceptAll ds).begun = s.begun ∧ (s.acceptAll ds).inbox = s.inbox := by
  induction ds generalizing s with
  | nil => exact ⟨rfl, rfl, rfl⟩
  | cons d ds ih => cases d <;> exact ih _

theorem not_hasMarker_drain (s : StatusStream) : ¬ s.drain.2.HasMarker := by
  rw [HasMarker, drain, (acceptAll_keeps ..).2.2]
  exact List.not_mem_nil

theorem turn_start : Turn s s.start.2 .start :=
  .begins (.inl rfl) (List.map_append ..) rfl rfl (iff_of_true rfl (.inl rfl))

theorem turn_begin : Turn s s.begin.2 .begin :=
  .begins (.inr rfl) (List.map_append ..) rfl rfl ⟨.inr, fun hs => hs.resolve_left nofun⟩

theorem turn_connect : Turn s (s.connect n) h := by
  unfold connect
  cases hr : s.reader? n with
  | none => exact .same
  | some r =>
    rw [Option.isNone_some, if_neg Bool.false_ne_true]
    split
    · exact .finish (mem_numbers hr)
    · exact .goesOn rfl rfl Iff.rfl rfl

theorem turn_receive {line : Framing.Line} : Turn s (s.receive n line) h := by
  unfold receive
  cases hr : s.reader? n with
  | none => exact .same
  | some r =>
    dsimp only
    split
    · exact .goesOn numbers_withParts rfl Iff.rfl rfl
    · split
      · exact .finish (mem_numbers hr)
      · rw [offer_eq]
        exact .goesOn numbers_withParts rfl ended_mem_append_reports rfl

theorem turn_close : Turn s (s.close n) h := by
  unfold close
  cases hr : s.reader? n with
  | none => exact .same
  | some r =>
    dsimp only
    split
    · split
      · exact .finish (mem_numbers hr)
      · rw [offer_eq]
        exact .ends n (mem_numbers hr) numbers_finish rfl rfl
    · exact .finish (mem_numbers hr)

theorem turn_fail {message : Option String} : Turn s (s.fail n message) h := by
  unfold fail
  cases hr : s.reader? n with
  | none => exact .same
  | some r =>
    rw [Option.isNone_some, if_neg Bool.false_ne_true]
    cases message with
    | none => exact .finish (mem_numbers hr)
    | some m => exact .ends n (mem_numbers hr) numbers_finish rfl rfl

theorem turn_consume {lines : List Framing.Line} : Turn s (s.consume lines).2 h := by
  obtain ⟨reports, hcall⟩ := exists_consume_eq s lines
  rw [hcall]
  exact .goesOn rfl rfl ended_mem_append_reports rfl

theorem turn_drain : Turn s s.drain.2 .drain := by
  obtain ⟨hnumbers, hbegun, hinbox⟩ := acceptAll_keeps { s with inbox := [] } s.inbox
  exact .drains rfl hnumbers hbegun hinbox (active_acceptAll ..)

theorem turn_stop : Turn s s.stop .stop := by
  unfold stop
  cases s.connected with
  | none => exact .stops rfl (List.Sublist.refl _) rfl rfl
  | some n => exact .stops rfl (numbers_finish ▸ List.filter_sublist) rfl rfl

theorem turn_after (s : StatusStream) (h : Happening) : Turn s (s.after h) h := by
  cases h with
  | start => exact turn_start
  | begin => exact turn_begin
  | connect n => exact turn_connect
  | receive n line => exact turn_receive
  | close n => exact turn_close
  | fail n message => exact turn_fail
  | consume lines => exact turn_consume
  | drain => exact turn_drain
  | stop => exact turn_stop

namespace Turn

theorem mem_numbers (turn : Turn s t h) (hn : n ∈ t.numbers) : n ∈ s.numbers ∨ n = s.begun := by
  cases turn with
  | begins _ numbers => simpa [numbers] using hn
  | ends number _ numbers => exact .inl (List.mem_filter.1 (numbers ▸ hn)).1
  | goesOn numbers => exact .inl (numbers ▸ hn)
  | drains _ numbers => exact .inl (numbers ▸ hn)
  | stops _ numbers => exact .inl (numbers.subset hn)

theorem begun_le (turn : Turn s t h) : s.begun ≤ t.begun := by
  cases turn with
  | begins _ _ begun => exact begun ▸ Nat.le_succ _
  | ends _ _ _ begun => exact Nat.le_of_eq begun.symm
  | goesOn _ begun => exact Nat.le_of_eq begun.symm
  | drains _ _ begun => exact Nat.le_of_eq begun.symm
  | stops _ _ begun => exact Nat.le_of_eq begun.symm

theorem active (turn : Turn s t h) (hstop : h ≠ .stop) (hdrain : h = .drain → ¬ s.HasMarker) (hs : s.monitor.active = true) :
    t.monitor.active = true := by
  cases turn with
  | begins _ _ _ _ active => exact active.2 (.inr hs)
  | ends _ _ _ _ active => exact active.trans hs
  | goesOn _ _ _ active => exact active.trans hs
  | drains kind _ _ _ active => exact active.2 ⟨hs, hdrain kind⟩
  | stops kind => exact absurd kind hstop

theorem isUnmixed (turn : Turn s t h) (hbegins : h = .start ∨ h = .begin → s.numbers = [] ∧ ¬ s.HasMarker) (hs : s.IsUnmixed) :
    t.IsUnmixed := by
  obtain ⟨hlength, hmarker⟩ := hs
  cases turn with
  | begins kind numbers _ inbox =>
    obtain ⟨hnone, hdrained⟩ := hbegins kind
    exact ⟨by rw [numbers, hnone]; exact Nat.le_refl 1, fun _ => by rwa [HasMarker, inbox]⟩
  | ends number mem numbers =>
    obtain ⟨a, ha⟩ := List.length_eq_one_iff.1 (Nat.le_antisymm hlength (List.length_pos_of_mem mem))
    obtain rfl : number = a := by rwa [ha, List.mem_singleton] at mem
    have hnone : t.numbers = [] := by rw [numbers, ha, List.filter_cons_of_neg (by simp), List.filter_nil]
    exact ⟨by rw [hnone]; exact Nat.zero_le 1, fun hsome => absurd hnone hsome⟩
  | goesOn numbers _ marker => exact ⟨numbers ▸ hlength, by rwa [numbers, marker]⟩
  | drains _ numbers _ inbox => exact ⟨numbers ▸ hlength, fun _ => by rw [HasMarker, inbox]; exact List.not_mem_nil⟩
  | stops _ numbers _ inbox =>
    exact ⟨Nat.le_trans numbers.length_le hlength, fun _ => by rw [HasMarker, inbox]; exact List.not_mem_nil⟩

end Turn

theorem afterAll_concat (s : StatusStream) (p : List Happening) (h : Happening) :
    s.afterAll (p ++ [h]) = (s.afterAll p).after h := List.foldl_append

theorem turn_afterAll (s : StatusStream) (p : List Happening) (h : Happening) :
    Turn (s.afterAll p) (s.afterAll (p ++ [h])) h :=
  afterAll_concat s p h ▸ turn_after _ h

theorem begun_le_afterAll (s : StatusStream) (hs : List Happening) : s.begun ≤ (s.afterAll hs).begun := by
  induction hs using List.reverseRecOn with
  | nil => exact Nat.le_refl _
  | append_singleton p h ih => exact Nat.le_trans ih (turn_afterAll s p h).begun_le

/-- A stream is live after a happening if that has just started a reader, or if it was live before and is not stopped. -/
theorem isLive_concat (hlive : s.IsLive (p ++ [h])) : h = .start ∨ h ≠ .stop ∧ s.IsLive p := by
  obtain ⟨before, rest, heq, hstop, hn⟩ := hlive
  rcases List.eq_nil_or_concat' rest with rfl | ⟨rest, last, rfl⟩
  · exact .inl (List.singleton_inj.1 (List.append_inj' heq rfl).2)
  · obtain ⟨rfl, hlast⟩ := List.append_inj' (heq.trans (List.append_assoc before (.start :: rest) [last]).symm) rfl
    obtain rfl := List.singleton_inj.1 hlast
    rw [List.mem_append, List.mem_singleton] at hstop
    refine .inr ⟨fun he => hstop (.inr he.symm), before, rest, rfl, fun hmem => hstop (.inl hmem), ?_⟩
    -- The number of the reader in question was given away when it was started, and no other reader gets it.
    have hstarted : (s.afterAll before).begun < (s.afterAll before).start.2.begun := Nat.lt_succ_self _
    have hrun : s.afterAll (before ++ .start :: rest) = (s.afterAll before).start.2.afterAll rest := List.foldl_append
    have hgiven := Nat.lt_of_lt_of_le hstarted (begun_le_afterAll _ rest)
    exact ((turn_afterAll s _ h).mem_numbers hn).resolve_right (Nat.ne_of_lt (hrun ▸ hgiven))

theorem not_isLive_nil : ¬ s.IsLive [] := by
  rintro ⟨before, rest, heq, _⟩
  exact absurd heq (by simp)

theorem active_of_isLive (hdrains : ∀ q, q ++ [.drain] <+: hs → (s.afterAll q).HasMarker → ¬ s.IsLive (q ++ [.drain]))
    (hp : p <+: hs) (hlive : s.IsLive p) : (s.afterAll p).monitor.active = true := by
  induction p using List.reverseRecOn with
  | nil => exact absurd hlive not_isLive_nil
  | append_singleton p h ih =>
    rcases isLive_concat hlive with rfl | ⟨hstop, hbefore⟩
    · rw [afterAll_concat]
      rfl
    · have hactive := ih ((List.prefix_append p [h]).trans hp) hbefore
      exact (turn_afterAll s p h).active hstop (fun he hmarker => by subst he; exact hdrains p hp hmarker hlive) hactive

theorem numbers_ne_nil_of_isLive (hlive : s.IsLive p) : (s.afterAll p).numbers ≠ [] := by
  obtain ⟨before, rest, _, _, hn⟩ := hlive
  exact List.ne_nil_of_mem hn

theorem isUnmixed_afterAll (hunmixed : s.IsUnmixed) (halone : s.BeginsAlone hs) (hp : p <+: hs) : (s.afterAll p).IsUnmixed := by
  induction hs generalizing s p with
  | nil =>
    obtain rfl := List.prefix_nil.1 hp
    exact hunmixed
  | cons h hs ih =>
    rcases List.prefix_cons_iff.1 hp with rfl | ⟨q, rfl, hq⟩
    · exact hunmixed
    · exact ih (s := s.after h) ((turn_after s h).isUnmixed halone.1 hunmixed) halone.2 hq

/-- A live stream is active throughout a run exactly if no end of another reader is drained while it is live. That is so if every reader
begins alone. -/
theorem live_streams_stay_active_iff (store : Store) (monitor : Monitor) (hs : List Happening) :
    let s : StatusStream := { store := store, monitor := monitor }
    ((∀ p, p <+: hs → s.IsLive p → (s.afterAll p).monitor.active = true) ↔
        ∀ p, p ++ [.drain] <+: hs → (s.afterAll p).HasMarker → ¬ s.IsLive (p ++ [.drain])) ∧
      (s.BeginsAlone hs → ∀ p, p <+: hs → s.IsLive p → (s.afterAll p).monitor.active = true) := by
  intro s
  refine ⟨⟨fun hactive p hp hmarker hlive => ?_, fun hdrains p hp => active_of_isLive hdrains hp⟩, fun halone p hp => ?_⟩
  · have hdrained := hactive _ hp hlive
    rw [afterAll_concat] at hdrained
    exact ((active_acceptAll ..).1 hdrained).2 hmarker
  · refine active_of_isLive (fun q hq hmarker hlive => ?_) hp
    have hsome := numbers_ne_nil_of_isLive hlive
    rw [afterAll_concat, after, drain, (acceptAll_keeps ..).1] at hsome
    have hfresh : s.IsUnmixed := ⟨Nat.zero_le 1, fun hne => absurd rfl hne⟩
    exact (isUnmixed_afterAll hfresh halone ((List.prefix_append q _).trans hq)).2 hsome hmarker

def restartedRun : List Happening := [.start, .receive 0 (.text "data:1"), .close 0, .drain, .start]

theorem restartedRun_stays_active :
    let s : StatusStream := {}
    s.BeginsAlone restartedRun ∧ s.IsLive restartedRun ∧ (s.afterAll restartedRun).monitor.active = true := by
  intro s
  have halone : s.BeginsAlone restartedRun :=
    ⟨fun _ => ⟨rfl, List.not_mem_nil⟩, nofun, nofun, nofun, fun _ => ⟨by decide, not_hasMarker_drain _⟩, trivial⟩
  have hlive : s.IsLive restartedRun := ⟨restartedRun.take 4, [], rfl, List.not_mem_nil, by decide⟩
  exact ⟨halone, hlive, (live_streams_stay_active_iff s.store s.monitor restartedRun).2 halone _ List.prefix_rfl hlive⟩

def hastyRun : List Happening := [.start, .close 0, .start, .drain]

theorem hastyRun_goes_inactive :
    let s : StatusStream := {}
    ¬ ∀ p, p <+: hastyRun → s.IsLive p → (s.afterAll p).monitor.active = true := by
  intro s hactive
  have hlive : s.IsLive hastyRun := ⟨[.start, .close 0], [.drain], rfl, by simp, by decide⟩
  exact absurd (hactive _ List.prefix_rfl hlive) (by decide)

end BehaviorTree.StatusStream
