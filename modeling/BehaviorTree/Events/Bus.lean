import BehaviorTree.Events.Journal

/-!
The bus that delivers notifications to handlers. An emission calls the handlers that were registered for its topic when it
began, in the order of registration, and then those registered for every topic. A handler may fail, change the registrations
or emit in turn; none of this disturbs a delivery under way.
-/

set_option autoImplicit false

namespace BehaviorTree

inductive Interest where
  | topic (t : Topic)
  | everything
  deriving DecidableEq, Repr

structure Subscription (H : Type) where
  interest : Interest
  handler : H
  deriving DecidableEq, Repr

/-- What a handler does with the bus when it is called, and what whoever uses the bus does with it. -/
inductive Reaction (H : Type) where
  | subscribe (interest : Interest) (handler : H)
  | withdraw (subscription : Subscription H)
  | emit (event : Event)
  /-- The handler is done. -/
  | finish
  /-- The handler fails; nothing it would do after that happens. -/
  | fail

structure Call (H : Type) where
  handler : H
  event : Event
  /-- Which emission it belongs to; they are numbered as they begin. -/
  emission : Nat

structure Bus (H : Type) where
  registrations : List (Subscription H) := []
  journal : Journal := {}

/-- An emission under way, and the handlers that it will call. -/
structure Emission (H : Type) where
  number : Nat
  event : Event
  waiting : List H

/-- A bus at work. The emissions under way are nested, the innermost comes first, and the handler that it called last is the one that
runs. When there is none under way, the bus is in the hands of its user. -/
structure Dispatch (H : Type) where
  bus : Bus H := {}
  underWay : List (Emission H) := []
  begun : Nat := 0
  calls : List (Call H) := []

variable {H : Type}

namespace Bus

def subscribe (b : Bus H) (s : Subscription H) : Bus H := { b with registrations := b.registrations ++ [s] }

def withdraw [DecidableEq H] (b : Bus H) (s : Subscription H) : Bus H := { b with registrations := b.registrations.erase s }

def record (b : Bus H) (e : Event) : Bus H := { b with journal := b.journal.record e }

/-- The handlers registered for an interest, in the order of registration. -/
def handlers (b : Bus H) (i : Interest) : List H :=
  (b.registrations.filter fun s => s.interest = i).map Subscription.handler

def listeners (b : Bus H) (t : Topic) : List H := b.handlers (.topic t) ++ b.handlers .everything

end Bus

namespace Dispatch

/-- Calls the next handler of the innermost emission. If none is left, the emission is over and whoever emitted goes on. -/
def advance (d : Dispatch H) : Dispatch H :=
  match d.underWay with
  | [] => d
  | ⟨_, _, []⟩ :: r => { d with underWay := r }
  | ⟨n, e, h :: hs⟩ :: r => { d with underWay := ⟨n, e, hs⟩ :: r, calls := d.calls ++ [⟨h, e, n⟩] }

/-- Records an event and notes the handlers that are registered at this moment. -/
def begin (d : Dispatch H) (e : Event) : Dispatch H :=
  { d with
    bus := d.bus.record e
    underWay := ⟨d.begun, e, d.bus.listeners e.topic⟩ :: d.underWay
    begun := d.begun + 1 }

variable [DecidableEq H]

def react (d : Dispatch H) : Reaction H → Dispatch H
  | .subscribe i h => { d with bus := d.bus.subscribe ⟨i, h⟩ }
  | .withdraw s => { d with bus := d.bus.withdraw s }
  | .emit e => (d.begin e).advance
  | .finish => d.advance
  | .fail => d.advance

/-- Carries out the reactions of one handler until it ends; `inner` emits in turn. -/
def perform (inner : Event → Dispatch H → Dispatch H) : List (Reaction H) → Dispatch H → Dispatch H
  | [], d => d.react .finish
  | .subscribe i h :: r, d => perform inner r (d.react (.subscribe i h))
  | .withdraw s :: r, d => perform inner r (d.react (.withdraw s))
  | .emit e :: r, d => perform inner r (inner e d)
  | .finish :: _, d => d.react .finish
  | .fail :: _, d => d.react .fail

/-- Emits an event to handlers of which it is known how they react. Emissions within emissions go to a given depth. -/
def emit (reactions : H → Event → List (Reaction H)) : Nat → Event → Dispatch H → Dispatch H
  | 0, _, d => d
  | depth + 1, e, d =>
    (d.bus.listeners e.topic).foldl (fun d h => perform (emit reactions depth) (reactions h e) d) (d.react (.emit e))

end Dispatch

def Bus.emit [DecidableEq H] (reactions : H → Event → List (Reaction H)) (depth : Nat) (e : Event) (b : Bus H) : List (Call H) × Bus H :=
  let d := Dispatch.emit reactions depth e { bus := b }
  (d.calls, d.bus)

end BehaviorTree
