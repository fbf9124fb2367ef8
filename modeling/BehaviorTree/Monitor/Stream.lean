import BehaviorTree.Monitor.Framing
import BehaviorTree.Monitor.Overlay

/-!
The stream of reports. Readers run beside the session: they take lines off a connection and put the reports they find into an
inbox, and a marker when they end. The session drains the inbox. What readers and session do is described by one happening
after the other.
-/

set_option autoImplicit false

namespace BehaviorTree

inductive Delivery where
  | report (message : Value)
  | ended

/-- A reader that has not ended, with the parts of the payload under way. -/
structure Reader where
  number : Nat
  parts : List (List Char) := []

structure StatusStream where
  store : Store := {}
  monitor : Monitor := {}
  inbox : List Delivery := []
  stopping : Bool := false
  readers : List Reader := []
  begun : Nat := 0
  /-- The reader that connected last, until any reader ends. -/
  connected : Option Nat := none
  lastError : Option String := none

namespace StatusStream

def offer (s : StatusStream) (payload : List Char) : Bool × StatusStream :=
  match Json.parse payload with
  | .ok message => (true, { s with inbox := s.inbox ++ [.report message] })
  | .error _ => (false, s)

/-- Puts payloads into the inbox while the stream is not stopping; the number of those put there. -/
def offerAll (s : StatusStream) : List (List Char) → Nat × StatusStream
  | [] => (0, s)
  | p :: r =>
    if s.stopping then (0, s)
    else
      let (taken, s) := s.offer p
      let (count, s) := offerAll s r
      (if taken then count + 1 else count, s)

def consume (s : StatusStream) (lines : List Framing.Line) : Nat × StatusStream := s.offerAll (Framing.payloads [] lines)

def begin (s : StatusStream) : Nat × StatusStream :=
  (s.begun, { s with begun := s.begun + 1, readers := s.readers ++ [{ number := s.begun }] })

def start (s : StatusStream) : Nat × StatusStream :=
  begin { s with stopping := false, monitor := { s.monitor with active := true } }

def finish (s : StatusStream) (number : Nat) : StatusStream :=
  { s with
    readers := s.readers.filter fun r => r.number ≠ number
    connected := none
    inbox := s.inbox ++ [.ended] }

/-- A reader ends with an error, which is kept unless the stream is stopping. -/
def finishWith (s : StatusStream) (number : Nat) (message : String) : StatusStream :=
  { s.finish number with lastError := if s.stopping then s.lastError else some message }

def reader? (s : StatusStream) (number : Nat) : Option Reader := s.readers.find? fun r => r.number = number

/-- A reader has its connection. It ends at once if the stream is stopping. -/
def connect (s : StatusStream) (number : Nat) : StatusStream :=
  if (s.reader? number).isNone then s
  else if s.stopping then s.finish number
  else { s with connected := some number }

def withParts (s : StatusStream) (number : Nat) (parts : List (List Char)) : StatusStream :=
  { s with readers := s.readers.map fun r => if r.number = number then { r with parts := parts } else r }

/-- A reader receives a line. A payload that is complete ends it if the stream is stopping. -/
def receive (s : StatusStream) (number : Nat) (line : Framing.Line) : StatusStream :=
  match s.reader? number with
  | none => s
  | some r =>
    match Framing.feed r.parts line with
    | (none, parts) => s.withParts number parts
    | (some payload, parts) =>
      if s.stopping then s.finish number else ((s.withParts number parts).offer payload).2

def close (s : StatusStream) (number : Nat) : StatusStream :=
  match s.reader? number with
  | none => s
  | some r =>
    match Framing.flush r.parts with
    | some payload => if s.stopping then s.finish number else (s.offer payload).2.finish number
    | none => s.finish number

/-- Applies one thing from the inbox: a report goes to the monitor, the marker of an end clears it. -/
def accept (s : StatusStream) : Delivery → StatusStream
  | .report message =>
    let (m, store) := s.monitor.apply s.store message
    { s with monitor := m, store := store }
  | .ended =>
    let (m, store) := Monitor.clear { s.monitor with active := false } s.store
    { s with monitor := m, store := store }

def acceptAll (s : StatusStream) (ds : List Delivery) : StatusStream := ds.foldl accept s

def Delivery.isReport : Delivery → Bool
  | .report _ => true
  | .ended => false

def drain (s : StatusStream) : Nat × StatusStream :=
  (s.inbox.countP Delivery.isReport, acceptAll { s with inbox := [] } s.inbox)

/-- Stops the stream: the connection is closed, so that its reader ends, and what waits in the inbox is dropped. -/
def stop (s : StatusStream) : StatusStream :=
  let s := { s with stopping := true }
  let s := match s.connected with
    | some number => s.finish number
    | none => s
  let (m, store) := Monitor.clear { s.monitor with active := false } s.store
  { s with inbox := [], monitor := m, store := store }

end StatusStream

end BehaviorTree
