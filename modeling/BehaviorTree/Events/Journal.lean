import BehaviorTree.Events.Change

/-!
The journal of notifications: how many there were on each topic, and the most recent ones, oldest first.
-/

set_option autoImplicit false

namespace BehaviorTree

structure Journal where
  /-- How many notifications are kept; no limit when there is none. -/
  capacity : Option Nat := some 10
  counts : List (Topic × Nat) := []
  recent : List Event := []

namespace Journal

def bump (topic : Topic) : List (Topic × Nat) → List (Topic × Nat)
  | [] => [(topic, 1)]
  | (t, n) :: r => if t = topic then (t, n + 1) :: r else (t, n) :: bump topic r

def lastOf {α : Type} (capacity : Option Nat) (xs : List α) : List α :=
  match capacity with
  | some n => xs.drop (xs.length - n)
  | none => xs

def record (j : Journal) (e : Event) : Journal :=
  { j with counts := bump e.topic j.counts, recent := lastOf j.capacity (j.recent ++ [e]) }

def count (j : Journal) (topic : Topic) : Nat := ((j.counts.find? fun c => c.1 = topic).map Prod.snd).getD 0

def toValue (j : Journal) : Value :=
  .object [("by_topic", .object (j.counts.map fun c => (c.1.name, .int c.2))), ("history", .list (j.recent.map Event.toValue))]

end Journal

end BehaviorTree
