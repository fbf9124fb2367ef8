import BehaviorTree.Store.Basic

/-!
The overlay of execution statuses. A report names nodes by their display names; the first node of a name gets the status, and
each report replaces the statuses of the one before.
-/

set_option autoImplicit false

namespace BehaviorTree

structure Monitor where
  states : Table Status := []
  active : Bool := false

namespace Monitor

/-- The entries of a report: a name and a status each. A report is an object with a list of nodes, a single entry, or a list of
entries. -/
def entries : Value → List (Value × Value)
  | .object ms =>
    match Table.lookup ms "nodes" with
    | some (.list vs) =>
      vs.filterMap fun
        | .object n => some (Value.member n "name", Value.member n "status")
        | _ => none
    | _ => if Table.holds ms "node_name" then [(Value.member ms "node_name", Value.member ms "status")] else []
  | .list vs =>
    vs.filterMap fun
      | .object m => if Table.holds m "node_name" then some (Value.member m "node_name", Value.member m "status") else none
      | _ => none
  | _ => []

/-- The statuses that entries give to the nodes of a graph; a later entry for a node wins. -/
def statesOf (g : Graph) (states : Table Status) : List (Value × Value) → Table Status
  | [] => states
  | (name, status) :: r =>
    match g.named? name.written with
    | none => statesOf g states r
    | some n => statesOf g (Table.insert states n.id (.ofReported status)) r

def apply (m : Monitor) (s : Store) (report : Value) : Monitor × Store :=
  let states := statesOf s.graph [] (entries report)
  ({ m with states := states }, s.emit (.statusUpdated states))

def statusOf (m : Monitor) (id : String) : Status := (Table.lookup m.states id).getD .idle

/-- Forgets all statuses; there is a notification only if there were any. -/
def clear (m : Monitor) (s : Store) : Monitor × Store :=
  match m.states with
  | [] => (m, s)
  | _ => ({ m with states := [] }, s.emit .statusStopped)

end Monitor

end BehaviorTree
