import BehaviorTree.Schema.Record
import BehaviorTree.Value.Number

/-!
The grid of the canvas. When snapping is on, a coordinate moves to the nearest multiple of the grid size; halfway between two
multiples it moves to the even one.
-/

set_option autoImplicit false

namespace BehaviorTree

structure GridSettings where
  enabled : Bool := true
  size : Int := 20
  snap : Bool := true
  deriving DecidableEq, Repr

namespace GridSettings

def toMembers (g : GridSettings) : Table Value :=
  [("enabled", .bool g.enabled), ("size", .int g.size), ("snap", .bool g.snap)]

def toValue (g : GridSettings) : Value := .object g.toMembers

def ofScalars (find? : String → Option (Option Scalar)) : Schema.Checked GridSettings :=
  let field {α : Type} (name : String) (fallback : α) (read : Option Scalar → Except Schema.Cause α) : Schema.Checked α :=
    match find? name with
    | some v => (Schema.Checked.ofCause (read v)).below (.member name)
    | none => .ok fallback
  let enabled := field "enabled" true Schema.readBoolean
  let size := field "size" 20 (Schema.atLeast 1 Schema.readInteger)
  let snap := field "snap" true Schema.readBoolean
  match enabled, size, snap with
  | .ok enabled, .ok size, .ok snap => .ok ⟨enabled, size, snap⟩
  | _, _, _ => .error (enabled.problems ++ size.problems ++ snap.problems)

def ofMembers (ms : Table Value) : Schema.Checked GridSettings :=
  ofScalars fun name => (Table.lookup ms name).map Value.scalar?

def check (v : Value) : Schema.Checked GridSettings := (Schema.members v).andThen ofMembers

def ofValue (v : Value) : Except Schema.Report GridSettings := (check v).report "GridSettings"

def quotient (size : Int) : Number → Except NumberFault Float
  | .int i =>
    match Decimal.ofQuotient? (if size < 0 then -i else i) size.natAbs with
    | some x => .ok x
    | none => .error .outOfRange
  | .float x => (Number.toFloat (.int size)).map (x / ·)

def nearestMultiple (size : Int) (n : Number) : Except NumberFault Float := do
  let q ← quotient size n
  match Decimal.roundFloat q with
  | .error u => .error (.ofUnbounded u)
  | .ok k => Number.toFloat (.int (k * size))

def snapValue (g : GridSettings) (v : Value) : Except NumberFault Value :=
  if g.snap then
    match v.number? with
    | some n => (nearestMultiple g.size n).map .float
    | none => .error .wrongKind
  else .ok v

def snapFloat (g : GridSettings) (x : Float) : Except NumberFault Float :=
  if g.snap then nearestMultiple g.size (.float x) else .ok x

end GridSettings

end BehaviorTree
