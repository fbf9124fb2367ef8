import BehaviorTree.Text.Case
import BehaviorTree.Value.Number
import BehaviorTree.Value.Written

/-!
Levels of log records. A level is a number; some have names.
-/

set_option autoImplicit false

namespace BehaviorTree.Logging

def names : Table Int :=
  [("CRITICAL", 50), ("FATAL", 50), ("ERROR", 40), ("WARN", 30), ("WARNING", 30), ("INFO", 20), ("DEBUG", 10), ("NOTSET", 0)]

def info : Int := 20

def warning : Int := 30

/-- The level that a name stands for, in any case and with blanks around it; an unknown name stands for the usual level. -/
def levelNamed (name : String) : Int := (Table.lookup names (Text.upper (Text.trimSpacing name))).getD info

/-- The level that a value stands for: a name, a number without its fraction, or a number in bytes. -/
def levelOf (v : Value) : Except NumberFault Int :=
  match v with
  | .text s => .ok (levelNamed s)
  | .bytes bs => (Value.integerOfBytes bs).mapError .unreadableInteger
  | v =>
    match v.number? with
    | some (.int i) => .ok i
    | some (.float x) => (Decimal.truncateFloat x).mapError .ofUnbounded
    | none => .error .wrongKind

def levelNames : List (Int × String) :=
  [(50, "CRITICAL"), (40, "ERROR"), (30, "WARNING"), (20, "INFO"), (10, "DEBUG"), (0, "NOTSET")]

def levelName (level : Number) : String :=
  match levelNames.find? fun n => (Number.int n.1).le level && level.le (.int n.1) with
  | some n => n.2
  | none => "Level " ++ level.toValue.written

end BehaviorTree.Logging
