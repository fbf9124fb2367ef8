import BehaviorTree.Schema.Lenient

/-!
Records. A record is an object whose members are read by name; members that the schema does not name are passed over.
-/

set_option autoImplicit false

namespace BehaviorTree.Schema

variable {α : Type}

def members : Value → Checked (Table Value)
  | .object ms => .ok ms
  | _ => .fail .notRecord

def required (ms : Table Value) (name : String) (read : Value → Checked α) : Checked α :=
  match Table.lookup ms name with
  | some v => (read v).below (.member name)
  | none => Checked.below (.fail .missing) (.member name)

def optional (ms : Table Value) (name : String) (fallback : α) (read : Value → Checked α) : Checked α :=
  match Table.lookup ms name with
  | some v => (read v).below (.member name)
  | none => .ok fallback

def text (v : Value) : Checked String := .ofCause (readText v.scalar?)

def strictText : Value → Checked String
  | .text s => .ok s
  | _ => .fail .notText

def integer (v : Value) : Checked Int := .ofCause (readInteger v.scalar?)

def float (v : Value) : Checked Float := .ofCause (readFloat v.scalar?)

def boolean (v : Value) : Checked Bool := .ofCause (readBoolean v.scalar?)

def anything (v : Value) : Checked Value := .ok v

def nullable (read : Value → Checked α) : Value → Checked (Option α)
  | .null => .ok none
  | v => (read v).map some

def object : Value → Checked (Table Value)
  | .object ms => .ok ms
  | _ => .fail .notObject

def objectOf (read : Value → Checked α) : Value → Checked (Table α)
  | .object ms => .all (ms.map fun m => ((read m.2).below (.member m.1)).map fun a => (m.1, a))
  | _ => .fail .notObject

def listOf (read : Value → Checked α) : Value → Checked (List α)
  | .list vs => .all (vs.mapIdx fun i v => (read v).below (.element i))
  | _ => .fail .notList

end BehaviorTree.Schema
