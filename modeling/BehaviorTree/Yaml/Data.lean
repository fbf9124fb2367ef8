import BehaviorTree.Value.Written
import BehaviorTree.Yaml.Moment

/-!
The data of a configuration text. It is richer than the values of documents: a mapping may have keys of any kind, and there are
points in time and sets.
-/

set_option autoImplicit false

namespace BehaviorTree.Yaml

inductive Data where
  | null
  | bool (b : Bool)
  | int (i : Int)
  | float (x : Float)
  | text (s : String)
  | bytes (bs : List Nat)
  | moment (m : Moment)
  | list (ds : List Data)
  | set (ds : List Data)
  | map (rows : List (Data × Data))
  /-- A collection within itself, where it is not followed further. -/
  | again
  deriving Inhabited

namespace Data

mutual

def ofValue : Value → Data
  | .null => .null
  | .bool b => .bool b
  | .int i => .int i
  | .float x => .float x
  | .text s => .text s
  | .bytes bs => .bytes bs
  | .list vs => .list (ofValues vs)
  | .object ms => .map (ofMembers ms)

def ofValues : List Value → List Data
  | [] => []
  | v :: r => ofValue v :: ofValues r

def ofMembers : List (String × Value) → List (Data × Data)
  | [] => []
  | (k, v) :: r => (.text k, ofValue v) :: ofMembers r

end

def scalar? : Data → Option Scalar
  | .null => some .null
  | .bool b => some (.bool b)
  | .int i => some (.int i)
  | .float x => some (.float x)
  | .text s => some (.text s)
  | .bytes bs => some (.bytes bs)
  | _ => none

def kind : Data → String
  | .null => "NoneType"
  | .bool _ => "bool"
  | .int _ => "int"
  | .float _ => "float"
  | .text _ => "str"
  | .bytes _ => "bytes"
  | .moment m => if m.time.isSome then "datetime.datetime" else "datetime.date"
  | .list _ => "list"
  | .set _ => "set"
  | .map _ => "dict"
  | .again => "list"

def named? (rows : List (Data × Data)) (name : String) : Option Data :=
  match rows with
  | [] => none
  | (.text k, d) :: r => if k = name then some d else named? r name
  | _ :: r => named? r name

end Data

end BehaviorTree.Yaml
