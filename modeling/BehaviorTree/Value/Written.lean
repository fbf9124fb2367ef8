import BehaviorTree.Value.Basic
import BehaviorTree.Decimal.Integer
import BehaviorTree.Text.Quoted

/-!
Values as text. Text stands for itself; inside a list or an object it is quoted. Bytes are quoted everywhere.
-/

set_option autoImplicit false

namespace BehaviorTree

def Scalar.isLongInteger : Scalar → Bool
  | .int i => Decimal.isTooLong i
  | _ => false

def Scalar.isNonFinite : Scalar → Bool
  | .float x => x.isNaN || x.isInf
  | _ => false

namespace Value

def boolText (b : Bool) : String := if b then "True" else "False"

def intText (i : Int) : String := String.ofList (Decimal.intText i)

def floatText (x : Float) : String :=
  String.ofList (Decimal.floatText "nan".toList "inf".toList x)

mutual

def inner : Value → String
  | .null => "None"
  | .bool b => boolText b
  | .int i => intText i
  | .float x => floatText x
  | .text s => Text.quoted s
  | .bytes bs => Text.quotedBytes bs
  | .list vs => "[" ++ ", ".intercalate (innerList vs) ++ "]"
  | .object ms => "\x7b" ++ ", ".intercalate (innerMembers ms) ++ "\x7d"

def innerList : List Value → List String
  | [] => []
  | v :: r => v.inner :: innerList r

def innerMembers : List (String × Value) → List String
  | [] => []
  | (k, v) :: r => (Text.quoted k ++ ": " ++ v.inner) :: innerMembers r

end

def written : Value → String
  | .text s => s
  | v => v.inner

def hasLongInteger (v : Value) : Bool := v.anyScalar Scalar.isLongInteger

def hasNonFinite (v : Value) : Bool := v.anyScalar Scalar.isNonFinite

end Value

end BehaviorTree
