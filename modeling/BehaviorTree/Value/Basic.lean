import BehaviorTree.Table
import BehaviorTree.Text.Half

/-!
Values. A document, a property or an argument holds a value: null, a truth value, a number, text, bytes, a list, or an object
whose members keep their order. Integers and floats are different numbers.
-/

set_option autoImplicit false

namespace BehaviorTree

inductive Value where
  | null
  | bool (b : Bool)
  | int (i : Int)
  | float (x : Float)
  | text (s : String)
  | bytes (bs : List Nat)
  | list (vs : List Value)
  | object (members : List (String × Value))
  deriving Inhabited

inductive Scalar where
  | null
  | bool (b : Bool)
  | int (i : Int)
  | float (x : Float)
  | text (s : String)
  | bytes (bs : List Nat)

namespace Value

def scalar? : Value → Option Scalar
  | .null => some .null
  | .bool b => some (.bool b)
  | .int i => some (.int i)
  | .float x => some (.float x)
  | .text s => some (.text s)
  | .bytes bs => some (.bytes bs)
  | .list _ => none
  | .object _ => none

def isTruthy : Value → Bool
  | .null => false
  | .bool b => b
  | .int i => i != 0
  | .float x => x != 0.0
  | .text s => s != ""
  | .bytes bs => !bs.isEmpty
  | .list vs => !vs.isEmpty
  | .object ms => !ms.isEmpty

/-- A whole number or a truth value as a count; zero for everything else. -/
def count : Value → Int
  | .int i => i
  | .bool true => 1
  | _ => 0

def text? : Value → Option String
  | .text s => some s
  | _ => none

/-- What a value looks up in a table: a text finds its row, another value without parts finds nothing, and with a list or an
object nothing can be looked up. -/
inductive Key where
  | text (s : String)
  | unmatched
  | unusable
  deriving DecidableEq, Repr

def key : Value → Key
  | .text s => .text s
  | .list _ => .unusable
  | .object _ => .unusable
  | _ => .unmatched

/-- The parts one goes through in a value: the elements of a list, the names of the members of an object, the characters of a
text, the numbers that bytes are. -/
def parts? : Value → Option (List Value)
  | .list vs => some vs
  | .object ms => some (ms.map fun m => .text m.1)
  | .text s => some ((Text.codes s.toList).map fun n => .text (String.ofList (Text.ofCode n)))
  | .bytes bs => some (bs.map fun b => .int (b : Nat))
  | _ => none

/-- The texts among keys, up to the first key that cannot be used, and whether all of them can be used. -/
def textKeys : List Value → List String × Bool
  | [] => ([], true)
  | v :: r =>
    match v.key with
    | .text s => (s :: (textKeys r).1, (textKeys r).2)
    | .unmatched => textKeys r
    | .unusable => ([], false)

def member (ms : Table Value) (k : String) : Value := (Table.lookup ms k).getD .null

mutual

def hasBytes : Value → Bool
  | .bytes _ => true
  | .list vs => anyHasBytes vs
  | .object ms => anyMemberHasBytes ms
  | _ => false

def anyHasBytes : List Value → Bool
  | [] => false
  | v :: r => v.hasBytes || anyHasBytes r

def anyMemberHasBytes : List (String × Value) → Bool
  | [] => false
  | (_, v) :: r => v.hasBytes || anyMemberHasBytes r

end

mutual

def anyScalar (p : Scalar → Bool) : Value → Bool
  | .list vs => anyElementScalar p vs
  | .object ms => anyMemberScalar p ms
  | v => v.scalar?.any p

def anyElementScalar (p : Scalar → Bool) : List Value → Bool
  | [] => false
  | v :: r => v.anyScalar p || anyElementScalar p r

def anyMemberScalar (p : Scalar → Bool) : List (String × Value) → Bool
  | [] => false
  | (_, v) :: r => v.anyScalar p || anyMemberScalar p r

end

mutual

/-- Equal as data. Floats compare as numbers; whether NaN is equal to itself has to be said. -/
def same (nanAlike : Bool) : Value → Value → Bool
  | .null, .null => true
  | .bool a, .bool b => a == b
  | .int a, .int b => a == b
  | .float a, .float b => a == b || (nanAlike && a.isNaN && b.isNaN)
  | .text a, .text b => a == b
  | .bytes a, .bytes b => a == b
  | .list a, .list b => sameList nanAlike a b
  | .object a, .object b => sameMembers nanAlike a b
  | _, _ => false

def sameList (nanAlike : Bool) : List Value → List Value → Bool
  | [], [] => true
  | a :: r, b :: t => a.same nanAlike b && sameList nanAlike r t
  | _, _ => false

def sameMembers (nanAlike : Bool) : List (String × Value) → List (String × Value) → Bool
  | [], [] => true
  | (j, a) :: r, (k, b) :: t => j == k && a.same nanAlike b && sameMembers nanAlike r t
  | _, _ => false

end

end Value

end BehaviorTree
