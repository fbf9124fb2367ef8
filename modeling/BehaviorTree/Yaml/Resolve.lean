import BehaviorTree.Text.Split
import BehaviorTree.Yaml.Moment

/-!
The tags of plain scalars. Without a tag, a plain scalar is what its form says: a truth value, an integer, a float, null, a
point in time, or text.
-/

set_option autoImplicit false

namespace BehaviorTree.Yaml

inductive Tag where
  | null
  | bool
  | int
  | float
  | binary
  | timestamp
  | pairs
  | set
  | str
  | seq
  | map
  | merge
  | value
  /-- A tag that has no meaning here. -/
  | unknown
  deriving DecidableEq, Repr

namespace Tag

def standard : String := "tag:yaml.org,2002:"

def ofName (name : String) : Tag :=
  let known : List (String × Tag) :=
    [("null", .null), ("bool", .bool), ("int", .int), ("float", .float), ("binary", .binary), ("timestamp", .timestamp),
      ("omap", .pairs), ("pairs", .pairs), ("set", .set), ("str", .str), ("seq", .seq), ("map", .map), ("merge", .merge),
      ("value", .value)]
  match known.find? fun k => standard ++ k.1 = name with
  | some k => k.2
  | none => .unknown

end Tag

namespace Resolve

def withoutSign : List Char → List Char
  | c :: r => if Moment.isSign c then r else c :: r
  | [] => []

def isDigitOrGap (c : Char) : Bool := c.isDigit || c = '_'

def isNumber (first : Char → Bool) : List Char → Bool
  | c :: r => first c && r.all isDigitOrGap
  | [] => false

def isRun (p : Char → Bool) (cs : List Char) : Bool := !cs.isEmpty && cs.all p

def isSixtieth : List Char → Bool
  | [a] => a.isDigit
  | [a, b] => '0' ≤ a && a ≤ '5' && b.isDigit
  | _ => false

def isNonZero (c : Char) : Bool := c.isDigit && c ≠ '0'

def isHexadecimal (c : Char) : Bool := c.isDigit || ('a' ≤ c && c ≤ 'f') || ('A' ≤ c && c ≤ 'F') || c = '_'

def isInt (cs : List Char) : Bool :=
  match withoutSign cs with
  | ['0'] => true
  | '0' :: 'b' :: r => isRun (fun c => c = '0' || c = '1' || c = '_') r
  | '0' :: 'x' :: r => isRun isHexadecimal r
  | '0' :: r => isRun (fun c => ('0' ≤ c && c ≤ '7') || c = '_') r
  | r =>
    match Text.split ':' r with
    | first :: rest => isNumber isNonZero first && rest.all isSixtieth
    | [] => false

def isExponent : List Char → Bool
  | [] => true
  | e :: s :: r => (e = 'e' || e = 'E') && Moment.isSign s && isRun Char.isDigit r
  | _ => false

def isFraction (cs : List Char) : Bool := isExponent (cs.dropWhile isDigitOrGap)

def isPointed (parts : List (List Char)) : Bool :=
  match parts with
  | [] => false
  | [p] => isNumber Char.isDigit (p.takeWhile (· ≠ '.')) && p.contains '.' && isFraction ((p.dropWhile (· ≠ '.')).drop 1)
  | p :: r =>
    match r.getLast? with
    | none => false
    | some last =>
      isNumber Char.isDigit p && r.dropLast.all isSixtieth && isSixtieth (last.takeWhile (· ≠ '.')) && last.contains '.'
        && ((last.dropWhile (· ≠ '.')).drop 1).all isDigitOrGap

def isFloat (cs : List Char) : Bool :=
  let r := withoutSign cs
  isPointed (Text.split ':' r) || [".inf", ".Inf", ".INF"].contains (String.ofList r)
    || [".nan", ".NaN", ".NAN"].contains (String.ofList cs)
    || match cs with
      | '.' :: d :: r => d.isDigit && isFraction r
      | _ => false

def isBool (s : String) : Bool :=
  ["yes", "Yes", "YES", "no", "No", "NO", "true", "True", "TRUE", "false", "False", "FALSE", "on", "On", "ON", "off", "Off",
    "OFF"].contains s

def isNull (s : String) : Bool := ["", "~", "null", "Null", "NULL"].contains s

end Resolve

/-- The tag of a plain scalar without a tag of its own. A line feed that ends the scalar does not count. -/
def Resolve.plain (s : String) : Tag :=
  let cs := withoutBreak s.toList
  let core := String.ofList cs
  if s = "\n" then .str
  else if isBool core then .bool
  else if isFloat cs then .float
  else if isInt cs then .int
  else if core = "<<" then .merge
  else if isNull core then .null
  else if Moment.isPlain cs then .timestamp
  else if core = "=" then .value
  else if ["!", "&", "*"].contains core then .unknown
  else .str

end BehaviorTree.Yaml
