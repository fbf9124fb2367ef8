import BehaviorTree.Value.Basic
import BehaviorTree.Decimal.Integer

/-!
Numbers among the values. A truth value counts as zero or one in arithmetic; text and bytes are numbers only where
they are converted.
-/

set_option autoImplicit false

namespace BehaviorTree

inductive Number where
  | int (i : Int)
  | float (x : Float)

inductive NumberFault where
  | wrongKind
  | unreadable (shown : String)
  | unreadableInteger (fault : Decimal.IntegerFault)
  /-- The number is too large for a float, or an infinity has no nearest integer. -/
  | outOfRange
  /-- NaN has no nearest integer. -/
  | nan
  deriving DecidableEq, Repr

def NumberFault.message : NumberFault → String
  | .wrongKind => "not a number"
  | .unreadable shown => "could not convert string to float: " ++ shown
  | .unreadableInteger fault => fault.message
  | .outOfRange => "number out of range"
  | .nan => "cannot convert float NaN to integer"

def NumberFault.ofUnbounded : Decimal.Unbounded → NumberFault
  | .nan => .nan
  | .infinite => .outOfRange

namespace Number

def toValue : Number → Value
  | .int i => .int i
  | .float x => .float x

def isNaN : Number → Bool
  | .int _ => false
  | .float x => x.isNaN

def lt : Number → Number → Bool
  | .int a, .int b => a < b
  | .float a, .float b => a < b
  | .float a, .int b => !a.isNaN && Decimal.compareInt a b == .lt
  | .int a, .float b => !b.isNaN && Decimal.compareInt b a == .gt

def le (a b : Number) : Bool := !a.isNaN && !b.isNaN && !b.lt a

def min (a b : Number) : Number := if b.lt a then b else a

def max (a b : Number) : Number := if a.lt b then b else a

def toFloat : Number → Except NumberFault Float
  | .float x => .ok x
  | .int i =>
    match Decimal.ofInt? i with
    | some x => .ok x
    | none => .error .outOfRange

/-- Applies an operation to integers, or to floats when one side is a float. -/
def combine (onInts : Int → Int → Int) (onFloats : Float → Float → Float) : Number → Number → Except NumberFault Number
  | .int a, .int b => .ok (.int (onInts a b))
  | a, b => do return .float (onFloats (← a.toFloat) (← b.toFloat))

def add : Number → Number → Except NumberFault Number := combine (· + ·) (· + ·)

def sub : Number → Number → Except NumberFault Number := combine (· - ·) (· - ·)

def mul : Number → Number → Except NumberFault Number := combine (· * ·) (· * ·)

def half : Number → Except NumberFault Number
  | .float x => .ok (.float (x / 2.0))
  | .int i =>
    match Decimal.ofQuotient? i 2 with
    | some x => .ok (.float x)
    | none => .error .outOfRange

end Number

namespace Value

def number? : Value → Option Number
  | .int i => some (.int i)
  | .float x => some (.float x)
  | .bool b => some (.int (if b then 1 else 0))
  | _ => none

/-- The text of a float with underscores between digits and blanks around it, in the digits of any script. -/
def floatOfText? (s : String) : Option Float :=
  let cs := Text.trimBy Text.isBlank s.toList
  let loose := (([' '] ++ cs).zip (cs.zip (cs.drop 1 ++ [' ']))).any fun p =>
    p.2.1 = '_' && !((Text.digitValue? p.1).isSome && (Text.digitValue? p.2.2).isSome)
  if loose then none else Decimal.float? Text.digitValue? (cs.filter (· ≠ '_'))

def asciiOf (bs : List Nat) : String := String.ofList (bs.map fun b => if b < 0x80 then Char.ofNat b else '\ufffd')

def integerOfBytes (bs : List Nat) : Except Decimal.IntegerFault Int :=
  match Decimal.readInteger 10 (asciiOf bs) with
  | .error (.unreadable base _) => .error (.unreadable base (Text.quotedBytes (bs.take Decimal.shownLimit)))
  | r => r

def toFloat (v : Value) : Except NumberFault Float :=
  match v with
  | .text s =>
    match floatOfText? s with
    | some x => .ok x
    | none => .error (.unreadable (Text.quoted s))
  | .bytes bs =>
    match floatOfText? (asciiOf bs) with
    | some x => .ok x
    | none => .error (.unreadable (Text.quotedBytes bs))
  | v =>
    match v.number? with
    | some n => n.toFloat
    | none => .error .wrongKind

end Value

end BehaviorTree
