import BehaviorTree.Json.Reader

/-!
Ids. An id is a tag followed by a number in decimal digits. A sequence issues numbers in order; it can be set above every
number already in use. Digits of any script count.
-/

set_option autoImplicit false

namespace BehaviorTree

structure IdSequence where
  tag : String
  next : Int
  deriving DecidableEq, Repr

namespace IdSequence

def nodes : IdSequence := ⟨"node_", 0⟩

def connections : IdSequence := ⟨"conn_", 0⟩

def render (s : IdSequence) (n : Int) : String := s.tag ++ Value.intText n

def issue (s : IdSequence) : String × IdSequence := (s.render s.next, { s with next := s.next + 1 })

def isExhausted (s : IdSequence) : Bool := Decimal.isTooLong s.next

inductive Fault where
  | tooManyDigits (count : Nat)
  | noText
  deriving DecidableEq, Repr

def Fault.message : Fault → String
  | .tooManyDigits count => Decimal.tooManyDigitsMessage count
  | .noText => "an id is a text"

def afterTag? : List Char → List Char → Option (List Char)
  | [], cs => some cs
  | _ :: _, [] => none
  | t :: ts, c :: cs => if t = c then afterTag? ts cs else none

/-- The number of an id; none when the text is not the tag followed by digits only. -/
def suffix? (s : IdSequence) (id : String) : Except Fault (Option Nat) :=
  match (afterTag? s.tag.toList id.toList).bind fun cs => (Text.numeral? cs).map fun n => (n, cs.length) with
  | none => .ok none
  | some (n, count) => if Decimal.digitLimit < count then .error (.tooManyDigits count) else .ok (some n)

def suffixes (s : IdSequence) : List String → Except Fault (List Nat)
  | [] => .ok []
  | id :: r =>
    match s.suffix? id with
    | .error e => .error e
    | .ok found =>
      match suffixes s r with
      | .error e => .error e
      | .ok ns => .ok (found.toList ++ ns)

/-- The number of an id given as any value. What is empty has none; only a text can be searched for one. -/
def suffixOfValue? (s : IdSequence) (v : Value) : Except Fault (Option Nat) :=
  if !v.isTruthy then .ok none
  else
    match v with
    | .text id => s.suffix? id
    | _ => .error .noText

def suffixesOfValues (s : IdSequence) : List Value → Except Fault (List Nat)
  | [] => .ok []
  | v :: r => do return (← s.suffixOfValue? v).toList ++ (← suffixesOfValues s r)

def above : List Nat → Nat
  | [] => 0
  | n :: r => max (n + 1) (above r)

def resumeAfter (s : IdSequence) (ids : List String) : Except Fault IdSequence :=
  (s.suffixes ids).map fun ns => { s with next := above ns }

def resumeAfterValue (s : IdSequence) (ids : Value) : Except Fault IdSequence :=
  match ids.parts? with
  | none => .error .noText
  | some vs => (s.suffixesOfValues vs).map fun ns => { s with next := above ns }

end IdSequence

end BehaviorTree
