import BehaviorTree.Decimal.Notation
import BehaviorTree.Decimal.Reading
import BehaviorTree.Text.Blank
import BehaviorTree.Text.Quoted

/-!
Reading integers to a base. Blanks may stand around the number and a sign in front; single underscores may stand between the
digits, and the decimal digits of every script count. The bases two, eight and sixteen may be marked, as in `0x1f`. The number
of digits is limited.
-/

set_option autoImplicit false

namespace BehaviorTree.Decimal

def digitLimit : Nat := 4300

def limitMessage : String := "Exceeds the limit (" ++ String.ofList (natText digitLimit) ++ " digits) for integer string conversion"

def limitAdvice : String := "; use sys.set_int_max_str_digits() to increase the limit"

def tooManyDigitsMessage (count : Nat) : String :=
  limitMessage ++ ": value has " ++ String.ofList (natText count) ++ " digits" ++ limitAdvice

def isTooLong (i : Int) : Bool := digitLimit < (natText i.natAbs).length

inductive IntegerFault where
  | unreadable (base : Nat) (shown : String)
  | tooManyDigits (count : Nat)
  deriving DecidableEq, Repr

def shownLimit : Nat := 200

/-- The text that cannot be read is shown in quotes, as far as the limit goes. -/
def IntegerFault.message : IntegerFault → String
  | .unreadable base shown =>
    "invalid literal for int() with base " ++ String.ofList (natText base) ++ ": "
      ++ String.ofList (shown.toList.take shownLimit)
  | .tooManyDigits count => tooManyDigitsMessage count

def digitBelow? (base : Nat) (c : Char) : Option Nat :=
  let value :=
    if c.isLower then some (c.toNat - 87)
    else if c.isUpper then some (c.toNat - 55)
    else Text.digitValue? c
  value.filter (· < base)

/-- The digits that a text starts with, single underscores between them, and the rest. -/
def spanUnderscored (base : Nat) : List Char → List Nat × List Char
  | [] => ([], [])
  | c :: '_' :: r =>
    match digitBelow? base c, spanUnderscored base r with
    | none, _ => ([], c :: '_' :: r)
    | some d, ([], _) => ([d], '_' :: r)
    | some d, (ds, rest) => (d :: ds, rest)
  | c :: r =>
    match digitBelow? base c, spanUnderscored base r with
    | none, _ => ([], c :: r)
    | some d, (ds, rest) => (d :: ds, rest)

def dropMark (base : Nat) (cs : List Char) : List Char :=
  match cs with
  | '0' :: c :: r =>
    if (base = 16 && (c = 'x' || c = 'X')) || (base = 8 && (c = 'o' || c = 'O')) || (base = 2 && (c = 'b' || c = 'B')) then
      match r with
      | '_' :: r => r
      | r => r
    else cs
  | cs => cs

/-- Is the base a power of two? The number of digits is not limited then. -/
def isBinaryBase (base : Nat) : Bool := base = 2 || base = 8 || base = 16

def readInteger (base : Nat) (text : String) : Except IntegerFault Int :=
  let (negative, r) := spanSign (text.toList.dropWhile Text.isBlank)
  let (ds, rest) := spanUnderscored base (dropMark base r)
  if !isBinaryBase base && digitLimit < ds.length && rest.head? ≠ some '_' then .error (.tooManyDigits ds.length)
  else if ds.isEmpty || !(rest.all Text.isBlank) then .error (.unreadable base (Text.quoted text))
  else .ok (withSign negative (ds.foldl (fun n d => base * n + d) 0))

end BehaviorTree.Decimal
