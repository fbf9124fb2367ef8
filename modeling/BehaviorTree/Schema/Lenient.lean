import BehaviorTree.Schema.Problem
import BehaviorTree.Decimal.Reading
import BehaviorTree.Text.Blank
import BehaviorTree.Text.Encoding

/-!
Lenient readers. A number may be given as text or as a truth value, a truth value as a number or as a word; text must be text.
Bytes count as the text they encode.
-/

set_option autoImplicit false

namespace BehaviorTree.Schema

def decoded (bs : List Nat) (otherwise : Cause) : Except Cause String :=
  match Text.utf8Chars 0 0 bs with
  | .ok cs => .ok (String.ofList (Text.ofChars cs))
  | .error _ => .error otherwise

/-- The text of a number or of a truth value, in which no half of a pair may stand. -/
def encodable (s : String) : Except Cause String := if s.toList.any Text.isHalf then .error .notUnicode else .ok s

def readText : Option Scalar → Except Cause String
  | some (.text s) => .ok s
  | some (.bytes bs) => decoded bs .notUnicode
  | _ => .error .notText

def integerDigits : Nat := 4300

/-- The plain form of an integer: a minus sign perhaps, then digits without a leading zero. -/
def plainInteger? (cs : List Char) : Option Int :=
  let negative := cs.head? = some '-'
  let digits := if negative then cs.drop 1 else cs
  if digits.isEmpty || (digits.head? = some '0' && 1 < digits.length) then none
  else (digits.mapM Text.asciiDigit?).map fun ds => Decimal.withSign negative (Text.digitsValue ds)

/-- Does the text start, after a minus sign, with more digits than an integer may have? -/
def hasTooManyDigits (cs : List Char) : Bool :=
  let digits := if cs.head? = some '-' then cs.drop 1 else cs
  digits.head? != some '0' && integerDigits < (digits.takeWhile Char.isDigit).length

/-- What follows zeros and underscores. The last character of a run to the end stays, and so does the one before a point. -/
def afterZeros (last : Char) : List Char → Option (List Char)
  | [] => some [last]
  | c :: r =>
    if c = '0' || c = '_' then afterZeros c r
    else if c = '.' then some (last :: c :: r)
    else if c = '-' || c.isDigit then some (c :: r)
    else none

/-- Drops zeros in front of a number, and with them underscores and even a sign between them. -/
def withoutLeadingZeros? : List Char → Option (List Char)
  | [] => none
  | c :: r =>
    if c = '0' then afterZeros c r
    else if c = '-' || c.isDigit then some (c :: r)
    else none

def withoutFraction? (cs : List Char) : Option (List Char) :=
  match cs.dropWhile (· ≠ '.') with
  | [] => some cs
  | _ :: zeros => if zeros.isEmpty || zeros.any (· ≠ '0') then none else some (cs.takeWhile (· ≠ '.'))

/-- Takes single underscores out of a text that neither starts nor ends with one. -/
def withoutUnderscores? (cs : List Char) : Option (List Char) :=
  let doubled := (cs.zip (cs.drop 1)).any fun p => p.1 = '_' && p.2 = '_'
  if cs.head? = some '_' || cs.getLast? = some '_' || doubled || !cs.contains '_' then none
  else some (cs.filter (· ≠ '_'))

/-- The plain form of an integer that is written with blanks around it, a plus sign, leading zeros, a fraction of zeros or
underscores. -/
def tidied? (s : String) : Option (List Char) := do
  let cs := (Text.trim s).toList
  let unsigned := if cs.head? = some '+' then cs.drop 1 else cs
  if cs.head? = some '+' && unsigned.head? = some '-' then none
  else
    let cs ← (← withoutLeadingZeros? unsigned) |> withoutFraction?
    return (withoutUnderscores? cs).getD cs

def integerOfText (s : String) : Except Cause Int :=
  if hasTooManyDigits s.toList then .error .integerTooLarge
  else
    match plainInteger? s.toList with
    | some i => .ok i
    | none =>
      match tidied? s with
      | none => .error .unreadableInteger
      | some cs =>
        if hasTooManyDigits cs then .error .unreadableInteger
        else
          match plainInteger? cs with
          | some i => .ok i
          | none => .error .unreadableInteger

def int64Bound : Int := 9223372036854775808

def int64Max : Int := int64Bound - 1

def integerOfFloat (x : Float) : Except Cause Int :=
  match Decimal.truncateFloat x with
  | .error _ => .error .notFinite
  | .ok i =>
    if !Decimal.isWhole x then .error .fractional
    else if -int64Bound ≤ i ∧ i ≤ int64Bound then .ok (min i int64Max)
    else .error .integerTooLarge

def readInteger : Option Scalar → Except Cause Int
  | some (.int i) => .ok i
  | some (.bool b) => .ok (if b then 1 else 0)
  | some (.float x) => integerOfFloat x
  | some (.text s) => (encodable s).bind integerOfText
  | some (.bytes bs) => (decoded bs .unreadableInteger).bind integerOfText
  | _ => .error .notInteger

def floatOfText (s : String) : Except Cause Float :=
  match Decimal.float? Text.asciiDigit? (Text.trim s).toList with
  | some x => .ok x
  | none =>
    match (withoutUnderscores? s.toList).bind (Decimal.float? Text.asciiDigit?) with
    | some x => .ok x
    | none => .error .unreadableFloat

def readFloat : Option Scalar → Except Cause Float
  | some (.float x) => .ok x
  | some (.int i) =>
    match Decimal.ofInt? i with
    | some x => .ok x
    | none => .error .notFloat
  | some (.bool b) => .ok (if b then 1.0 else 0.0)
  | some (.text s) => (encodable s).bind floatOfText
  | some (.bytes bs) => (decoded bs .unreadableFloat).bind floatOfText
  | _ => .error .notFloat

def booleanOfText (s : String) : Except Cause Bool :=
  let word := String.ofList (s.toList.map Char.toLower)
  if ["0", "f", "n", "no", "off", "false"].contains word then .ok false
  else if ["1", "t", "y", "on", "yes", "true"].contains word then .ok true
  else .error .unreadableBoolean

def booleanOfInteger (i : Int) : Except Cause Bool :=
  if i = 0 then .ok false
  else if i = 1 then .ok true
  else if -int64Bound ≤ i ∧ i ≤ int64Bound then .error .unreadableBoolean
  else .error .notBoolean

def readBoolean : Option Scalar → Except Cause Bool
  | some (.bool b) => .ok b
  | some (.int i) => booleanOfInteger i
  | some (.float x) =>
    match integerOfFloat x with
    | .ok i => booleanOfInteger i
    | .error _ => .error .notBoolean
  | some (.text s) => (encodable s).bind booleanOfText
  | some (.bytes bs) => (decoded bs .unreadableBoolean).bind booleanOfText
  | _ => .error .notBoolean

def atLeast (minimum : Int) (read : Option Scalar → Except Cause Int) (v : Option Scalar) : Except Cause Int :=
  match read v with
  | .ok i => if i < minimum then .error .belowMinimum else .ok i
  | .error c => .error c

end BehaviorTree.Schema
