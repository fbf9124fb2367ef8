import BehaviorTree.Value.Written
import BehaviorTree.Decimal.Integer
import BehaviorTree.Text.Encoding

/-!
Reading JSON text. The reader stops at the first fault and says where it is. Beyond the standard it knows the words `NaN`,
`Infinity` and `-Infinity`. A repeated member keeps its first place and its last value.
Nesting has no bound here.
-/

set_option autoImplicit false

namespace BehaviorTree.Json

inductive Cause where
  | value
  | name
  | colon
  | comma
  | openText
  | control
  | escape
  | unicodeEscape
  | extra
  | byteOrderMark
  deriving DecidableEq, Repr

inductive Fault where
  | at (cause : Cause) (position : Nat)
  | tooManyDigits (count : Nat)
  deriving DecidableEq, Repr

def Cause.message : Cause → String
  | .value => "Expecting value"
  | .name => "Expecting property name enclosed in double quotes"
  | .colon => "Expecting ':' delimiter"
  | .comma => "Expecting ',' delimiter"
  | .openText => "Unterminated string starting at"
  | .control => "Invalid control character at"
  | .escape => "Invalid \\escape"
  | .unicodeEscape => "Invalid \\uXXXX escape"
  | .extra => "Extra data"
  | .byteOrderMark => "Unexpected UTF-8 BOM (decode using utf-8-sig)"

/-- The text of a fault; a position is given as line, column and character. -/
def Fault.message (source : List Char) : Fault → String
  | .at cause position =>
    let before := source.take position
    let row := before.count '\n' + 1
    let column := Text.count (before.reverse.takeWhile (· ≠ '\n')) + 1
    cause.message ++ ": line " ++ Value.intText row ++ " column " ++ Value.intText column
      ++ " (char " ++ Value.intText (Text.count before) ++ ")"
  | .tooManyDigits count => Decimal.tooManyDigitsMessage count

/-- What was read, the position after it, and the characters from there on. -/
abbrev Step (α : Type) := Except Fault (α × Nat × List Char)

def isSpace (c : Char) : Bool := c = ' ' || c = '\t' || c = '\n' || c = '\r'

def skipSpace (position : Nat) : List Char → Nat × List Char
  | [] => (position, [])
  | c :: r => if isSpace c then skipSpace (position + 1) r else (position, c :: r)

def hexValue? (c : Char) : Option Nat :=
  if c.isDigit then some (c.toNat - 48)
  else if 'a' ≤ c && c ≤ 'f' then some (c.toNat - 87)
  else if 'A' ≤ c && c ≤ 'F' then some (c.toNat - 55)
  else none

def hexUnit? (a b c d : Char) : Option Nat := do
  let a ← hexValue? a
  let b ← hexValue? b
  let c ← hexValue? c
  let d ← hexValue? d
  return ((a * 16 + b) * 16 + c) * 16 + d

def simpleEscape? : Char → Option Char
  | '"' => some '"'
  | '\\' => some '\\'
  | '/' => some '/'
  | 'b' => some '\x08'
  | 'f' => some '\x0c'
  | 'n' => some '\n'
  | 'r' => some '\r'
  | 't' => some '\t'
  | _ => none

def Step.prepend (ds : List Char) : Step (List Char) → Step (List Char)
  | .ok (cs, p, r) => .ok (ds ++ cs, p, r)
  | .error f => .error f

/-- Reads text up to its closing quote; `start` is the position of the opening one. -/
def readText (start position : Nat) : List Char → Step (List Char)
  | [] => .error (.at .openText start)
  | '"' :: r => .ok ([], position + 1, r)
  | ['\\'] => .error (.at .openText start)
  | '\\' :: 'u' :: a :: b :: c :: d :: '\\' :: 'u' :: e :: f :: g :: h :: last :: r =>
    match hexUnit? a b c d with
    | none => .error (.at .unicodeEscape (position + 1))
    | some high =>
      if Text.isHigh high then
        match hexUnit? e f g h with
        | none => .error (.at .unicodeEscape (position + 7))
        | some low =>
          if Text.isLow low then .prepend (Text.ofCode (Text.pairCode high low)) (readText start (position + 12) (last :: r))
          else .prepend (Text.ofCode high) (readText start (position + 6) ('\\' :: 'u' :: e :: f :: g :: h :: last :: r))
      else .prepend (Text.ofCode high) (readText start (position + 6) ('\\' :: 'u' :: e :: f :: g :: h :: last :: r))
  | '\\' :: 'u' :: a :: b :: c :: d :: last :: r =>
    match hexUnit? a b c d with
    | none => .error (.at .unicodeEscape (position + 1))
    | some n => .prepend (Text.ofCode n) (readText start (position + 6) (last :: r))
  | '\\' :: 'u' :: _ => .error (.at .unicodeEscape (position + 1))
  | '\\' :: c :: r =>
    match simpleEscape? c with
    | none => .error (.at .escape position)
    | some c => .prepend [c] (readText start (position + 2) r)
  | c :: r =>
    if c.toNat < 0x20 then .error (.at .control position)
    else .prepend [c] (readText start (position + 1) r)

def fraction? (cs : List Char) : Option (List Nat × List Char) :=
  match cs with
  | '.' :: r =>
    match Decimal.spanDigits Text.asciiDigit? r with
    | ([], _) => none
    | found => some found
  | _ => none

def exponent? (cs : List Char) : Option (Int × List Char) :=
  match cs with
  | c :: r =>
    if c = 'e' || c = 'E' then
      let (negative, r) := Decimal.spanSign r
      match Decimal.spanDigits Text.asciiDigit? r with
      | ([], _) => none
      | (ds, r) => some (Decimal.withSign negative (Text.digitsValue ds), r)
    else none
  | [] => none

/-- The digits before the point: a zero alone, or digits that do not start with one. -/
def wholeDigits? (cs : List Char) : Option (List Nat × List Char) :=
  match cs with
  | '0' :: r => some ([0], r)
  | r =>
    match Decimal.spanDigits Text.asciiDigit? r with
    | ([], _) => none
    | found => some found

def readNumber (position : Nat) (cs : List Char) : Step Value :=
  let (negative, body) := match cs with
    | '-' :: r => (true, r)
    | r => (false, r)
  match wholeDigits? body with
  | none => .error (.at .value position)
  | some (whole, r) =>
    let (fraction, afterFraction) := (fraction? r).getD ([], r)
    let (exponent, rest) := (exponent? afterFraction).getD (0, afterFraction)
    let after := position + (cs.length - rest.length)
    if afterFraction.length = r.length && rest.length = r.length then
      if Decimal.digitLimit < whole.length then .error (.tooManyDigits whole.length)
      else .ok (.int (Decimal.withSign negative (Text.digitsValue whole)), after, rest)
    else .ok (.float (Decimal.Numeral.value negative ⟨whole, fraction, exponent⟩), after, rest)

def afterWord? (word cs : List Char) : Option (List Char) :=
  if word.isPrefixOf cs then some (cs.drop word.length) else none

def words : List (List Char × Value) :=
  [("null".toList, .null), ("true".toList, .bool true), ("false".toList, .bool false), ("NaN".toList, .float (0.0 / 0.0)),
   ("Infinity".toList, .float (1.0 / 0.0)), ("-Infinity".toList, .float (-1.0 / 0.0))]

def readPlain (position : Nat) (cs : List Char) : Step Value :=
  match words.findSome? fun w => (afterWord? w.1 cs).map fun r => (w.2, position + w.1.length, r) with
  | some found => .ok found
  | none => readNumber position cs

mutual

/-- Reads a value. The fuel bounds the nesting; the length of the text is enough. -/
def readValue : Nat → Nat → List Char → Step Value
  | 0, position, _ => .error (.at .value position)
  | fuel + 1, position, cs =>
    match cs with
    | [] => .error (.at .value position)
    | '"' :: r =>
      match readText position (position + 1) r with
      | .ok (s, p, r) => .ok (.text (String.ofList s), p, r)
      | .error f => .error f
    | '{' :: r =>
      match skipSpace (position + 1) r with
      | (p, '}' :: r) => .ok (.object [], p + 1, r)
      | (p, r) =>
        match readMembers fuel p r with
        | .ok (ms, p, r) => .ok (.object (Table.ofRows ms), p, r)
        | .error f => .error f
    | '[' :: r =>
      match skipSpace (position + 1) r with
      | (p, ']' :: r) => .ok (.list [], p + 1, r)
      | (p, r) =>
        match readElements fuel p r with
        | .ok (vs, p, r) => .ok (.list vs, p, r)
        | .error f => .error f
    | cs => readPlain position cs

def readElements : Nat → Nat → List Char → Step (List Value)
  | 0, position, _ => .error (.at .value position)
  | fuel + 1, position, cs =>
    match readValue fuel position cs with
    | .error f => .error f
    | .ok (v, p, r) =>
      match skipSpace p r with
      | (p, ']' :: r) => .ok ([v], p + 1, r)
      | (p, ',' :: r) =>
        let (p, r) := skipSpace (p + 1) r
        match readElements fuel p r with
        | .ok (vs, p, r) => .ok (v :: vs, p, r)
        | .error f => .error f
      | (p, _) => .error (.at .comma p)

def readMembers : Nat → Nat → List Char → Step (List (String × Value))
  | 0, position, _ => .error (.at .name position)
  | fuel + 1, position, cs =>
    match cs with
    | '"' :: r =>
      match readText position (position + 1) r with
      | .error f => .error f
      | .ok (k, p, r) =>
        match skipSpace p r with
        | (p, ':' :: r) =>
          let (p, r) := skipSpace (p + 1) r
          match readValue fuel p r with
          | .error f => .error f
          | .ok (v, p, r) =>
            match skipSpace p r with
            | (p, '}' :: r) => .ok ([(String.ofList k, v)], p + 1, r)
            | (p, ',' :: r) =>
              let (p, r) := skipSpace (p + 1) r
              match readMembers fuel p r with
              | .ok (ms, p, r) => .ok ((String.ofList k, v) :: ms, p, r)
              | .error f => .error f
            | (p, _) => .error (.at .comma p)
        | (p, _) => .error (.at .colon p)
    | _ => .error (.at .name position)

end

def parseChars (cs : List Char) : Except Fault Value :=
  let (p, r) := skipSpace 0 cs
  match readValue (2 * cs.length + 2) p r with
  | .error f => .error f
  | .ok (v, p, r) =>
    match skipSpace p r with
    | (_, []) => .ok v
    | (p, _) => .error (.at .extra p)

def parse (cs : List Char) : Except Fault Value :=
  if cs.head? = some '\ufeff' then .error (.at .byteOrderMark 0) else parseChars cs

end BehaviorTree.Json
