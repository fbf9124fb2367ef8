import BehaviorTree.Decimal.Integer
import BehaviorTree.Decimal.Rounded
import BehaviorTree.Value.Number
import BehaviorTree.Value.Written

/-!
Message templates. A template is a text with conversions, each of which takes an argument: in order, or by name when the only
argument is an object. The width and the precision of a conversion may be arguments as well.
-/

set_option autoImplicit false

namespace BehaviorTree.Logging

inductive Style where
  | text
  | quoted
  /-- Quoted, and nothing beyond ASCII. -/
  | ascii
  | character
  | decimal
  | hexadecimal
  | octal
  | float (form : Decimal.Form)
  deriving DecidableEq, Repr

/-- A width or a precision: given in the template, or taken from the arguments. -/
inductive Amount where
  | given (n : Nat)
  | taken
  deriving DecidableEq, Repr

structure Conversion where
  style : Style
  upper : Bool := false
  name : Option String := none
  left : Bool := false
  zeros : Bool := false
  /-- With a sign also before numbers that are not negative. -/
  plus : Bool := false
  /-- With a blank in the place of that sign. -/
  blank : Bool := false
  /-- With the mark of the base, or with a point in any case. -/
  marked : Bool := false
  width : Option Amount := none
  precision : Option Amount := none
  deriving DecidableEq, Repr

inductive Piece where
  | literal (c : Char)
  | conversion (c : Conversion)
  deriving DecidableEq, Repr

namespace Template

/-- The text up to the closing parenthesis, of which so many are open, and what follows it. -/
def closed (depth : Nat) : List Char → Option (List Char × List Char)
  | [] => none
  | ')' :: r =>
    match depth with
    | 0 => some ([], r)
    | depth + 1 => (closed depth r).map fun p => (')' :: p.1, p.2)
  | '(' :: r => (closed (depth + 1) r).map fun p => ('(' :: p.1, p.2)
  | c :: r => (closed depth r).map fun p => (c :: p.1, p.2)

def nameOf : List Char → Option (Option String × List Char)
  | '(' :: r => (closed 0 r).map fun p => (some (String.ofList p.1), p.2)
  | cs => some (none, cs)

def flags (c : Conversion) : List Char → Conversion × List Char
  | '-' :: r => flags { c with left := true } r
  | '0' :: r => flags { c with zeros := true } r
  | '+' :: r => flags { c with plus := true } r
  | ' ' :: r => flags { c with blank := true } r
  | '#' :: r => flags { c with marked := true } r
  | cs => (c, cs)

def number (cs : List Char) : Nat × List Char :=
  let ds := cs.takeWhile Char.isDigit
  (ds.foldl (fun n d => n * 10 + (d.toNat - '0'.toNat)) 0, cs.drop ds.length)

def widthOf : List Char → Option Amount × List Char
  | '*' :: r => (some .taken, r)
  | c :: r =>
    if c.isDigit then
      let (n, r) := number (c :: r)
      (some (.given n), r)
    else (none, c :: r)
  | [] => (none, [])

def precisionOf : List Char → Option Amount × List Char
  | '.' :: '*' :: r => (some .taken, r)
  | '.' :: r =>
    let (n, r) := number r
    (some (.given n), r)
  | cs => (none, cs)

def withoutSize : List Char → List Char
  | c :: r => if c = 'h' || c = 'l' || c = 'L' then r else c :: r
  | [] => []

def styleOf? (c : Char) : Option Style :=
  match c.toLower with
  | 'x' => some .hexadecimal
  | 'e' => some (.float .scientific)
  | 'f' => some (.float .fixed)
  | 'g' => some (.float .general)
  | _ =>
    match c with
    | 's' => some .text
    | 'r' => some .quoted
    | 'a' => some .ascii
    | 'c' => some .character
    | 'd' => some .decimal
    | 'i' => some .decimal
    | 'u' => some .decimal
    | 'o' => some .octal
    | _ => none

def conversion (cs : List Char) : Option (Conversion × List Char) := do
  let (name, r) ← nameOf cs
  let (c, r) := flags { style := .text, name := name } r
  let (width, r) := widthOf r
  let (precision, r) := precisionOf r
  match withoutSize r with
  | k :: r => return ({ c with style := ← styleOf? k, upper := k.isUpper, width := width, precision := precision }, r)
  | [] => none

/-- The pieces of a template; the first argument bounds their number. Two percent signs stand for one. -/
def pieces : Nat → List Char → Option (List Piece)
  | 0, _ => none
  | _, [] => some []
  | fuel + 1, '%' :: '%' :: r => (pieces fuel r).map (.literal '%' :: ·)
  | fuel + 1, '%' :: r => do
    let (c, r) ← conversion r
    return .conversion c :: (← pieces fuel r)
  | fuel + 1, c :: r => (pieces fuel r).map (.literal c :: ·)

inductive Supply where
  | row (vs : List Value)
  /-- Arguments by name, and the one that is taken next where no name is given. -/
  | named (ms : Table Value) (next : Option Value)

def Supply.select (s : Supply) (name : Option String) : Option Supply :=
  match name, s with
  | none, s => some s
  | some _, .row _ => none
  | some k, .named ms _ => (Table.lookup ms k).map fun v => .named ms (some v)

def Supply.take : Supply → Option (Value × Supply)
  | .row [] => none
  | .row (v :: r) => some (v, .row r)
  | .named _ none => none
  | .named ms (some v) => some (v, .named ms none)

def Supply.isSpent : Supply → Bool
  | .row vs => vs.isEmpty
  | .named _ _ => true

def Supply.amount (s : Supply) : Option Amount → Option (Option Int × Supply)
  | none => some (none, s)
  | some (.given n) => some (some (Int.ofNat n), s)
  | some .taken =>
    match s.take with
    | some (.int i, s) => some (some i, s)
    | some (.bool b, s) => some (some (if b then 1 else 0), s)
    | _ => none

def widthLimit : Int := 9223372036854775807

def precisionLimit : Int := 2147483647

def digits (base : Nat) : Nat → Nat → List Char
  | 0, _ => []
  | fuel + 1, n => if n < base then [Text.hexDigit n] else digits base fuel (n / base) ++ [Text.hexDigit (n % base)]

def markOf (style : Style) : List Char :=
  match style with
  | .hexadecimal => ['0', 'x']
  | .octal => ['0', 'o']
  | _ => []

def digitsOf (style : Style) (n : Nat) : List Char :=
  match style with
  | .hexadecimal => digits 16 (n + 1) n
  | .octal => digits 8 (n + 1) n
  | _ => Decimal.natText n

def fill (c : Char) (width : Nat) (cs : List Char) : List Char := List.replicate (width - Text.count cs) c ++ cs

structure Field where
  conversion : Conversion
  left : Bool
  width : Nat
  precision : Option Nat

def Field.aligned (f : Field) (cs : List Char) : List Char :=
  if f.left then cs ++ List.replicate (f.width - Text.count cs) ' ' else fill ' ' f.width cs

/-- A number by its parts: sign, mark of the base and digits. Zeros that fill it up come before the digits. -/
def Field.number (f : Field) (negative : Bool) (mark body : List Char) : List Char :=
  let sign := if negative then ['-'] else if f.conversion.plus then ['+'] else if f.conversion.blank then [' '] else []
  let cased (cs : List Char) : List Char := if f.conversion.upper then cs.map Char.toUpper else cs
  let start := sign ++ cased mark
  if f.conversion.zeros && !f.left then start ++ fill '0' (f.width - start.length) (cased body)
  else f.aligned (start ++ cased body)

def Field.integer (f : Field) (i : Int) : List Char :=
  let style := f.conversion.style
  f.number (i < 0) (if f.conversion.marked then markOf style else [])
    (fill '0' (f.precision.getD 0) (digitsOf style i.natAbs))

def usualPrecision : Nat := 6

def Field.float (f : Field) (form : Decimal.Form) (x : Float) : List Char :=
  f.number (!x.isNaN && Decimal.signBit x) []
    (Decimal.magnitudeText form f.conversion.marked (f.precision.getD usualPrecision) x)

def Field.text (f : Field) (s : String) : List Char :=
  f.aligned (match f.precision with
    | some n => ((Text.codes s.toList).take n).flatMap Text.ofCode
    | none => s.toList)

/-- The integer that an argument amounts to; only decimal digits are written of a float. -/
def integerOf? (style : Style) (v : Value) : Option Int :=
  match v.number? with
  | some (.int i) => some i
  | some (.float x) => if style = .decimal then (Decimal.truncateFloat x).toOption else none
  | none => none

def characterOf? (v : Value) : Option (List Char) :=
  match v with
  | .text s => if Text.count s.toList = 1 then some s.toList else none
  | v =>
    match v.number? with
    | some (.int i) => if 0 ≤ i ∧ i < 0x110000 then some (Text.ofCode i.toNat) else none
    | _ => none

def Field.write (f : Field) (v : Value) : Option (List Char) :=
  match f.conversion.style with
  | .text => if v.hasLongInteger then none else some (f.text v.written)
  | .quoted => if v.hasLongInteger then none else some (f.text v.inner)
  | .ascii => if v.hasLongInteger then none else some (f.text (Text.asciiEscaped v.inner))
  | .character => (characterOf? v).map f.aligned
  | .float form => (v.number?.bind fun n => n.toFloat.toOption).map (f.float form)
  | style =>
    match integerOf? style v with
    | some i => if style = .decimal && Decimal.isTooLong i then none else some (f.integer i)
    | none => none

def convert (c : Conversion) (s : Supply) : Option (List Char × Supply) := do
  let s ← s.select c.name
  let (width, s) ← s.amount c.width
  let (precision, s) ← s.amount c.precision
  if widthLimit < (width.getD 0).natAbs || precisionLimit < (precision.getD 0).natAbs then none
  else
    let field : Field :=
      { conversion := c, left := c.left || width.any (· < 0), width := (width.getD 0).natAbs
        precision := precision.map Int.toNat }
    let (v, s) ← s.take
    return (← field.write v, s)

def assemble : List Piece → Supply → Option (List Char)
  | [], s => if s.isSpent then some [] else none
  | .literal c :: r, s => (assemble r s).map (c :: ·)
  | .conversion c :: r, s => do
    let (cs, s) ← convert c s
    return cs ++ (← assemble r s)

/-- A template with its arguments filled in; without arguments it stands for itself. None when they do not fit. -/
def filled (template : String) (arguments : List Value) : Option String :=
  let supply : Supply :=
    match arguments with
    | [.object (m :: ms)] => .named (m :: ms) (some (.object (m :: ms)))
    | vs => .row vs
  match arguments with
  | [] => some template
  | _ => ((pieces (template.length + 1) template.toList).bind fun ps => assemble ps supply).map String.ofList

end Template

end BehaviorTree.Logging
