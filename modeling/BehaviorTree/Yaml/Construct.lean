import BehaviorTree.Text.Case
import BehaviorTree.Value.Number
import BehaviorTree.Yaml.Data
import BehaviorTree.Yaml.Parser

/-!
From nodes to data. Each tag has its reader; a mapping may be merged into another; keys that come twice keep their first place
and their last value. Collections are filled level by level: of several faults the one at the shallowest level shows, and on one
level the first.
-/

set_option autoImplicit false

namespace BehaviorTree.Yaml

/-- A fault, and how many levels below the present node it lies. -/
structure Trouble where
  depth : Nat
  fault : Fault
  deriving DecidableEq, Repr

abbrev Made (α : Type) := Except Trouble α

namespace Made

variable {α β : Type}

def fail (fault : Fault) : Made α := .error ⟨0, fault⟩

def ofReading (a : Except Fault α) : Made α := a.mapError (⟨0, ·⟩)

def below (a : Made α) : Made α := a.mapError fun t => { t with depth := t.depth + 1 }

/-- Makes both things; if neither can be made, the shallower fault shows. -/
def both (a : Made α) (b : Made β) : Made (α × β) :=
  match a, b with
  | .ok x, .ok y => .ok (x, y)
  | .error s, .error t => .error (if t.depth < s.depth then t else s)
  | .error s, .ok _ => .error s
  | .ok _, .error t => .error t

def all : List (Made α) → Made (List α)
  | [] => .ok []
  | a :: r => (both a (all r)).map fun p => p.1 :: p.2

end Made

namespace Construct

def sign : List Char → Bool × List Char
  | '-' :: r => (true, r)
  | '+' :: r => (false, r)
  | cs => (false, cs)

def inBase (base : Nat) (cs : List Char) : Except Fault Int :=
  (Decimal.readInteger base (String.ofList cs)).mapError .unreadableInteger

def sixties (ns : List Int) : Int := ns.foldl (fun n d => n * 60 + d) 0

def integer (s : String) : Except Fault Int :=
  let cs := s.toList.filter (· ≠ '_')
  if cs.isEmpty then .error .noDigits
  else
    let (negative, r) := sign cs
    let signed (n : Int) : Int := if negative then -n else n
    match r with
    | ['0'] => .ok 0
    | '0' :: 'b' :: ds => (inBase 2 ds).map signed
    | '0' :: 'x' :: ds => (inBase 16 ds).map signed
    | '0' :: ds => (inBase 8 ('0' :: ds)).map signed
    | [] => .error .noDigits
    | r =>
      if r.contains ':' then ((Text.split ':' r).mapM (inBase 10)).map fun ns => signed (sixties ns)
      else (inBase 10 r).map signed

def floatPart (cs : List Char) : Except Fault Float :=
  match Value.floatOfText? (String.ofList cs) with
  | some x => .ok x
  | none => .error (.unreadableFloat (String.ofList cs))

/-- The sum of parts to the base sixty, the least first. A power of sixty may be too large for a float. -/
def floatSixties (power : Int) (sum : Float) : List Float → Except Fault Float
  | [] => .ok sum
  | x :: r =>
    match Decimal.ofInt? power with
    | some p => floatSixties (power * 60) (sum + x * p) r
    | none => .error .floatTooLarge

def float (s : String) : Except Fault Float :=
  let cs := (Text.lower (String.ofList (s.toList.filter (· ≠ '_')))).toList
  if cs.isEmpty then .error .noDigits
  else
    let (negative, r) := sign cs
    let signed (x : Float) : Float := if negative then -1.0 * x else 1.0 * x
    if r = ".inf".toList then .ok (signed (1.0 / 0.0))
    else if r = ".nan".toList then .ok (0.0 / 0.0)
    else if r.contains ':' then do
      return signed (← floatSixties 1 0.0 (← (Text.split ':' r).mapM floatPart).reverse)
    else (floatPart r).map signed

def boolean (s : String) : Except Fault Bool :=
  let word := Text.lower s
  if ["yes", "true", "on"].contains word then .ok true
  else if ["no", "false", "off"].contains word then .ok false
  else .error (.unknownWord word)

def moment (s : String) : Except Fault Moment :=
  match Moment.ofChars? s.toList with
  | none => .error .noTime
  | some m =>
    match m.problem? with
    | some message => .error (.noSuchTime message)
    | none => .ok m

def sextet? (c : Char) : Option Nat :=
  let n := c.toNat
  if c.isUpper then some (n - 65)
  else if c.isLower then some (n - 71)
  else if c.isDigit then some (n + 4)
  else if c = '+' then some 62
  else if c = '/' then some 63
  else none

/-- Bytes from digits to the base sixty-four; characters that are no digits are passed over. The arguments are how many digits
of the group are read, how many signs of padding, and what the group amounts to so far. -/
def bytes (digits padding group : Nat) : List Char → Option (List Nat)
  | [] => if digits = 0 then some [] else none
  | c :: r =>
    if c = '=' then
      if 2 ≤ digits && 4 ≤ digits + padding + 1 then some []
      else bytes digits (if 2 ≤ digits then padding + 1 else padding) group r
    else
      match sextet? c with
      | none => bytes digits padding group r
      | some d =>
        if digits = 0 then bytes 1 0 d r
        else if digits = 1 then (bytes 2 0 (d % 16) r).map ((group * 4 + d / 16) :: ·)
        else if digits = 2 then (bytes 3 0 (d % 4) r).map ((group * 16 + d / 4) :: ·)
        else (bytes 0 0 0 r).map ((group * 64 + d) :: ·)

def binary (s : String) : Except Fault (List Nat) :=
  match if s.toList.all fun c => c.toNat < 128 then bytes 0 0 0 s.toList else none with
  | some bs => .ok bs
  | none => malformed

def isCollection : Tag → Bool
  | .pairs => true
  | .set => true
  | .seq => true
  | .map => true
  | _ => false

/-- What a node of the wrong kind for its tag comes to: collections are looked into on the next level only. -/
def misfit {α : Type} (tag : Tag) : Made α := if isCollection tag then Made.below (.fail .malformed) else .fail .malformed

def reading (tag : Tag) (s : String) : Made Data :=
  match tag with
  | .null => .ok .null
  | .bool => .ofReading ((boolean s).map .bool)
  | .int => .ofReading ((integer s).map .int)
  | .float => .ofReading ((float s).map .float)
  | .binary => .ofReading ((binary s).map .bytes)
  | .timestamp => .ofReading ((moment s).map .moment)
  | .str => .ok (.text s)
  | tag => misfit tag

mutual

/-- The text of a node where a scalar is called for: a mapping has the one under the sign for a default value. -/
def scalarText : Node → Option String
  | .scalar _ s => some s
  | .map _ rs => defaultText rs
  | _ => none

def defaultText : List (Node × Node) → Option String
  | [] => none
  | (k, v) :: r => if k.tag = .value then scalarText v else defaultText r

end

def scalarOfRows (tag : Tag) (rs : List (Node × Node)) : Made Data :=
  match defaultText rs with
  | none => misfit tag
  | some s => if tag = .timestamp then .fail .timeNotText else reading tag s

def isKey : Data → Bool
  | .list _ => false
  | .set _ => false
  | .map _ => false
  | .again => false
  | _ => true

def numeric? : Data → Option Number
  | .int i => some (.int i)
  | .float x => some (.float x)
  | .bool b => some (.int (if b then 1 else 0))
  | _ => none

/-- The same key: numbers are compared by what they amount to, and what is no number is one key. -/
def sameKey : Data → Data → Bool
  | .null, .null => true
  | .text a, .text b => a = b
  | .bytes a, .bytes b => a = b
  | .moment a, .moment b => a.same b
  | a, b =>
    match numeric? a, numeric? b with
    | some m, some n => m.isNaN == n.isNaN && !m.lt n && !n.lt m
    | _, _ => false

def insert (k v : Data) : List (Data × Data) → List (Data × Data)
  | [] => [(k, v)]
  | (j, u) :: r => if sameKey j k then (j, v) :: r else (j, u) :: insert k v r

def distinct (rows : List (Data × Data)) : List (Data × Data) := rows.foldl (fun t r => insert r.1 r.2 t) []

/-- A key that is made; it must be one that can be a key. A collection never is, whatever is wrong within. -/
def asKey (key : Made Data) : Made Data :=
  match key with
  | .ok d => if isKey d then .ok d else .fail .malformed
  | .error t => if t.depth = 0 then .error t else .fail .malformed

/-- The rows of a mapping as they are made: those that are merged into it, and its own. -/
structure Rows where
  merged : List (Made (Data × Data)) := []
  own : List (Made (Data × Data)) := []

def Rows.toList (rs : Rows) : List (Made (Data × Data)) := rs.merged ++ rs.own

/-- The rows of a mapping by their keys. A merge that is none is found before anything else. -/
def Rows.made (rs : Option Rows) : Made (List (Data × Data)) :=
  match rs with
  | some rs => Made.below ((Made.all rs.toList).map distinct)
  | none => Made.below (.fail .malformed)

mutual

def data : Node → Made Data
  | .scalar tag s => reading tag s
  | .list .seq ns => (Made.below (items ns)).map .list
  | .list .pairs ns => (Made.below (pairs ns)).map .list
  | .list tag _ => misfit tag
  | .map .map rs => (Rows.made (rows rs)).map .map
  | .map .set rs => (Rows.made (rows rs)).map fun ts => .set (ts.map Prod.fst)
  | .map tag rs => scalarOfRows tag rs
  | .within _ => .ok .again

def items : List Node → Made (List Data)
  | [] => .ok []
  | n :: r => (Made.both (data n) (items r)).map fun p => p.1 :: p.2

def pairs : List Node → Made (List Data)
  | [] => .ok []
  | n :: r => (Made.both (pair n) (pairs r)).map fun p => p.1 :: p.2

def pair : Node → Made Data
  | .map _ [(k, v)] => (Made.both (data k) (data v)).map fun p => .list [p.1, p.2]
  | _ => .fail .malformed

/-- The rows of a mapping; none when something is merged into it that has no rows. -/
def rows : List (Node × Node) → Option Rows
  | [] => some {}
  | (k, v) :: r =>
    if k.tag = .merge then
      match mergeable v, rows r with
      | some above, some rs => some { rs with merged := above ++ rs.merged }
      | _, _ => none
    else
      let row := Made.both (asKey (keyData k)) (data v)
      (rows r).map fun rs => { rs with own := row :: rs.own }

def keyData : Node → Made Data
  | .scalar .value s => .ok (.text s)
  | n => data n

/-- The rows that a value brings where it is merged: those of a mapping, or of several, of which the first counts most. -/
def mergeable : Node → Option (List (Made (Data × Data)))
  | .map _ rs => (rows rs).map Rows.toList
  | .list _ ns => mergeableAll ns
  | .scalar _ _ => none
  | .within _ => some []

def mergeableAll : List Node → Option (List (Made (Data × Data)))
  | [] => some []
  | n :: r =>
    match mergeableOne n, mergeableAll r with
    | some above, some rest => some (rest ++ above)
    | _, _ => none

def mergeableOne : Node → Option (List (Made (Data × Data)))
  | .map _ rs => (rows rs).map Rows.toList
  | .within _ => some []
  | _ => none

end

end Construct

def load (s : String) : Except Fault Data :=
  match tokens s.toList with
  | .error e => .error e
  | .ok ts =>
    match Parser.document ts with
    | none => malformed
    | some none => .ok .null
    | some (some n) => (Construct.data n).mapError Trouble.fault

end BehaviorTree.Yaml
