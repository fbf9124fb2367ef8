import BehaviorTree.Decimal.Shortest
import BehaviorTree.Text.Digit

/-!
Reading and rounding numbers: the float nearest to a decimal or to a quotient, the integer nearest to a float. A half goes
to the even neighbour.
-/

set_option autoImplicit false

namespace BehaviorTree.Decimal

/-- The float nearest to `±m * 10^e`. Exponents far outside the range of floats are settled without the power. -/
def nearest (negative : Bool) (m : Nat) (e : Int) : Float :=
  let lead : Int := e + digitCount m
  let magnitude :=
    if m = 0 then 0.0
    else if 400 < lead then Float.ofScientific 1 false 400
    else if lead < -400 then 0.0
    else Float.ofScientific m (e < 0) e.natAbs
  if negative then -magnitude else magnitude

def ofInt? (i : Int) : Option Float :=
  let x := nearest (i < 0) i.natAbs 0
  if x.isInf then none else some x

/-- The float nearest to a quotient of integers; `none` when it is too large. The quotient is first taken to 64 binary places
beyond those a float has, with a last bit that is set when the division leaves a rest. -/
def ofQuotient? (num : Int) (den : Nat) : Option Float :=
  let n := num.natAbs
  let shift : Int := 120 + Nat.log2 den - Nat.log2 n
  let up := n * Nat.pow 2 shift.toNat
  let down := den * Nat.pow 2 (-shift).toNat
  let mantissa := 2 * (up / down) + (if up % down = 0 then 0 else 1)
  let x := (Float.ofScientific mantissa false 0).scaleB (-(shift + 1))
  let x := if n = 0 then 0.0 else x
  if x.isInf then none else some (if num < 0 then -x else x)

/-- The nearest integer to `num / den`, a half going to the even neighbour. -/
def roundQuotient (num den : Nat) : Nat :=
  let q := num / den
  match compare (2 * (num % den)) den with
  | .lt => q
  | .gt => q + 1
  | .eq => if q % 2 = 0 then q else q + 1

/-- A number that is none, or one without a nearest integer. -/
inductive Unbounded where
  | nan
  | infinite
  deriving DecidableEq, Repr

def withSign (negative : Bool) (n : Nat) : Int := if negative then -(n : Int) else n

def roundFloat (x : Float) : Except Unbounded Int :=
  if x.isNaN then .error .nan
  else if x.isInf then .error .infinite
  else
    let b := Binary.ofBits x.toBits
    .ok (withSign (x < 0) (roundQuotient (b.m * Nat.pow 2 b.q.toNat) (Nat.pow 2 (-b.q).toNat)))

def truncateFloat (x : Float) : Except Unbounded Int :=
  if x.isNaN then .error .nan
  else if x.isInf then .error .infinite
  else
    let b := Binary.ofBits x.toBits
    .ok (withSign (x < 0) (b.m * Nat.pow 2 b.q.toNat / Nat.pow 2 (-b.q).toNat))

/-- Has the float no fraction? Infinities and NaN have none to speak of and do not count. -/
def isWhole (x : Float) : Bool :=
  !x.isNaN && !x.isInf &&
    (let b := Binary.ofBits x.toBits
     b.m * Nat.pow 2 b.q.toNat % Nat.pow 2 (-b.q).toNat == 0)

def compareInt (x : Float) (i : Int) : Ordering :=
  if x.isInf then if x < 0 then .lt else .gt
  else
    let b := Binary.ofBits x.toBits
    compare (withSign (x < 0) (b.m * Nat.pow 2 b.q.toNat)) (i * ((Nat.pow 2 (-b.q).toNat : Nat) : Int))

/-- A decimal numeral split into its parts: digits before and after the point, and an exponent. -/
structure Numeral where
  whole : List Nat
  fraction : List Nat
  exponent : Int

def Numeral.value (negative : Bool) (n : Numeral) : Float :=
  nearest negative (Text.digitsValue (n.whole ++ n.fraction)) (n.exponent - n.fraction.length)

def spanDigits (value? : Char → Option Nat) : List Char → List Nat × List Char
  | [] => ([], [])
  | c :: r =>
    match value? c with
    | some d => (d :: (spanDigits value? r).1, (spanDigits value? r).2)
    | none => ([], c :: r)

def spanSign : List Char → Bool × List Char
  | '-' :: r => (true, r)
  | '+' :: r => (false, r)
  | r => (false, r)

/-- An exponent that ends the text: nothing at all, or a mark, a sign and digits. -/
def exponent? (value? : Char → Option Nat) : List Char → Option Int
  | [] => some 0
  | c :: r =>
    if c = 'e' || c = 'E' then
      let (negative, r) := spanSign r
      match spanDigits value? r with
      | ([], _) => none
      | (ds, []) => some (withSign negative (Text.digitsValue ds))
      | _ => none
    else none

/-- A decimal numeral without sign: digits, a point with digits on one side of it at least, an exponent. -/
def numeral? (value? : Char → Option Nat) (cs : List Char) : Option Numeral :=
  let (whole, r) := spanDigits value? cs
  let (fraction, r) := match r with
    | '.' :: r => spanDigits value? r
    | r => ([], r)
  if whole.isEmpty && fraction.isEmpty then none
  else (exponent? value? r).map (⟨whole, fraction, ·⟩)

/-- A float in words or in digits, with an optional sign and nothing around it. -/
def float? (value? : Char → Option Nat) (cs : List Char) : Option Float :=
  let (negative, r) := spanSign cs
  let word := String.ofList (r.map Char.toLower)
  if word = "inf" || word = "infinity" then some (if negative then -(1.0 / 0.0) else 1.0 / 0.0)
  else if word = "nan" then some (0.0 / 0.0)
  else (numeral? value? r).map (Numeral.value negative)

end BehaviorTree.Decimal
