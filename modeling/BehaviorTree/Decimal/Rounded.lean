import BehaviorTree.Decimal.Notation
import BehaviorTree.Decimal.Reading

/-!
Floats written with a given number of digits: so many after the point, so many significant ones, or whichever of the two is
shorter. The exact value is rounded, a half going to the even neighbour.
-/

set_option autoImplicit false

namespace BehaviorTree.Decimal

/-- The multiple of `10^place` nearest to a decimal, counted in that unit. -/
def Dec.roundedAt (d : Dec) (place : Int) : Nat :=
  if place ≤ d.exp then d.digits * Nat.pow 10 (d.exp - place).toNat
  else roundQuotient d.digits (Nat.pow 10 (place - d.exp).toNat)

/-- A decimal as digits of a given number and the exponent of the first of them; zero has the exponent zero. -/
def Dec.significant (d : Dec) (count : Nat) : List Char × Int :=
  if d.digits = 0 then (List.replicate count '0', 0)
  else
    let e := d.leading
    let ds := natText (d.roundedAt (e - count + 1))
    if count < ds.length then (ds.take count, e + 1) else (ds, e)

/-- A point between digits. It is left out where nothing follows, unless it is to stay. -/
def pointed (stays : Bool) (whole fraction : List Char) : List Char :=
  if fraction.isEmpty && !stays then whole else whole ++ '.' :: fraction

def Dec.fixed (d : Dec) (stays : Bool) (count : Nat) : List Char :=
  let ds := natText (d.roundedAt (-count))
  let ds := List.replicate (count + 1 - ds.length) '0' ++ ds
  pointed stays (ds.take (ds.length - count)) (ds.drop (ds.length - count))

def Dec.scientific (d : Dec) (stays : Bool) (count : Nat) : List Char :=
  let (ds, e) := d.significant (count + 1)
  pointed stays (ds.take 1) (ds.drop 1) ++ exponentText e

def withoutTrailingZeros (ds : List Char) : List Char := (ds.reverse.dropWhile (· = '0')).reverse

/-- So many significant digits, positionally or with an exponent; zeros at the end are left out unless they are to stay. -/
def Dec.general (d : Dec) (stays : Bool) (count : Nat) : List Char :=
  let count := max count 1
  let (ds, e) := d.significant count
  let tail (ds : List Char) : List Char := if stays then ds else withoutTrailingZeros ds
  if e < -4 ∨ (count : Int) ≤ e then pointed stays (ds.take 1) (tail (ds.drop 1)) ++ exponentText e
  else if 0 ≤ e then pointed stays (ds.take (e.toNat + 1)) (tail (ds.drop (e.toNat + 1)))
  else pointed stays ['0'] (List.replicate (-e - 1).toNat '0' ++ tail ds)

inductive Form where
  | fixed
  | scientific
  | general
  deriving DecidableEq, Repr

def magnitudeText (form : Form) (stays : Bool) (count : Nat) (x : Float) : List Char :=
  if x.isNaN then "nan".toList
  else if x.isInf then "inf".toList
  else
    let d := (Binary.ofBits x.toBits).exact
    match form with
    | .fixed => d.fixed stays count
    | .scientific => d.scientific stays count
    | .general => d.general stays count

end BehaviorTree.Decimal
