import BehaviorTree.Decimal.Shortest

/-!
How numbers are written. Integers have plain digits. A float has its shortest digits, positionally while the exponent of the
leading digit lies between -4 and 15 and with a point, otherwise with a signed exponent of at least two digits.
-/

set_option autoImplicit false

namespace BehaviorTree.Decimal

def natText (n : Nat) : List Char := Nat.toDigits 10 n

def intText (i : Int) : List Char :=
  if i < 0 then '-' :: natText i.natAbs else natText i.natAbs

def Dec.leading (d : Dec) : Int := d.exp + digitCount d.digits - 1

def exponentText (e : Int) : List Char :=
  'e' :: (if e < 0 then '-' else '+') :: (if e.natAbs < 10 then '0' :: natText e.natAbs else natText e.natAbs)

def Dec.text (d : Dec) : List Char :=
  let ds := natText d.digits
  let e := d.leading
  if -4 ≤ e ∧ e < 16 then
    if 0 ≤ d.exp then ds ++ List.replicate d.exp.toNat '0' ++ ['.', '0']
    else if 0 ≤ e then ds.take (e.toNat + 1) ++ '.' :: ds.drop (e.toNat + 1)
    else '0' :: '.' :: (List.replicate (-e - 1).toNat '0' ++ ds)
  else
    match ds with
    | [a] => a :: exponentText e
    | a :: r => a :: '.' :: (r ++ exponentText e)
    | [] => exponentText e

def signBit (x : Float) : Bool := x.toBits >>> 63 == 1

/-- The text of a float; the three values that are no numbers have names of their own. -/
def floatText (nan infinity : List Char) (x : Float) : List Char :=
  if x.isNaN then nan
  else if x.isInf then if signBit x then '-' :: infinity else infinity
  else
    let b := Binary.ofBits x.toBits
    let body := if b.m = 0 then ['0', '.', '0'] else b.shortest.text
    if signBit x then '-' :: body else body

end BehaviorTree.Decimal
