/-!
Shortest decimals. A finite binary64 value stands for the interval of reals that round to it; its shortest decimal is the
one with the fewest digits in that interval, and of those the nearest. All comparisons are exact, in natural numbers.
-/

set_option autoImplicit false

namespace BehaviorTree.Decimal

/-- A finite non-negative binary64 value `m * 2^q`. -/
structure Binary where
  m : Nat
  q : Int
  /-- The value below is half as far away as the value above. -/
  narrowBelow : Bool
  deriving DecidableEq, Repr

def Binary.ofBits (b : UInt64) : Binary :=
  let e := ((b >>> 52) &&& 0x7FF).toNat
  let f := (b &&& 0xFFFFFFFFFFFFF).toNat
  if e == 0 then ⟨f, -1074, false⟩ else ⟨Nat.pow 2 52 + f, (e : Int) - 1075, f == 0 && e > 1⟩

structure Dec where
  digits : Nat
  exp : Int
  deriving DecidableEq, Repr

def cmpScaled (a : Nat) (i : Int) (n : Nat) (j : Int) : Ordering :=
  compare (a * Nat.pow 10 i.toNat * Nat.pow 2 (-j).toNat) (n * Nat.pow 2 j.toNat * Nat.pow 10 (-i).toNat)

/-- Does the decimal lie in the interval of the value? The ends belong to it exactly when `m` is even. -/
def Binary.readsBack (x : Binary) (d : Dec) : Bool :=
  let below := cmpScaled d.digits d.exp (if x.narrowBelow then 4 * x.m - 1 else 4 * x.m - 2) (x.q - 2)
  let above := cmpScaled d.digits d.exp (4 * x.m + 2) (x.q - 2)
  let ends := x.m % 2 == 0
  (below == .gt || (ends && below == .eq)) && (above == .lt || (ends && above == .eq))

def Binary.gridFloor (x : Binary) (i : Int) : Nat :=
  (x.m * Nat.pow 2 x.q.toNat * Nat.pow 10 (-i).toNat) / (Nat.pow 2 (-x.q).toNat * Nat.pow 10 i.toNat)

def digitCount (n : Nat) : Nat := (Nat.toDigits 10 n).length

/-- The least `k` with `m * 2^q < 10^k`, counted on the grid of units or, below one, on a grid finer than any value. -/
def Binary.scale (x : Binary) : Int :=
  let whole := x.gridFloor 0
  if whole = 0 then (digitCount (x.gridFloor (-350)) : Int) - 350 else digitCount whole

/-- Of the two neighbours of the value on the grid `10^i` that read back, the nearer; a tie goes to the even one. -/
def Binary.onGrid? (x : Binary) (i : Int) : Option Dec :=
  let lo : Dec := ⟨x.gridFloor i, i⟩
  let hi : Dec := ⟨x.gridFloor i + 1, i⟩
  match x.readsBack lo, x.readsBack hi with
  | true, false => some lo
  | false, true => some hi
  | false, false => none
  | true, true =>
    match cmpScaled (2 * lo.digits + 1) i x.m (x.q + 1) with
    | .gt => some lo
    | .lt => some hi
    | .eq => some (if lo.digits % 2 = 0 then lo else hi)

def Binary.exact (x : Binary) : Dec :=
  ⟨x.m * Nat.pow 2 x.q.toNat * Nat.pow 5 (-x.q).toNat, -((-x.q).toNat : Int)⟩

def Dec.strip (d : Dec) : Dec :=
  go d.digits d
where
  go : Nat → Dec → Dec
    | 0, d => d
    | fuel + 1, d =>
      if d.digits ≠ 0 ∧ d.digits % 10 = 0 then go fuel ⟨d.digits / 10, d.exp + 1⟩ else d

/-- The shortest decimal of a positive value: the coarsest grid with a neighbour that reads back. -/
def Binary.shortest (x : Binary) : Dec :=
  (((List.range 17).findSome? fun n : Nat => x.onGrid? (x.scale - (n + 1 : Nat))).getD x.exact).strip

end BehaviorTree.Decimal
