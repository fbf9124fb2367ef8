/-!
Text with lone halves of surrogate pairs. An escape can write such a half, though it is no character and no encoding has bytes for
it. The halves are kept as the last private characters; what these are themselves is kept as a mark and a second character, so that
different texts stay different.
-/

set_option autoImplicit false

namespace BehaviorTree.Text

def isSurrogate (n : Nat) : Bool := 0xD800 ≤ n && n < 0xE000

def firstHalf : Nat := 0x10F800

def half (n : Nat) : Char := Char.ofNat (firstHalf + (n - 0xD800))

def isHalf (c : Char) : Bool := firstHalf ≤ c.toNat

def markCode : Nat := firstHalf - 1

def mark : Char := Char.ofNat markCode

/-- How far the second character is below the one that it and the mark stand for. -/
def shift : Nat := 0x801

def kept (c : Char) : List Char := if c.toNat < markCode then [c] else [mark, Char.ofNat (c.toNat - shift)]

def ofChars (cs : List Char) : List Char := cs.flatMap kept

def ofCode (n : Nat) : List Char := if isSurrogate n then [half n] else kept (Char.ofNat n)

def isSecond (c : Char) : Bool := markCode ≤ c.toNat + shift && c.toNat + shift < 0x110000

def chars? : List Char → Option (List Char)
  | [] => some []
  | c :: r =>
    if c.toNat < markCode then (chars? r).map (c :: ·)
    else
      match r with
      | d :: r => if c = mark && isSecond d then (chars? r).map (Char.ofNat (d.toNat + shift) :: ·) else none
      | [] => none

def codes : List Char → List Nat
  | [] => []
  | c :: r =>
    if c.toNat < markCode then c.toNat :: codes r
    else if isHalf c then (c.toNat - firstHalf + 0xD800) :: codes r
    else
      match r with
      | d :: r => (d.toNat + shift) :: codes r
      | [] => [c.toNat]

/-- How many code points there are; a mark counts with what comes behind it. -/
def count (cs : List Char) : Nat := cs.countP (· ≠ mark)

end BehaviorTree.Text
