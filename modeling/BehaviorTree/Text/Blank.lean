/-!
Blank characters. A character is blank when it has the white-space property; a text is trimmed by dropping blanks at
both ends. Separators (U+001C to U+001F) are not blank, but some readers skip them as well.
-/

set_option autoImplicit false

namespace BehaviorTree.Text

def inRanges (ranges : List (Nat × Nat)) (n : Nat) : Bool :=
  ranges.any fun r => r.1 ≤ n && n ≤ r.2

def blankRanges : List (Nat × Nat) :=
  [(0x09, 0x0D), (0x20, 0x20), (0x85, 0x85), (0xA0, 0xA0), (0x1680, 0x1680), (0x2000, 0x200A),
   (0x2028, 0x2029), (0x202F, 0x202F), (0x205F, 0x205F), (0x3000, 0x3000)]

def isBlank (c : Char) : Bool := inRanges blankRanges c.toNat

def isSpacing (c : Char) : Bool := isBlank c || (0x1C ≤ c.toNat && c.toNat ≤ 0x1F)

def trimBy (skip : Char → Bool) (cs : List Char) : List Char :=
  ((cs.dropWhile skip).reverse.dropWhile skip).reverse

def trim (s : String) : String := String.ofList (trimBy isBlank s.toList)

def trimSpacing (s : String) : String := String.ofList (trimBy isSpacing s.toList)

end BehaviorTree.Text
