import BehaviorTree.Text.Half
import BehaviorTree.Text.Printable

/-!
Quoted text. A text stands between single quotes, or between double quotes when it holds a single quote and no double one.
The quote in use, the backslash and every character that is not printable are escaped.
-/

set_option autoImplicit false

namespace BehaviorTree.Text

def hexDigit (n : Nat) : Char :=
  if n < 10 then Char.ofNat (48 + n) else Char.ofNat (87 + n)

def hexadecimal (width n : Nat) : List Char :=
  (List.range width).reverse.map fun i => hexDigit (n / Nat.pow 16 i % 16)

def quotedChar (quote c : Char) : List Char :=
  if c = quote || c = '\\' then ['\\', c]
  else if c = '\n' then ['\\', 'n']
  else if c = '\r' then ['\\', 'r']
  else if c = '\t' then ['\\', 't']
  else if isPrintable c then [c]
  else if c.toNat < 0x100 then '\\' :: 'x' :: hexadecimal 2 c.toNat
  else if c.toNat < 0x10000 then '\\' :: 'u' :: hexadecimal 4 c.toNat
  else '\\' :: 'U' :: hexadecimal 8 c.toNat

def quoteOf (cs : List Char) : Char :=
  if cs.contains '\'' && !cs.contains '"' then '"' else '\''

def quotedCode (quote : Char) (n : Nat) : List Char :=
  if isSurrogate n then '\\' :: 'u' :: hexadecimal 4 n else quotedChar quote (Char.ofNat n)

def quotedChars (cs : List Char) : List Char :=
  quoteOf cs :: ((codes cs).flatMap (quotedCode (quoteOf cs)) ++ [quoteOf cs])

def quoted (s : String) : String := String.ofList (quotedChars s.toList)

def asciiEscaped (s : String) : String :=
  let escaped (n : Nat) : List Char :=
    if n < 0x80 then [Char.ofNat n]
    else if n < 0x100 then '\\' :: 'x' :: hexadecimal 2 n
    else if n < 0x10000 then '\\' :: 'u' :: hexadecimal 4 n
    else '\\' :: 'U' :: hexadecimal 8 n
  String.ofList ((codes s.toList).flatMap escaped)

def quotedByte (quote : Char) (b : Nat) : List Char :=
  if b < 0x80 then quotedChar quote (Char.ofNat b) else '\\' :: 'x' :: hexadecimal 2 b

def quotedBytes (bs : List Nat) : String :=
  let quote := quoteOf (bs.map Char.ofNat)
  String.ofList ('b' :: quote :: (bs.flatMap (quotedByte quote) ++ [quote]))

def quotedList (ss : List String) : String :=
  "[" ++ ", ".intercalate (ss.map quoted) ++ "]"

end BehaviorTree.Text
