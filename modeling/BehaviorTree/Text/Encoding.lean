import BehaviorTree.Decimal.Notation
import BehaviorTree.Text.Quoted

/-!
Text from bytes, and bytes from text. A strict reader stops at the first bytes that encode no character and says which they are; a
forgiving one puts the replacement character in their place, and a third one passes the bytes that halves of pairs would have.
-/

set_option autoImplicit false

namespace BehaviorTree.Text

inductive Encoding where
  | utf8
  | utf16 (bigEndian : Bool)
  | utf32 (bigEndian : Bool)
  deriving DecidableEq, Repr

def Encoding.name : Encoding → String
  | .utf8 => "utf-8"
  | .utf16 true => "utf-16-be"
  | .utf16 false => "utf-16-le"
  | .utf32 true => "utf-32-be"
  | .utf32 false => "utf-32-le"

inductive Misfit where
  | startByte
  | continuation
  | endOfData
  | truncated
  | outOfRange
  deriving DecidableEq, Repr

def Misfit.message : Misfit → String
  | .startByte => "invalid start byte"
  | .continuation => "invalid continuation byte"
  | .endOfData => "unexpected end of data"
  | .truncated => "truncated data"
  | .outOfRange => "code point not in range(0x110000)"

/-- The bytes that encode no character: where they start, how many they are, and what the first of them is. -/
structure EncodingFault where
  encoding : Encoding
  misfit : Misfit
  start : Nat
  count : Nat
  byte : Nat
  deriving DecidableEq, Repr

def EncodingFault.message (f : EncodingFault) : String :=
  let at_ (n : Nat) := String.ofList (Decimal.natText n)
  let place :=
    if f.count = 1 then "byte 0x" ++ String.ofList (hexadecimal 2 f.byte) ++ " in position " ++ at_ f.start
    else "bytes in position " ++ at_ f.start ++ "-" ++ at_ (f.start + f.count - 1)
  "'" ++ f.encoding.name ++ "' codec can't decode " ++ place ++ ": " ++ f.misfit.message

/-- The outcome of reading one character: its bytes, or the bytes that are none. -/
inductive Unit8 where
  | char (c : Char) (length : Nat)
  | misfit (m : Misfit) (length : Nat)

def isTail (b : Nat) : Bool := 0x80 ≤ b && b < 0xC0

def fits (first second : Nat) : Bool :=
  isTail second &&
    (if first = 0xE0 then 0xA0 ≤ second
     else if first = 0xED then second < 0xA0
     else if first = 0xF0 then 0x90 ≤ second
     else if first = 0xF4 then second < 0x90
     else true)

def utf8Head (a : Nat) (rest : List Nat) : Unit8 :=
  if a < 0x80 then .char (Char.ofNat a) 1
  else if a < 0xC2 || 0xF5 ≤ a then .misfit .startByte 1
  else
    match rest with
    | [] => .misfit .endOfData 1
    | b :: rest =>
      if !fits a b then .misfit .continuation 1
      else if a < 0xE0 then .char (Char.ofNat ((a - 0xC0) * 64 + (b - 0x80))) 2
      else
        match rest with
        | [] => .misfit .endOfData 2
        | c :: rest =>
          if !isTail c then .misfit .continuation 2
          else if a < 0xF0 then .char (Char.ofNat (((a - 0xE0) * 64 + (b - 0x80)) * 64 + (c - 0x80))) 3
          else
            match rest with
            | [] => .misfit .endOfData 3
            | d :: _ =>
              if !isTail d then .misfit .continuation 3
              else .char (Char.ofNat ((((a - 0xF0) * 64 + (b - 0x80)) * 64 + (c - 0x80)) * 64 + (d - 0x80))) 4

/-- Reads a text in UTF-8 strictly; the first argument counts the bytes that are spoken for. -/
def utf8Chars (skip position : Nat) : List Nat → Except EncodingFault (List Char)
  | [] => .ok []
  | a :: r =>
    match skip with
    | k + 1 => utf8Chars k (position + 1) r
    | 0 =>
      match utf8Head a r with
      | .misfit m n => .error ⟨.utf8, m, position, n, a⟩
      | .char c n => (utf8Chars (n - 1) (position + 1) r).map (c :: ·)

/-- Reads a text in UTF-8, with the replacement character for each run of bytes that encodes none. -/
def utf8Replaced (skip : Nat) : List Nat → List Char
  | [] => []
  | a :: r =>
    match skip with
    | k + 1 => utf8Replaced k r
    | 0 =>
      match utf8Head a r with
      | .misfit _ n => '\ufffd' :: utf8Replaced (n - 1) r
      | .char c n => c :: utf8Replaced (n - 1) r

def halfOf? (a : Nat) : List Nat → Option Nat
  | b :: c :: _ => if a = 0xED && isTail b && 0xA0 ≤ b && isTail c then some (0xD000 + (b - 0x80) * 64 + (c - 0x80)) else none
  | _ => none

def utf8Passed (skip position : Nat) : List Nat → Except EncodingFault (List Char)
  | [] => .ok []
  | a :: r =>
    match skip with
    | k + 1 => utf8Passed k (position + 1) r
    | 0 =>
      match utf8Head a r with
      | .char c n => (utf8Passed (n - 1) (position + 1) r).map (kept c ++ ·)
      | .misfit m n =>
        match halfOf? a r with
        | some h => (utf8Passed 2 (position + 1) r).map (half h :: ·)
        | none => .error ⟨.utf8, m, position, n, a⟩

def unit (bigEndian : Bool) (a b : Nat) : Nat := if bigEndian then a * 256 + b else b * 256 + a

def units16 (bigEndian : Bool) (position : Nat) : List Nat → Except EncodingFault (List Nat)
  | [] => .ok []
  | [a] => .error ⟨.utf16 bigEndian, .truncated, position, 1, a⟩
  | a :: b :: r => (units16 bigEndian (position + 2) r).map (unit bigEndian a b :: ·)

def isHigh (n : Nat) : Bool := 0xD800 ≤ n && n < 0xDC00

def isLow (n : Nat) : Bool := 0xDC00 ≤ n && n < 0xE000

def pairCode (high low : Nat) : Nat := 0x10000 + (high - 0xD800) * 0x400 + (low - 0xDC00)

def pairUnits : List Nat → List Char
  | [] => []
  | [a] => ofCode a
  | a :: b :: r => if isHigh a && isLow b then ofCode (pairCode a b) ++ pairUnits r else ofCode a ++ pairUnits (b :: r)

def utf32Chars (bigEndian : Bool) (position : Nat) : List Nat → Except EncodingFault (List Char)
  | [] => .ok []
  | a :: b :: c :: d :: r =>
    let n := if bigEndian then unit true a b * 65536 + unit true c d else unit false c d * 65536 + unit false a b
    if 0x110000 ≤ n then .error ⟨.utf32 bigEndian, .outOfRange, position, 4, a⟩
    else
      (utf32Chars bigEndian (position + 4) r).map (ofCode n ++ ·)
  | a :: r => .error ⟨.utf32 bigEndian, .truncated, position, r.length + 1, a⟩

def Encoding.chars (e : Encoding) (position : Nat) (bytes : List Nat) : Except EncodingFault (List Char) :=
  match e with
  | .utf8 => utf8Passed 0 position bytes
  | .utf16 bigEndian => (units16 bigEndian position bytes).map pairUnits
  | .utf32 bigEndian => utf32Chars bigEndian position bytes

/-- The encoding of a text that starts with ASCII characters, and how many bytes of it are a mark. -/
def detect : List Nat → Encoding × Nat
  | 0 :: 0 :: 0xFE :: 0xFF :: _ => (.utf32 true, 4)
  | 0xFF :: 0xFE :: 0 :: 0 :: _ => (.utf32 false, 4)
  | 0xFE :: 0xFF :: _ => (.utf16 true, 2)
  | 0xFF :: 0xFE :: _ => (.utf16 false, 2)
  | 0xEF :: 0xBB :: 0xBF :: _ => (.utf8, 3)
  | a :: b :: c :: d :: _ =>
    if a = 0 then (if b = 0 then .utf32 true else .utf16 true, 0)
    else if b = 0 then (if c = 0 && d = 0 then .utf32 false else .utf16 false, 0)
    else (.utf8, 0)
  | [a, b] =>
    if a = 0 then (.utf16 true, 0)
    else if b = 0 then (.utf16 false, 0)
    else (.utf8, 0)
  | _ => (.utf8, 0)

/-- Reads bytes in the encoding they show. Positions count from the start, but in UTF-8 from after the mark. -/
def detectedChars (bytes : List Nat) : Except EncodingFault (List Char) :=
  let (e, mark) := detect bytes
  e.chars (if e = .utf8 then 0 else mark) (bytes.drop mark)

def utf8Bytes (c : Char) : List Nat :=
  let n := c.toNat
  if n < 0x80 then [n]
  else if n < 0x800 then [0xC0 + n / 64, 0x80 + n % 64]
  else if n < 0x10000 then [0xE0 + n / 4096, 0x80 + n / 64 % 64, 0x80 + n % 64]
  else [0xF0 + n / 262144, 0x80 + n / 4096 % 64, 0x80 + n / 64 % 64, 0x80 + n % 64]

def utf8 (cs : List Char) : List Nat := cs.flatMap utf8Bytes

def utf8? (cs : List Char) : Option (List Nat) := (chars? cs).map utf8

/-- What is said of a text with halves that may not be encoded; it names the first of them and those right behind it. -/
def unencodableMessage (isEncodable : Nat → Bool) (cs : List Char) : String :=
  let at_ (n : Nat) := String.ofList (Decimal.natText n)
  let start := ((codes cs).takeWhile isEncodable).length
  let halves := ((codes cs).drop start).takeWhile isSurrogate
  let place :=
    match halves with
    | [n] => "character '\\u" ++ String.ofList (hexadecimal 4 n) ++ "' in position " ++ at_ start
    | _ => "characters in position " ++ at_ start ++ "-" ++ at_ (start + halves.length - 1)
  "'" ++ Encoding.utf8.name ++ "' codec can't encode " ++ place ++ ": surrogates not allowed"

def plainLineEnds : List Char → List Char
  | '\r' :: '\n' :: r => '\n' :: plainLineEnds r
  | '\r' :: r => '\n' :: plainLineEnds r
  | c :: r => c :: plainLineEnds r
  | [] => []

end BehaviorTree.Text
