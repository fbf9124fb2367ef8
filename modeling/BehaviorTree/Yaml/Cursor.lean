import BehaviorTree.Yaml.Fault

/-!
Reading a configuration text character by character. The cursor knows its line and its column, by which structure is told. The
end of the text reads as the character zero, which the text itself cannot hold.
-/

set_option autoImplicit false

namespace BehaviorTree.Yaml

def isBreak (c : Char) : Bool := c = '\n' || c = '\r' || c = '\x85' || c = '\u2028' || c = '\u2029'

def isBlank (c : Char) : Bool := c = ' ' || c = '\t'

def endsLine (c : Char) : Bool := c = '\x00' || isBreak c

def endsWord (c : Char) : Bool := endsLine c || c = ' '

def isGap (c : Char) : Bool := endsLine c || isBlank c

def withoutBreak (cs : List Char) : List Char :=
  match cs.getLast? with
  | some '\n' => cs.dropLast
  | _ => cs

def isName (c : Char) : Bool := c.isAlphanum || c = '-' || c = '_'

def isAllowed (c : Char) : Bool :=
  let n := c.toNat
  c = '\t' || c = '\n' || c = '\r' || (0x20 ≤ n && n ≤ 0x7E) || n = 0x85 || (0xA0 ≤ n && n ≤ 0xFFFD)
    || (0x10000 ≤ n && !Text.isHalf c)

structure Cursor where
  rest : List Char
  index : Nat := 0
  line : Nat := 0
  column : Nat := 0

namespace Cursor

def peek (c : Cursor) : Char := c.rest.headD '\x00'

def ahead (c : Cursor) (n : Nat) : Char := c.rest.getD n '\x00'

def next (c : Cursor) : Cursor :=
  match c.rest with
  | [] => c
  | ch :: r =>
    if isBreak ch && !(ch = '\r' && r.head? = some '\n') then ⟨r, c.index + 1, c.line + 1, 0⟩
    else ⟨r, c.index + 1, c.line, if ch = '\ufeff' then c.column else c.column + 1⟩

def skip (c : Cursor) : Nat → Cursor
  | 0 => c
  | n + 1 => skip c.next n

def span (p : Char → Bool) (c : Cursor) : List Char × Cursor :=
  let cs := c.rest.takeWhile p
  (cs, c.skip cs.length)

def skipWhile (p : Char → Bool) (c : Cursor) : Cursor := (c.span p).2

/-- A line break, which reads as a line feed unless it is one of the separators beyond ASCII; nothing if there is none. -/
def lineBreak (c : Cursor) : List Char × Cursor :=
  if c.peek = '\r' && c.ahead 1 = '\n' then (['\n'], c.skip 2)
  else if c.peek = '\u2028' || c.peek = '\u2029' then ([c.peek], c.next)
  else if isBreak c.peek then (['\n'], c.next)
  else ([], c)

def atMark (c : Cursor) : Bool :=
  (c.rest.take 3 = ['-', '-', '-'] || c.rest.take 3 = ['.', '.', '.']) && isGap (c.ahead 3)

def skipComment (c : Cursor) : Cursor :=
  let c := c.skipWhile (· = ' ')
  if c.peek = '#' then c.skipWhile fun ch => !endsLine ch else c

def finishLine (c : Cursor) : Except Fault Cursor :=
  let c := c.skipComment
  if endsLine c.peek then .ok c.lineBreak.2 else malformed

end Cursor

end BehaviorTree.Yaml
