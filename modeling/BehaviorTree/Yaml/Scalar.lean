import BehaviorTree.Json.Reader
import BehaviorTree.Yaml.Cursor

/-!
Scalars of configuration texts: plain, in quotes, and in blocks of lines. A line break inside a plain or quoted scalar reads as
a space, and several as one less.
-/

set_option autoImplicit false

namespace BehaviorTree.Yaml

namespace Quoted

def breaks : Nat → Cursor → Except Fault (List Char × Cursor)
  | 0, _ => malformed
  | fuel + 1, c =>
    if c.atMark then malformed
    else
      let c := c.skipWhile isBlank
      if isBreak c.peek then
        let (b, c) := c.lineBreak
        (breaks fuel c).map fun r => (b ++ r.1, r.2)
      else .ok ([], c)

def folded (first following : List Char) : List Char :=
  (if first ≠ ['\n'] then first else if following.isEmpty then [' '] else []) ++ following

def spaces (c : Cursor) : Except Fault (List Char × Cursor) :=
  let (blanks, c) := c.span isBlank
  if c.rest.isEmpty then malformed
  else if isBreak c.peek then
    let (b, c) := c.lineBreak
    (breaks (c.rest.length + 1) c).map fun r => (folded b r.1, r.2)
  else .ok (blanks, c)

def replacement? : Char → Option Char
  | '0' => some '\x00'
  | 'a' => some '\x07'
  | 'b' => some '\x08'
  | 't' => some '\t'
  | '\t' => some '\t'
  | 'n' => some '\n'
  | 'v' => some '\x0b'
  | 'f' => some '\x0c'
  | 'r' => some '\r'
  | 'e' => some '\x1b'
  | ' ' => some ' '
  | '"' => some '"'
  | '\\' => some '\\'
  | '/' => some '/'
  | 'N' => some '\x85'
  | '_' => some '\xa0'
  | 'L' => some '\u2028'
  | 'P' => some '\u2029'
  | _ => none

def codeLength? : Char → Option Nat
  | 'x' => some 2
  | 'u' => some 4
  | 'U' => some 8
  | _ => none

def hexNumber? (cs : List Char) : Option Nat := cs.foldlM (fun n c => (Json.hexValue? c).map fun d => n * 16 + d) 0

def textOfCode (code : Nat) : Except Fault (List Char) :=
  if code < 0x110000 then .ok (Text.ofCode code) else .error (if code < Nat.pow 2 31 then .noSuchCharacter else .codeTooLarge)

def escape (c : Cursor) : Except Fault (List Char × Cursor) :=
  match replacement? c.peek, codeLength? c.peek with
  | some ch, _ => .ok ([ch], c.next)
  | none, some n =>
    match hexNumber? ((c.rest.drop 1).take n), (c.rest.drop 1).take n with
    | some code, digits => if digits.length = n then (textOfCode code).map fun cs => (cs, c.skip (n + 1)) else malformed
    | none, _ => malformed
  | none, none => if isBreak c.peek then breaks (c.rest.length + 1) c.lineBreak.2 else malformed

def isOrdinary (c : Char) : Bool := !(c = '\'' || c = '"' || c = '\\' || isGap c)

/-- What stands in quotes up to a blank, a line break or the closing quote. -/
def word (double : Bool) : Nat → Cursor → Except Fault (List Char × Cursor)
  | 0, _ => malformed
  | fuel + 1, c =>
    let (run, c) := c.span isOrdinary
    let more (cs : List Char) (c : Cursor) := (word double fuel c).map fun r => (run ++ cs ++ r.1, r.2)
    if !double && c.peek = '\'' && c.ahead 1 = '\'' then more ['\''] (c.skip 2)
    else if double && c.peek = '\'' || !double && (c.peek = '"' || c.peek = '\\') then more [c.peek] c.next
    else if double && c.peek = '\\' then
      match escape c.next with
      | .error e => .error e
      | .ok (cs, c) => more cs c
    else .ok (run, c)

def words (double : Bool) (quote : Char) : Nat → Cursor → Except Fault (List Char × Cursor)
  | 0, _ => malformed
  | fuel + 1, c =>
    if c.peek = quote then .ok ([], c.next)
    else do
      let (gap, c) ← spaces c
      let (cs, c) ← word double (c.rest.length + 1) c
      let (more, c) ← words double quote fuel c
      return (gap ++ cs ++ more, c)

def scalar (double : Bool) (c : Cursor) : Except Fault (List Char × Cursor) := do
  let quote := c.peek
  let (cs, c) ← word double (c.rest.length + 1) c.next
  let (more, c) ← words double quote (c.rest.length + 1) c
  return (cs ++ more, c)

end Quoted

namespace Plain

def isIndicator (c : Char) : Bool := [',', '?', '[', ']', '\x7b', '\x7d'].contains c

def joins (flow : Bool) (c : Char) : Bool := !isGap c && !(flow && isIndicator c && c ≠ '?')

def run (flow : Bool) : List Char → List Char
  | [] => []
  | c :: r =>
    if isGap c || c = ':' && !joins flow (r.headD '\x00') || flow && isIndicator c then [] else c :: run flow r

/-- Line breaks and spaces between lines; false when a mark of a document follows. -/
def breaks : Nat → Cursor → List Char × Bool × Cursor
  | 0, c => ([], true, c)
  | fuel + 1, c =>
    if c.peek = ' ' then breaks fuel c.next
    else if isBreak c.peek then
      let (b, c) := c.lineBreak
      if c.atMark then ([], false, c)
      else
        let (more, goesOn, c) := breaks fuel c
        (b ++ more, goesOn, c)
    else ([], true, c)

/-- What stands between two runs of a plain scalar, whether a line ended, and where the scalar may go on. Nothing stands there
when the scalar is over. -/
def spaces (c : Cursor) : List Char × Bool × Cursor :=
  let (blanks, c) := c.span (· = ' ')
  if isBreak c.peek then
    let (b, c) := c.lineBreak
    if c.atMark then ([], true, c)
    else
      let (more, goesOn, c) := breaks (c.rest.length + 1) c
      if goesOn then (Quoted.folded b more, true, c) else ([], true, c)
  else (blanks, false, c)

/-- The runs of a plain scalar from here on, after the spaces before them. -/
def runs (flow : Bool) (indent : Nat) : Nat → List Char → Bool → Cursor → List Char × Bool × Cursor
  | 0, _, newLine, c => ([], newLine, c)
  | fuel + 1, before, newLine, c =>
    let cs := run flow c.rest
    if c.peek = '#' || cs.isEmpty then ([], newLine, c)
    else
      let (gap, newLine, c) := spaces (c.skip cs.length)
      if gap.isEmpty || c.peek = '#' || (!flow && c.column < indent) then (before ++ cs, newLine, c)
      else
        let (more, newLine, c) := runs flow indent fuel gap newLine c
        (before ++ cs ++ more, newLine, c)

def scalar (flow : Bool) (indent : Nat) (c : Cursor) : List Char × Bool × Cursor :=
  runs flow indent (c.rest.length + 1) [] false c

end Plain

namespace Block

/-- The head of a block: whether trailing breaks are kept or dropped, and how far it is indented. -/
structure Head where
  keep : Option Bool := none
  indent : Option Nat := none

def chomping? (c : Char) : Option Bool := if c = '+' then some true else if c = '-' then some false else none

def digit? (c : Char) : Option Nat := if c.isDigit then some (c.toNat - '0'.toNat) else none

def head (c : Cursor) : Head × Cursor :=
  match chomping? c.peek, digit? c.peek with
  | some keep, _ =>
    match digit? c.next.peek with
    | some n => (⟨some keep, some n⟩, c.skip 2)
    | none => (⟨some keep, none⟩, c.next)
  | none, some n =>
    match chomping? c.next.peek with
    | some keep => (⟨some keep, some n⟩, c.skip 2)
    | none => (⟨none, some n⟩, c.next)
  | none, none => ({}, c)

/-- The empty lines before the first line with text, and how far anything is indented up to there. -/
def leading : Nat → Nat → Cursor → List Char × Nat × Cursor
  | 0, deepest, c => ([], deepest, c)
  | fuel + 1, deepest, c =>
    if c.peek = ' ' then leading fuel (max deepest c.next.column) c.next
    else if isBreak c.peek then
      let (b, c) := c.lineBreak
      let (more, deepest, c) := leading fuel deepest c
      (b ++ more, deepest, c)
    else ([], deepest, c)

def skipIndent (indent : Nat) : Nat → Cursor → Cursor
  | 0, c => c
  | fuel + 1, c => if c.column < indent && c.peek = ' ' then skipIndent indent fuel c.next else c

def breaks (indent : Nat) : Nat → Cursor → List Char × Cursor
  | 0, c => ([], c)
  | fuel + 1, c =>
    let c := skipIndent indent (indent + 1) c
    if isBreak c.peek then
      let (b, c) := c.lineBreak
      let (more, c) := breaks indent fuel c
      (b ++ more, c)
    else ([], c)

/-- A block after its text: the last line break, the empty lines after it, and where it ends. -/
structure Tail where
  text : List Char
  lineBreak : List Char
  empty : List Char
  cursor : Cursor

def lines (isFolded : Bool) (indent : Nat) : Nat → List Char → Cursor → Tail
  | 0, empty, c => ⟨[], [], empty, c⟩
  | fuel + 1, empty, c =>
    if c.column ≠ indent || c.rest.isEmpty then ⟨[], [], empty, c⟩
    else
      let isText := !isBlank c.peek
      let (line, c) := c.span fun ch => !endsLine ch
      let (b, c) := c.lineBreak
      let (after, c) := breaks indent (c.rest.length + 1) c
      if c.column = indent && !c.rest.isEmpty then
        let joint :=
          if isFolded && b = ['\n'] && isText && !isBlank c.peek then (if after.isEmpty then [' '] else []) else b
        let t := lines isFolded indent fuel after c
        { t with text := empty ++ line ++ joint ++ t.text }
      else ⟨empty ++ line, b, after, c⟩

def scalar (isFolded : Bool) (below : Nat) (c : Cursor) : Except Fault (List Char × Cursor) :=
  let (h, c) := head c.next
  if h.indent = some 0 || !endsWord c.peek then malformed
  else do
    let c ← c.finishLine
    let minimum := max below 1
    let fuel := c.rest.length + 1
    let (indent, empty, c) :=
      match h.indent with
      | some n =>
        let indent := minimum + n - 1
        (indent, breaks indent fuel c)
      | none =>
        let (empty, deepest, c) := leading fuel 0 c
        (max minimum deepest, empty, c)
    let t := lines isFolded indent fuel empty c
    let kept := if h.keep = some false then [] else t.lineBreak
    let trailing := if h.keep = some true then t.empty else []
    return (t.text ++ kept ++ trailing, t.cursor)

end Block

end BehaviorTree.Yaml
