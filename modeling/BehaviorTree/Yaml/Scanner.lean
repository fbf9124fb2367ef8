import BehaviorTree.Text.Encoding
import BehaviorTree.Yaml.Scalar

/-!
From characters to tokens. Structure that is told by indentation gets tokens of its own. A key is only known to be one when its
colon is met: until then it is pending, and the tokens that mark it are spliced in before it.
-/

set_option autoImplicit false

namespace BehaviorTree.Yaml

inductive Directive where
  | yaml (major minor : Nat)
  | tag (handle text : String)
  | other
  deriving DecidableEq, Repr

inductive Token where
  | directive (d : Directive)
  | documentStart
  | documentEnd
  | sequenceStart
  | mappingStart
  | blockEnd
  | openList
  | closeList
  | openMap
  | closeMap
  | entry
  | comma
  | key
  | value
  | aliasOf (name : String)
  | anchor (name : String)
  | tag (handle : Option String) (suffix : String)
  | scalar (text : String) (plain : Bool)
  deriving DecidableEq, Repr

structure PendingKey where
  level : Nat
  number : Nat
  index : Nat
  line : Nat
  column : Nat
  /-- Nothing but a key can stand here. -/
  required : Bool
  deriving DecidableEq, Repr

structure Scanner where
  cursor : Cursor
  level : Nat := 0
  /-- The tokens found so far, the newest first. -/
  newest : List Token := []
  count : Nat := 0
  /-- The column of the innermost block; none outside all blocks. -/
  indent : Option Nat := none
  outer : List (Option Nat) := []
  allowKey : Bool := true
  keys : List PendingKey := []

namespace Scanner

def push (s : Scanner) (t : Token) : Scanner := { s with newest := t :: s.newest, count := s.count + 1 }

def splice (s : Scanner) (number : Nat) (t : Token) : Scanner :=
  let after := s.count - number
  { s with newest := s.newest.take after ++ t :: s.newest.drop after, count := s.count + 1 }

def keyReach : Nat := 1024

def dropStale (s : Scanner) : Except Fault Scanner :=
  let stale (k : PendingKey) := k.line ≠ s.cursor.line || keyReach < s.cursor.index - k.index
  if s.keys.any fun k => stale k && k.required then malformed
  else .ok { s with keys := s.keys.filter fun k => !stale k }

def dropKey (s : Scanner) : Except Fault Scanner :=
  if s.keys.any fun k => k.level = s.level && k.required then malformed
  else .ok { s with keys := s.keys.filter fun k => k.level ≠ s.level }

def saveKey (s : Scanner) : Except Fault Scanner :=
  if s.allowKey then do
    let s ← s.dropKey
    let required := s.level = 0 && s.indent = some s.cursor.column
    return { s with keys := ⟨s.level, s.count, s.cursor.index, s.cursor.line, s.cursor.column, required⟩ :: s.keys }
  else .ok s

def deeper (indent : Option Nat) (column : Option Nat) : Bool :=
  match indent, column with
  | some i, some c => c < i
  | some _, none => true
  | none, _ => false

/-- Ends the blocks to the right of a column; all of them when there is no column. -/
def unwind (column : Option Nat) : Nat → Scanner → Scanner
  | 0, s => s
  | fuel + 1, s =>
    if s.level = 0 && deeper s.indent column then
      unwind column fuel { s.push .blockEnd with indent := s.outer.headD none, outer := s.outer.drop 1 }
    else s

def unwindTo (s : Scanner) (column : Option Nat) : Scanner := unwind column (s.outer.length + 1) s

def addIndent (s : Scanner) (column : Nat) : Bool × Scanner :=
  if deeper (some column) s.indent then
    (true, { s with indent := some column, outer := s.indent :: s.outer })
  else (false, s)

def advance (s : Scanner) (n : Nat) : Scanner := { s with cursor := s.cursor.skip n }

/-- Passes over spaces, comments and line breaks; a new line may begin with a key. -/
def skipGaps : Nat → Scanner → Scanner
  | 0, s => s
  | fuel + 1, s =>
    let c := s.cursor.skipComment
    match c.lineBreak with
    | ([], c) => { s with cursor := c }
    | (_, c) => skipGaps fuel { s with cursor := c, allowKey := s.allowKey || s.level = 0 }

def mark (s : Scanner) (t : Token) : Except Fault Scanner := do
  let s ← (s.unwindTo none).dropKey
  return ({ s with allowKey := false }.advance 3).push t

def openBracket (s : Scanner) (t : Token) : Except Fault Scanner := do
  let s ← s.saveKey
  return ({ s with level := s.level + 1, allowKey := true }.advance 1).push t

def closeBracket (s : Scanner) (t : Token) : Except Fault Scanner := do
  let s ← s.dropKey
  if s.level = 0 then malformed else return ({ s with level := s.level - 1, allowKey := false }.advance 1).push t

def comma (s : Scanner) : Except Fault Scanner := do
  let s ← dropKey { s with allowKey := true }
  return (s.advance 1).push .comma

/-- An indicator of a block that begins the block where there is none yet. -/
def beginBlock (s : Scanner) (start : Token) : Except Fault Scanner :=
  if s.level ≠ 0 then .ok s
  else if !s.allowKey then malformed
  else
    match s.addIndent s.cursor.column with
    | (true, s) => .ok (s.push start)
    | (false, s) => .ok s

def entry (s : Scanner) : Except Fault Scanner := do
  let s ← s.beginBlock .sequenceStart
  let s ← dropKey { s with allowKey := true }
  return (s.advance 1).push .entry

def key (s : Scanner) : Except Fault Scanner := do
  let s ← s.beginBlock .mappingStart
  let s ← dropKey { s with allowKey := s.level = 0 }
  return (s.advance 1).push .key

def value (s : Scanner) : Except Fault Scanner :=
  match s.keys.find? fun k => k.level = s.level with
  | some k =>
    let s := { s with keys := s.keys.filter fun k => k.level ≠ s.level }.splice k.number .key
    let s :=
      if s.level ≠ 0 then s
      else
        match s.addIndent k.column with
        | (true, s) => s.splice k.number .mappingStart
        | (false, s) => s
    .ok (({ s with allowKey := false }.advance 1).push .value)
  | none => do
    let s ← s.beginBlock .mappingStart
    let s ← dropKey { s with allowKey := s.level = 0 }
    return (s.advance 1).push .value

def reference (s : Scanner) (token : String → Token) : Except Fault Scanner := do
  let s ← s.saveKey
  let (name, c) := s.cursor.next.span isName
  if name.isEmpty || !(isGap c.peek || ['?', ':', ',', ']', '\x7d', '%', '@', '\x60'].contains c.peek) then malformed
  else return { s with cursor := c, allowKey := false }.push (token (String.ofList name))

def isTagChar (c : Char) : Bool :=
  c.isAlphanum || "-;/?:@&=+$,_.!~*'()[]".toList.contains c

def twoDigits (cs : List Char) : Except Fault Nat :=
  match cs, Quoted.hexNumber? cs with
  | [_, _], some n => .ok n
  | _, _ => malformed

def escapedBytes : Nat → Cursor → Except Fault (List Nat × Cursor)
  | 0, _ => malformed
  | fuel + 1, c =>
    if c.peek = '%' then do
      let byte ← twoDigits ((c.rest.drop 1).take 2)
      let (more, c) ← escapedBytes fuel (c.skip 3)
      return (byte :: more, c)
    else .ok ([], c)

def tagText : Nat → Cursor → Except Fault (List Char × Cursor)
  | 0, _ => malformed
  | fuel + 1, c =>
    let (run, c) := c.span isTagChar
    if c.peek = '%' then do
      let (bytes, c) ← escapedBytes (c.rest.length + 1) c
      let cs ← (Text.utf8Chars 0 0 bytes).mapError fun _ => .malformed
      let (more, c) ← tagText fuel c
      return (run ++ Text.ofChars cs ++ more, c)
    else .ok (run, c)

def tagSuffix (c : Cursor) : Except Fault (String × Cursor) :=
  match tagText (c.rest.length + 1) c with
  | .ok ([], _) => malformed
  | .ok (cs, c) => .ok (String.ofList cs, c)
  | .error e => .error e

def tagHandle (c : Cursor) : Except Fault (String × Cursor) :=
  if c.peek ≠ '!' then malformed
  else
    let (name, after) := c.next.span isName
    if after.peek = '!' then .ok ("!" ++ String.ofList name ++ "!", after.next)
    else if c.ahead 1 = ' ' then .ok ("!", c.next)
    else malformed

def verbatimTag (c : Cursor) : Except Fault (Token × Cursor) := do
  let (suffix, c) ← tagSuffix (c.skip 2)
  if c.peek = '>' then return (.tag none suffix, c.next) else malformed

def hasHandle (c : Cursor) : Bool := (c.rest.drop 1).takeWhile (fun ch => !endsWord ch) |>.contains '!'

def handledTag (c : Cursor) : Except Fault (Token × Cursor) := do
  let (handle, c) ← if hasHandle c then tagHandle c else .ok ("!", c.next)
  let (suffix, c) ← tagSuffix c
  return (.tag (some handle) suffix, c)

def tag (s : Scanner) : Except Fault Scanner := do
  let s ← s.saveKey
  let c := s.cursor
  let (t, c) ←
    if c.ahead 1 = '<' then verbatimTag c
    else if isGap (c.ahead 1) then .ok (.tag none "!", c.next)
    else handledTag c
  if endsWord c.peek then return { s with cursor := c, allowKey := false }.push t else malformed

def number (c : Cursor) : Except Fault (Nat × Cursor) :=
  let (ds, c) := c.span Char.isDigit
  if ds.isEmpty then malformed else .ok (ds.foldl (fun n d => n * 10 + (d.toNat - '0'.toNat)) 0, c)

def version (c : Cursor) : Except Fault (Directive × Cursor) := do
  let (major, c) ← number (c.skipWhile (· = ' '))
  if c.peek ≠ '.' then malformed
  else
    let (minor, c) ← number c.next
    if endsWord c.peek then return (.yaml major minor, c) else malformed

def tagDirective (c : Cursor) : Except Fault (Directive × Cursor) := do
  let (handle, c) ← tagHandle (c.skipWhile (· = ' '))
  if c.peek ≠ ' ' then malformed
  else
    let (text, c) ← tagSuffix (c.skipWhile (· = ' '))
    if endsWord c.peek then return (.tag handle text, c) else malformed

def directive (s : Scanner) : Except Fault Scanner := do
  let s ← (s.unwindTo none).dropKey
  let (name, c) := s.cursor.next.span isName
  if name.isEmpty || !endsWord c.peek then malformed
  else
    let (d, c) ←
      if String.ofList name = "YAML" then version c
      else if String.ofList name = "TAG" then tagDirective c
      else .ok (.other, c.skipWhile fun ch => !endsLine ch)
    let c ← c.finishLine
    return { s with cursor := c, allowKey := false }.push (.directive d)

def blockScalar (s : Scanner) (isFolded : Bool) : Except Fault Scanner := do
  let s ← dropKey { s with allowKey := true }
  let (cs, c) ← Block.scalar isFolded (match s.indent with | some i => i + 1 | none => 0) s.cursor
  return { s with cursor := c }.push (.scalar (String.ofList cs) false)

def quotedScalar (s : Scanner) (double : Bool) : Except Fault Scanner := do
  let s ← s.saveKey
  let (cs, c) ← Quoted.scalar double s.cursor
  return { s with cursor := c, allowKey := false }.push (.scalar (String.ofList cs) false)

def plainScalar (s : Scanner) : Except Fault Scanner := do
  let s ← s.saveKey
  let below := match s.indent with | some i => i + 1 | none => 0
  let (cs, newLine, c) := Plain.scalar (s.level ≠ 0) below s.cursor
  return { s with cursor := c, allowKey := newLine }.push (.scalar (String.ofList cs) true)

def isSpecial (c : Char) : Bool :=
  ['-', '?', ':', ',', '[', ']', '\x7b', '\x7d', '#', '&', '*', '!', '|', '>', '\'', '"', '%', '@', '\x60'].contains c

def beginsPlain (s : Scanner) : Bool :=
  let c := s.cursor.peek
  !(isGap c || isSpecial c) ||
    (!isGap (s.cursor.ahead 1) && (c = '-' || (s.level = 0 && (c = '?' || c = ':'))))

def token (s : Scanner) : Except Fault Scanner :=
  let c := s.cursor
  let flow := s.level ≠ 0
  let spaced := isGap (c.ahead 1)
  if c.peek = '%' && c.column = 0 then s.directive
  else if c.column = 0 && c.atMark then s.mark (if c.peek = '-' then .documentStart else .documentEnd)
  else
    match c.peek with
    | '[' => s.openBracket .openList
    | '\x7b' => s.openBracket .openMap
    | ']' => s.closeBracket .closeList
    | '\x7d' => s.closeBracket .closeMap
    | ',' => s.comma
    | '*' => s.reference .aliasOf
    | '&' => s.reference .anchor
    | '!' => s.tag
    | '\'' => s.quotedScalar false
    | '"' => s.quotedScalar true
    | ch =>
      if ch = '-' && spaced then s.entry
      else if ch = '?' && (flow || spaced) then s.key
      else if ch = ':' && (flow || spaced) then s.value
      else if ch = '|' && !flow then s.blockScalar false
      else if ch = '>' && !flow then s.blockScalar true
      else if s.beginsPlain then s.plainScalar
      else malformed

def run : Nat → Scanner → Except Fault Scanner
  | 0, _ => malformed
  | fuel + 1, s => do
    let s ← (skipGaps (s.cursor.rest.length + 1) s).dropStale
    if s.cursor.rest.isEmpty then (s.unwindTo none).dropKey
    else
      let s ← (s.unwindTo (some s.cursor.column)).token
      run fuel s

end Scanner

def tokens (cs : List Char) : Except Fault (List Token) :=
  if cs.all isAllowed then
    let start : Cursor := { rest := cs }
    let start := if start.peek = '\ufeff' then start.next else start
    (Scanner.run (cs.length + 2) { cursor := start }).map fun s => s.newest.reverse
  else malformed

end BehaviorTree.Yaml
