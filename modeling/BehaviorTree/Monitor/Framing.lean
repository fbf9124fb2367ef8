import BehaviorTree.Text.Encoding

/-!
The framing of an event stream. Lines that start with "data:" carry parts of a payload, a blank line ends it, and all other
lines are passed over.
-/

set_option autoImplicit false

namespace BehaviorTree

namespace Framing

inductive Line where
  | nothing
  | text (s : String)
  | bytes (bs : List Nat)

def Line.chars? : Line → Option (List Char)
  | .nothing => none
  | .text s => some s.toList
  | .bytes bs => some (Text.ofChars (Text.utf8Replaced 0 bs))

def trimReturns (cs : List Char) : List Char := (cs.reverse.dropWhile (· = '\r')).reverse

inductive Field where
  | blank
  | data (cs : List Char)
  | other

def afterColon (cs : List Char) : List Char := cs.dropWhile (· = ' ')

def field (cs : List Char) : Field :=
  match trimReturns cs with
  | [] => .blank
  | 'd' :: 'a' :: 't' :: 'a' :: ':' :: r => .data (afterColon r)
  | _ => .other

def joined (parts : List (List Char)) : List Char := ['\n'].intercalate parts

/-- Feeds one line to the parts received so far: a payload that is complete, and the parts that remain. -/
def feed (parts : List (List Char)) (line : Line) : Option (List Char) × List (List Char) :=
  match line.chars? with
  | none => (none, parts)
  | some cs =>
    match field cs with
    | .blank => if parts.isEmpty then (none, []) else (some (joined parts), [])
    | .data d => (none, parts ++ [d])
    | .other => (none, parts)

def flush (parts : List (List Char)) : Option (List Char) := if parts.isEmpty then none else some (joined parts)

def payloads (parts : List (List Char)) : List Line → List (List Char)
  | [] => (flush parts).toList
  | l :: r =>
    match feed parts l with
    | (some p, rest) => p :: payloads rest r
    | (none, rest) => payloads rest r

end Framing

end BehaviorTree
