import BehaviorTree.Value.Written

/-!
JSON text. Only quotes, backslashes and control characters are escaped. A value is written on one line, or with every element
on a line of its own, indented by two spaces per level. JSON has no bytes; they are written as the text that shows them.
-/

set_option autoImplicit false

namespace BehaviorTree.Json

def escapedChar (c : Char) : List Char :=
  if c = '"' then ['\\', '"']
  else if c = '\\' then ['\\', '\\']
  else if c = '\n' then ['\\', 'n']
  else if c = '\r' then ['\\', 'r']
  else if c = '\t' then ['\\', 't']
  else if c.toNat = 0x08 then ['\\', 'b']
  else if c.toNat = 0x0C then ['\\', 'f']
  else if c.toNat < 0x20 then '\\' :: 'u' :: Text.hexadecimal 4 c.toNat
  else [c]

def escaped (cs : List Char) : List Char := cs.flatMap escapedChar

def textLiteral (s : String) : List Char := '"' :: (escaped s.toList ++ ['"'])

def floatLiteral (x : Float) : List Char := Decimal.floatText "NaN".toList "Infinity".toList x

def boolLiteral (b : Bool) : List Char := if b then "true".toList else "false".toList

def joined (separator : List Char) : List (List Char) → List Char
  | [] => []
  | [p] => p
  | p :: r => p ++ separator ++ joined separator r

mutual

def line : Value → List Char
  | .null => "null".toList
  | .bool b => boolLiteral b
  | .int i => Decimal.intText i
  | .float x => floatLiteral x
  | .text s => textLiteral s
  | .bytes bs => textLiteral (Text.quotedBytes bs)
  | .list vs => '[' :: (joined [',', ' '] (lineElements vs) ++ [']'])
  | .object ms => '{' :: (joined [',', ' '] (lineMembers ms) ++ ['}'])

def lineElements : List Value → List (List Char)
  | [] => []
  | v :: r => line v :: lineElements r

def lineMembers : List (String × Value) → List (List Char)
  | [] => []
  | (k, v) :: r => (textLiteral k ++ ':' :: ' ' :: line v) :: lineMembers r

end

def newline (depth : Nat) : List Char := '\n' :: List.replicate (2 * depth) ' '

def block (open_ close : Char) (depth : Nat) (elements : List (List Char)) : List Char :=
  if elements.isEmpty then [open_, close]
  else open_ :: (newline (depth + 1) ++ joined (',' :: newline (depth + 1)) elements ++ newline depth ++ [close])

mutual

def indented (depth : Nat) : Value → List Char
  | .list vs => block '[' ']' depth (indentedElements (depth + 1) vs)
  | .object ms => block '{' '}' depth (indentedMembers (depth + 1) ms)
  | .null => "null".toList
  | .bool b => boolLiteral b
  | .int i => Decimal.intText i
  | .float x => floatLiteral x
  | .text s => textLiteral s
  | .bytes bs => textLiteral (Text.quotedBytes bs)

def indentedElements (depth : Nat) : List Value → List (List Char)
  | [] => []
  | v :: r => indented depth v :: indentedElements depth r

def indentedMembers (depth : Nat) : List (String × Value) → List (List Char)
  | [] => []
  | (k, v) :: r => (textLiteral k ++ ':' :: ' ' :: indented depth v) :: indentedMembers depth r

end

def compact (v : Value) : String := String.ofList (line v)

def pretty (v : Value) : String := String.ofList (indented 0 v)

end BehaviorTree.Json
