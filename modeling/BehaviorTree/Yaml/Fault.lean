import BehaviorTree.Decimal.Integer

/-!
What can be wrong with a configuration text. Most of it breaks the rules of the language; a few readings fail in ways of their
own.
-/

set_option autoImplicit false

namespace BehaviorTree.Yaml

inductive Fault where
  | malformed
  | noSuchCharacter
  /-- An escape with a number beyond the range of integers for characters. -/
  | codeTooLarge
  | unreadableInteger (fault : Decimal.IntegerFault)
  | unreadableFloat (text : String)
  | noDigits
  /-- A part of a number to the base sixty that is too large for a float. -/
  | floatTooLarge
  | unknownWord (text : String)
  | noTime
  | timeNotText
  | noSuchTime (message : String)
  deriving DecidableEq, Repr

def Fault.message : Fault → String
  | .malformed => "YAML parse error"
  | .noSuchCharacter => "chr() arg not in range(0x110000)"
  | .codeTooLarge => "signed integer is greater than maximum"
  | .unreadableInteger fault => fault.message
  | .unreadableFloat text => "could not convert string to float: " ++ Text.quoted text
  | .noDigits => "string index out of range"
  | .floatTooLarge => "int too large to convert to float"
  | .unknownWord text => text
  | .noTime => "no point in time"
  | .timeNotText => "expected string or bytes-like object"
  | .noSuchTime message => message

/-- Is the fault one of the text? The others come from values that have no meaning at all. -/
def Fault.isOfText : Fault → Bool
  | .codeTooLarge => false
  | .noDigits => false
  | .floatTooLarge => false
  | .unknownWord _ => false
  | .noTime => false
  | .timeNotText => false
  | _ => true

def malformed {α : Type} : Except Fault α := .error .malformed

end BehaviorTree.Yaml
