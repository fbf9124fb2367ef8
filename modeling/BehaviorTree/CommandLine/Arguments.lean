import BehaviorTree.CommandLine.Program
import BehaviorTree.Decimal.Integer

/-!
Reading arguments. Words are taken from left to right, and the first thing that is wrong ends the reading. Asking for help ends
it as well. What no one takes is only reported once everything else is in order.
-/

set_option autoImplicit false

namespace BehaviorTree.CommandLine

/-- The reading ended early: help was asked for, or something is wrong. -/
inductive Stop where
  | help (p : Program)
  | wrong (p : Program) (c : Complaint)
  deriving DecidableEq, Repr

/-- The settings with their values, where they have one. A double dash that is joined to an option is no value. -/
abbrev Settings := List (Setting × Option String)

structure Arguments where
  settings : Settings := []
  operand : Option String := none
  remaining : List String := []
  unrecognized : List String := []
  deriving DecidableEq, Repr

abbrev Occurrence := Switch × Option String

/-- What one word means: options, and whether the next word is a value of theirs. -/
structure Meaning where
  occurrences : List Occurrence
  usesNext : Bool := false

def Meaning.cons (e : Occurrence) (m : Meaning) : Meaning := { m with occurrences := e :: m.occurrences }

/-- An option without a value joined to it takes the next word if it needs one. -/
def single (next : Option String) (o : Switch) : Except Complaint Meaning :=
  if o.takesValue then
    match next with
    | some value => .ok { occurrences := [(o, some value)], usesNext := true }
    | none => .error (.valueExpected o)
  else .ok { occurrences := [(o, none)] }

def joinedValue (cs : List Char) : Option String := if String.ofList cs = doubleDash then none else some (String.ofList cs)

/-- An option with text joined to it. After an option of one letter without a value the text is a row of further options. -/
def joinedTo (p : Program) (next : Option String) (isShort : Bool) (o : Switch) : List Char → Except Complaint Meaning
  | [] => if o.takesValue then .ok { occurrences := [(o, some "")] } else .error (.valueIgnored o "")
  | c :: r =>
    if o.takesValue then .ok { occurrences := [(o, joinedValue (c :: r))] }
    else
      match if isShort then p.option? (String.ofList ['-', c]) else none, r with
      | none, r => .error (.valueIgnored o (String.ofList (c :: r)))
      | some further, [] => (single next further).map (.cons (o, none))
      | some further, r => (joinedTo p next true further r).map (.cons (o, none))

def isShortName (name : String) : Bool := name.toList[1]? ≠ some '-'

def meaning (p : Program) (next : Option String) (o : Switch) (name : String) :
    Option (List Char) → Except Complaint Meaning
  | none => single next o
  | some joined => joinedTo p next (isShortName name) o joined

def integerOf? (s : String) : Option Int := (Decimal.readInteger 10 s).toOption

def settle (p : Program) (e : Occurrence) : Except Stop (Setting × Option String) :=
  match e.1.setting, e.2 with
  | .help, _ => .error (.help p)
  | .socket, some value =>
    if (integerOf? value).isSome then .ok (.socket, some value) else .error (.wrong p (.notInteger e.1 value))
  | setting, value => .ok (setting, value)

def complain {α : Type} (p : Program) (r : Except Complaint α) : Except Stop α := r.mapError (.wrong p)

def Arguments.add (p : Program) (a : Arguments) (m : Meaning) : Except Stop Arguments := do
  let settings ← m.occurrences.mapM (settle p)
  return { a with settings := a.settings ++ settings }

def readRoles (p : Program) (a : Arguments) : List (String × Role) → Except Stop Arguments
  | [] => .ok a
  | (_, .option o name joined) :: (value, .operand) :: r => do
    let m ← complain p (meaning p (some value) o name joined)
    let a ← a.add p m
    if m.usesNext then readRoles p a r else readRoles p a ((value, .operand) :: r)
  | (_, .option o name joined) :: r => do
    readRoles p (← a.add p (← complain p (meaning p none o name joined))) r
  | (word, .operand) :: (dash, .separator) :: r =>
    if p.operand.isNone || a.operand.isSome then
      readRoles p { a with unrecognized := a.unrecognized ++ [word] } ((dash, .separator) :: r)
    else if p.takesCommand then .ok { a with operand := some word, remaining := dash :: r.map Prod.fst }
    else readRoles p { a with operand := some word } r
  | (dash, .separator) :: (word, .operand) :: r =>
    if p.operand.isNone || a.operand.isSome then
      readRoles p { a with unrecognized := a.unrecognized ++ [dash] } ((word, .operand) :: r)
    else if p.takesCommand then .ok { a with operand := some dash, remaining := word :: r.map Prod.fst }
    else readRoles p { a with operand := some word } r
  | (word, .operand) :: r =>
    if p.operand.isNone || a.operand.isSome then
      readRoles p { a with unrecognized := a.unrecognized ++ [word] } r
    else if p.takesCommand then .ok { a with operand := some word, remaining := r.map Prod.fst }
    else readRoles p { a with operand := some word } r
  | (word, _) :: r => readRoles p { a with unrecognized := a.unrecognized ++ [word] } r

/-- Reads all words of a program; an operand that the program needs must be among them. -/
def readProgram (p : Program) (words : List String) : Except Stop Arguments := do
  let a ← readRoles p {} (← complain p (roles p words))
  match p.operand, a.operand with
  | some operand, none => .error (.wrong p (.missing operand))
  | _, _ => return a

inductive Task where
  | validate (file : String)
  | exportXml (file : String) (output : Option String)
  | nodeTypes (category : Option String)
  | serve (host : String) (socket : Int) (reload : Bool)
  deriving DecidableEq, Repr

/-- Everything that the command line says. The option for the configuration may be given without a value. -/
structure Request where
  config : Option (Option String)
  logLevel : Option String
  task : Task
  deriving DecidableEq, Repr

namespace Arguments

/-- The setting the last time it is given, with its value if there is one. -/
def given? (a : Arguments) (s : Setting) : Option (Option String) := (a.settings.reverse.find? fun e => e.1 = s).map Prod.snd

def value? (a : Arguments) (s : Setting) : Option String := (a.given? s).join

def isGiven (a : Arguments) (s : Setting) : Bool := a.settings.any fun e => e.1 = s

end Arguments

def taskOf (command : String) (a : Arguments) : Task :=
  let file := a.operand.getD ""
  if command = "validate" then .validate file
  else if command = "export" then .exportXml file (a.value? .output)
  else if command = "node-types" then .nodeTypes ((a.given? .category).map fun c => c.getD "")
  else
    .serve ((a.value? .host).getD "127.0.0.1") (((a.value? .socket).bind integerOf?).getD 8000) (a.isGiven .reload)

def readRequest (words : List String) : Except Stop Request := do
  let p := editorProgram
  let a ← readProgram p words
  let command := a.operand.getD ""
  match commands.find? fun c => c.1 = command with
  | none => .error (.wrong p (.unknownCommand command (commands.map Prod.fst)))
  | some (_, sub) =>
    let b ← readProgram sub a.remaining
    match a.unrecognized ++ b.unrecognized with
    | [] => return ⟨a.given? .config, a.value? .logLevel, taskOf command b⟩
    | words => .error (.wrong p (.unrecognized words))

end BehaviorTree.CommandLine
