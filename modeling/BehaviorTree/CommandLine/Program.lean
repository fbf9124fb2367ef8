import BehaviorTree.Text.Digit
import BehaviorTree.Text.Quoted

/-!
What can be said on the command line. The program has one command per task; each has options of its own and may need one word to
work on. A word is an option by its looks, before anything is done with it.
-/

set_option autoImplicit false

namespace BehaviorTree.CommandLine

inductive Setting where
  | help
  | config
  | logLevel
  | output
  | category
  | host
  | socket
  | reload
  deriving DecidableEq, Repr

structure Switch where
  setting : Setting
  names : List String
  takesValue : Bool := true
  deriving DecidableEq, Repr

def Switch.title (o : Switch) : String := "/".intercalate o.names

structure Program where
  name : String
  purpose : String
  options : List Switch
  operand : Option String := none
  /-- Does everything from the operand on belong to a command? -/
  takesCommand : Bool := false
  deriving DecidableEq, Repr

def commandOperand : String := "command"

inductive Complaint where
  | ambiguous (word : String) (names : List String)
  | valueExpected (o : Switch)
  | valueIgnored (o : Switch) (value : String)
  | notInteger (o : Switch) (value : String)
  | unknownCommand (name : String) (known : List String)
  | missing (operand : String)
  | unrecognized (words : List String)
  deriving DecidableEq, Repr

def Complaint.message : Complaint → String
  | .ambiguous word names => "ambiguous option: " ++ word ++ " could match " ++ ", ".intercalate names
  | .valueExpected o => "argument " ++ o.title ++ ": expected one argument"
  | .valueIgnored o value => "argument " ++ o.title ++ ": ignored explicit argument " ++ Text.quoted value
  | .notInteger o value => "argument " ++ o.title ++ ": invalid int value: " ++ Text.quoted value
  | .unknownCommand name known =>
    "argument " ++ commandOperand ++ ": invalid choice: " ++ Text.quoted name ++ " (choose from "
      ++ ", ".intercalate (known.map Text.quoted) ++ ")"
  | .missing operand => "the following arguments are required: " ++ operand
  | .unrecognized words => "unrecognized arguments: " ++ " ".intercalate words

inductive Role where
  | operand
  /-- The first double dash: everything after it is an operand. -/
  | separator
  /-- An option, the name it goes by, and the text joined to it, behind its letter or behind an equals sign. -/
  | option (o : Switch) (name : String) (joined : Option (List Char))
  /-- It looks like an option, but there is none such. -/
  | unknown
  deriving DecidableEq, Repr

namespace Program

def byName (p : Program) : List (String × Switch) := p.options.flatMap fun o => o.names.map fun n => (n, o)

def option? (p : Program) (name : String) : Option Switch := (p.byName.find? fun e => e.1 = name).map Prod.snd

def usage (p : Program) : String :=
  let option (o : Switch) : String := "[" ++ o.title ++ (if o.takesValue then " VALUE" else "") ++ "]"
  let tail := if p.takesCommand then " ..." else ""
  "usage: " ++ " ".intercalate (p.name :: p.options.map option ++ p.operand.toList) ++ tail

def help (p : Program) : String := p.usage ++ "\n\n" ++ p.purpose ++ "\n"

end Program

def helpSwitch : Switch := ⟨.help, ["-h", "--help"], false⟩

def validateProgram : Program :=
  { name := "bteditor validate", purpose := "Check file format and tree semantics.", options := [helpSwitch]
    operand := some "file" }

def exportProgram : Program :=
  { name := "bteditor export", purpose := "Write BehaviorTree.CPP XML.", operand := some "file"
    options := [helpSwitch, ⟨.output, ["-o", "--output"], true⟩] }

def nodeTypesProgram : Program :=
  { name := "bteditor node-types", purpose := "List available node types."
    options := [helpSwitch, ⟨.category, ["--category"], true⟩] }

def serveProgram : Program :=
  { name := "bteditor serve", purpose := "Run the HTTP backend."
    options := [helpSwitch, ⟨.host, ["--host"], true⟩, ⟨.socket, ["--port"], true⟩, ⟨.reload, ["--reload"], false⟩] }

def commands : List (String × Program) :=
  [("validate", validateProgram), ("export", exportProgram), ("node-types", nodeTypesProgram), ("serve", serveProgram)]

def editorProgram : Program :=
  { name := "bteditor", purpose := "Behavior tree editor core.", operand := some commandOperand, takesCommand := true
    options := [helpSwitch, ⟨.config, ["--config"], true⟩, ⟨.logLevel, ["--log-level"], true⟩] }

def splitValue (cs : List Char) : List Char × Option (List Char) :=
  (cs.takeWhile (· ≠ '='), if cs.contains '=' then some ((cs.dropWhile (· ≠ '=')).drop 1) else none)

/-- Is the text a negative number: a dash, and digits with a point before, among or after none of them? -/
def isNegativeNumber (cs : List Char) : Bool :=
  let digit (c : Char) : Bool := (Text.digitValue? c).isSome
  let number (ds : List Char) : Bool :=
    let rest := ds.dropWhile digit
    if rest.isEmpty then !ds.isEmpty
    else rest.head? = some '.' && !(rest.drop 1).isEmpty && (rest.drop 1).all digit
  match cs with
  | '-' :: ds => number ds || (ds.getLast? = some '\n' && number ds.dropLast)
  | _ => false

/-- The options that a word may be short for. After two dashes that is any option that starts with it; after one dash it is the
option of one letter, with a value joined to it. -/
def candidates (p : Program) (cs : List Char) : List (String × Switch × Option (List Char)) :=
  match cs with
  | '-' :: '-' :: _ =>
    let (start, joined) := splitValue cs
    (p.byName.filter fun e => start.isPrefixOf e.1.toList).map fun e => (e.1, e.2, joined)
  | '-' :: c :: r => (p.byName.filter fun e => e.1.toList = ['-', c]).map fun e => (e.1, e.2, some r)
  | _ => []

def roleOf (p : Program) (word : String) : Except Complaint Role :=
  let cs := word.toList
  if cs.head? ≠ some '-' || cs.length = 1 then .ok .operand
  else
    match p.option? word with
    | some o => .ok (.option o word none)
    | none =>
      let (name, joined) := splitValue cs
      match if joined.isSome then p.option? (String.ofList name) else none with
      | some o => .ok (.option o (String.ofList name) joined)
      | none =>
        match candidates p cs with
        | [(name, o, joined)] => .ok (.option o name joined)
        | [] => .ok (if isNegativeNumber cs || cs.contains ' ' then .operand else .unknown)
        | several => .error (.ambiguous word (several.map Prod.fst))

def doubleDash : String := "--"

def roles (p : Program) : List String → Except Complaint (List (String × Role))
  | [] => .ok []
  | word :: r =>
    if word = doubleDash then .ok ((word, .separator) :: r.map fun w => (w, .operand))
    else do
      let role ← roleOf p word
      return (word, role) :: (← roles p r)

end BehaviorTree.CommandLine
