import BehaviorTree.Config.Schema
import BehaviorTree.Files
import BehaviorTree.Yaml.Construct

/-!
Where the configuration comes from: the argument after the option, or else the environment. What is given may be the
configuration itself or the path of a file.
-/

set_option autoImplicit false

namespace BehaviorTree.Config

open Yaml

/-- A configuration as it is given: a path for certain, or a text that may be one. -/
inductive Source where
  | path (p : Path)
  | text (s : String)

inductive LoadFault where
  | file (fault : FileFault)
  | encoding (fault : Text.EncodingFault)
  | notFound (path : Path)
  | yaml (fault : Yaml.Fault)
  | notMapping
  | config (fault : Fault)
  | optionWithoutPath

def LoadFault.message : LoadFault → String
  | .file fault => fault.message
  | .encoding fault => fault.message
  | .notFound path => "Config file not found: " ++ path.text
  | .yaml fault => fault.message
  | .notMapping => "Top-level config must be a mapping/object"
  | .config fault => fault.message
  | .optionWithoutPath => "--config given without a path"

/-- Faults of the configuration or its file; the others come from values that have no meaning at all. -/
def LoadFault.isExpected : LoadFault → Bool
  | .yaml fault => fault.isOfText
  | _ => true

def readFile (fs : Files) (path : Path) : Except LoadFault String :=
  match fs.read path with
  | .error e => .error (.file e)
  | .ok bytes => (Files.decoded bytes).mapError .encoding

def fileSuffixes : List String := [".yaml", ".yml", ".json"]

/-- Is the text a configuration by its looks: of several lines, or in brackets? -/
def isContent (s : String) : Bool :=
  s.toList.contains '\n' || match (Text.trimSpacing s).toList with
    | '\x7b' :: _ => true
    | '[' :: _ => true
    | _ => false

/-- The text of a configuration. A text of one line is a path if there is such a file. -/
def sourceText (fs : Files) : Source → Except LoadFault String
  | .path p => readFile fs p
  | .text s =>
    if (Text.trimSpacing s).isEmpty then .ok ""
    else if isContent s then .ok s
    else
      let p := Path.ofText s
      match fs.lookup p with
      | .error (.nameTooLong q) => .error (.file (.nameTooLong q))
      | .ok (.file _) => readFile fs p
      | .ok .directory => readFile fs p
      | _ =>
        if fileSuffixes.contains (String.ofList (p.suffix.toList.map Char.toLower)) then .error (.notFound p) else .ok s

/-- The rows of a configuration that is not yet checked; an empty one has none. -/
def raw (fs : Files) (source : Source) : Except LoadFault (List (Data × Data)) := do
  match ← (Yaml.load (← sourceText fs source)).mapError .yaml with
  | .null => return []
  | .map rs => return rs
  | _ => .error .notMapping

def optionName : String := "--config"

/-- The argument after the first option for the configuration, or else what the environment says, unless that is empty. -/
def source (arguments : List String) (environment : Option String) : Except LoadFault (Option String) :=
  match arguments.dropWhile (· ≠ optionName) with
  | [] => .ok (environment.filter fun s => !s.isEmpty)
  | [_] => .error .optionWithoutPath
  | _ :: path :: _ => .ok (some path)

/-- The configuration from a source, or from the environment where none is given, or else the default one. -/
def load (fs : Files) (environment : Option String) (given : Option Source) : Except LoadFault EditorConfig :=
  match given.or ((environment.filter fun s => !s.isEmpty).map .text) with
  | none => .ok {}
  | some s =>
    match raw fs s with
    | .error e => .error e
    | .ok rs => (parse (.map rs)).mapError .config

end BehaviorTree.Config
