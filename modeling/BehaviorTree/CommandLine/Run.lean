import BehaviorTree.CommandLine.Arguments
import BehaviorTree.Config.Load
import BehaviorTree.Logging.Setup
import BehaviorTree.Session.Document

/-!
Doing what the command line says, with the files of a directory. A task ends with a text to print, or with a fault that has an
exit code: two for what cannot be read, written or understood, three for a document that is no valid tree, and one for the rest.
-/

set_option autoImplicit false

namespace BehaviorTree.CommandLine

inductive Fault where
  | arguments (p : Program) (c : Complaint)
  | config (fault : Config.LoadFault)
  /-- The option for the configuration has no value. -/
  | noConfig
  | logFile (fault : FileFault)
  | session (fault : Session.Fault)
  | noServer
  /-- The output does not take the text. -/
  | unprintable (text : String)

def successCode : Nat := 0

def crashCode : Nat := 1

def usageCode : Nat := 2

def invalidCode : Nat := 3

namespace Fault

def sessionCode : Session.Fault → Nat
  | .document f => if f.isFormat then invalidCode else crashCode
  | .semantic _ => invalidCode
  | .unreadableFile _ _ => usageCode
  | .unwritableFile _ _ => usageCode
  | _ => crashCode

def code : Fault → Nat
  | .arguments _ _ => usageCode
  | .config f => if f.isExpected then usageCode else crashCode
  | .noConfig => crashCode
  | .logFile _ => crashCode
  | .session f => sessionCode f
  | .noServer => usageCode
  | .unprintable _ => crashCode

def message : Fault → String
  | .arguments p c => p.name ++ ": error: " ++ c.message
  | .config f => "Cannot load configuration: " ++ f.message
  | .noConfig => "There is no configuration to load"
  | .logFile f => f.message
  | .session f => f.message
  | .noServer => "There is no server to start"
  | .unprintable text => Text.unencodableMessage (!Text.isSurrogate ·) text.toList

end Fault

def exitCode : Except Fault String → Nat
  | .ok _ => successCode
  | .error f => f.code

/-- The configuration that counts, with the level of the log as the command line has it. -/
def settings (fs : Files) (environment : Option String) (r : Request) : Except Fault EditorConfig := do
  let given ← match r.config with
    | some none => throw .noConfig
    | some (some text) => pure (some (.text text))
    | none => pure none
  let config ← (Config.load fs environment given).mapError .config
  match r.logLevel.filter fun l => !l.isEmpty with
  | none => return config
  | some level => return { config with logging := { config.logging with level := Text.upper level } }

def validityLine (l : Loaded) : String :=
  Semantics.validMessage ++ " (" ++ Value.intText l.nodes.length ++ " nodes, "
    ++ Value.intText l.connections.length ++ " connections)\n"

def validateTask (s : Session) (fs : Files) (file : String) : Except Fault String :=
  match s.loadFile fs (Path.ofText file) with
  | (.error f, _) => .error (.session f)
  | (.ok l, s) =>
    match s.validateTree with
    | .error f => .error (.session (.semantic f))
    | .ok () => .ok (validityLine l)

def exportTask (s : Session) (fs : Files) (file : String) (output : Option String) : Except Fault String × Files :=
  match s.loadFile fs (Path.ofText file) with
  | (.error f, _) => (.error (.session f), fs)
  | (.ok _, s) =>
    match s.exportXml, output.filter fun o => !o.isEmpty with
    | .error f, _ => (.error (.session f), fs)
    | .ok xml, none => (.ok (xml ++ "\n"), fs)
    | .ok xml, some output =>
      let (r, fs) := Session.writeText fs (Path.ofText output) xml
      ((r.map fun () => "").mapError .session, fs)

def nodeTypesTask (s : Session) (category : Option String) : String :=
  Json.pretty (.list ((s.catalog.list category).map NodeType.toValue)) ++ "\n"

def perform (s : Session) (fs : Files) : Task → Except Fault String × Files
  | .validate file => (validateTask s fs file, fs)
  | .exportXml file output => exportTask s fs file output
  | .nodeTypes category => (.ok (nodeTypesTask s category), fs)
  | .serve _ _ _ => (.error .noServer, fs)

/-- Runs the command line: what is to be printed, and the files after it. The log file is made before the task begins. -/
def execute (fs : Files) (environment : Option String) (words : List String) : Except Fault String × Files :=
  match readRequest words with
  | .error (.help p) => (.ok p.help, fs)
  | .error (.wrong p c) => (.error (.arguments p c), fs)
  | .ok request =>
    match settings fs environment request with
    | .error f => (.error f, fs)
    | .ok config =>
      match ({ files := fs } : Logging.State).ofConfig config.logging with
      | (.error f, log) => (.error (.logFile f), log.files)
      | (.ok (), log) => perform (.start config .standard) log.files request.task

/-- Prints what is to be printed, if there is anything and the output takes it. -/
def printed (takes : String → Bool) (r : Except Fault String) : Except Fault String :=
  match r with
  | .ok text => if text.isEmpty || takes text then .ok text else .error (.unprintable text)
  | .error f => .error f

end BehaviorTree.CommandLine
