import BehaviorTree.Config.Basic
import BehaviorTree.Logging.Record

/-!
Logging as it is set up. Loggers are named by paths with dots; a logger without a level of its own has that of the next one
above it. All output goes through the handlers at the root: the editor's own one to the error stream, of which there is one at
most, and any number of files. A handler that cannot write a record leaves it out; its report of that is not modelled.
-/

set_option autoImplicit false

namespace BehaviorTree.Logging

inductive Target where
  | stream
  | file (path : Path)
  deriving DecidableEq, Repr

structure Handler where
  target : Target
  level : Int
  json : Bool
  deriving DecidableEq, Repr

structure State where
  rootLevel : Int := warning
  /-- The levels of the loggers that have been given one; zero is as good as none. -/
  levels : Table Int := []
  handlers : List Handler := []
  files : Files := {}
  stderr : String := ""

def namespaces : List String :=
  ["bteditor", "bteditor.core", "bteditor.behavior", "bteditor.io", "bteditor.app", "bteditor.registry", "bteditor_backend"]

def noisyLibraries : List String := ["pluggy", "urllib3", "httpx", "uvicorn.access"]

inductive Fault where
  | level (fault : NumberFault)
  | file (fault : FileFault)
  deriving DecidableEq, Repr

namespace State

def setLevel (s : State) (name : String) (level : Int) : State :=
  if name.isEmpty || name = "root" then { s with rootLevel := level }
  else { s with levels := Table.insert s.levels name level }

def setLevels (s : State) (levels : Table Int) : State := levels.foldl (fun s l => s.setLevel l.1 l.2) s

def isStream (h : Handler) : Bool := h.target = .stream

/-- Sets the level of everything and replaces the handler of the stream; some libraries stay at warnings. -/
def setup (s : State) (level : Int) (json : Bool) (quiet : List String) : State :=
  let s := { s with
    handlers := s.handlers.filter (fun h => !isStream h) ++ [Handler.mk .stream level json]
    rootLevel := level }
  (s.setLevels (namespaces.map fun n => (n, level))).setLevels (quiet.map fun n => (n, max level warning))

def addFile (s : State) (path : Path) (level : Int) (json : Bool) : Except FileFault Unit × State :=
  let present := match s.files.lookup path with
    | .ok (.file bytes) => bytes
    | _ => []
  match s.files.write path present with
  | (.error e, fs) => (.error e, { s with files := fs })
  | (.ok (), fs) => (.ok (), { s with files := fs, handlers := s.handlers ++ [Handler.mk (.file path) level json] })

def ofConfig (s : State) (c : LoggingConfig) : Except FileFault Unit × State :=
  let level := levelNamed c.level
  let s := s.setup level c.jsonLines noisyLibraries
  let s := s.setLevels (c.namespaces.map fun n => (n.1, levelNamed n.2))
  match c.file.filter fun f => !f.isEmpty with
  | none => (.ok (), s)
  | some file => s.addFile (Path.ofText file) level true

def ancestors : List (List Char) → List String
  | [] => []
  | p :: r => (ancestors r).map (fun rest => String.ofList p ++ "." ++ rest) ++ [String.ofList p]

def effectiveLevel (s : State) (logger : String) : Int :=
  match (ancestors (Text.split '.' logger.toList)).findSome? fun n => (Table.lookup s.levels n).filter (· ≠ 0) with
  | some level => level
  | none => s.rootLevel

/-- Is a record of this level handled? A level that is not positive never is. -/
def isEnabled (s : State) (logger : String) (level : Number) : Bool :=
  !level.le (.int 0) && (Number.int (s.effectiveLevel (if logger = "root" then "" else logger))).le level

/-- Puts a line where it goes to. A file takes no line that cannot be encoded. -/
def emit (s : State) (target : Target) (line : String) : State :=
  match target with
  | .stream => { s with stderr := s.stderr ++ line ++ "\n" }
  | .file path =>
    match s.files.read path, Text.utf8? (line ++ "\n").toList with
    | .ok bytes, some more => { s with files := (s.files.write path (bytes ++ more)).2 }
    | _, _ => s

/-- Writes the line of a record where a handler writes, if its level is high enough and there is a line. -/
def handleWith (r : Record) (s : State) (h : Handler) : State :=
  match r.line? h.json with
  | some line => if (Number.int h.level).le r.level then s.emit h.target line else s
  | none => s

/-- Hands a record to all handlers. Where there are none, warnings go to the stream as they are. -/
def handle (s : State) (r : Record) : State :=
  if s.handlers.isEmpty then
    match r.message? with
    | some message => if (Number.int warning).le r.level then s.emit .stream (r.bare message) else s
    | none => s
  else s.handlers.foldl (handleWith r) s

def log (s : State) (r : Record) : Bool × State :=
  if s.isEnabled r.logger r.level then (true, s.handle r) else (false, s)

end State

end BehaviorTree.Logging
