import BehaviorTree.Session.Basic
import BehaviorTree.Tree.Xml

/-!
The document as a whole: its hierarchy, its validity, its export and layout, and how it is saved and loaded. Loading checks
everything before the session changes.
-/

set_option autoImplicit false

namespace BehaviorTree.Session

def hierarchy (s : Session) : List Tree := Hierarchy.forest s.graph.nodeList s.graph.connectionList

def validateTree (s : Session) : Except Semantics.Fault Unit :=
  Semantics.check s.graph.nodeList s.graph.connectionList s.config.output.requireSingleRoot

def exportXml (s : Session) : Except Fault String :=
  match s.validateTree with
  | .error f => .error (.semantic f)
  | .ok () => .ok (Xml.document s.hierarchy s.customTypes s.config.output.formatVersion)

def placements (g : GridSettings) : List (Layout.Position Float) → Except NumberFault (List (Table Value))
  | [] => .ok []
  | p :: r => do
    let x ← g.snapFloat p.x
    let y ← g.snapFloat p.y
    return [("id", .text p.id), ("x", .float x), ("y", .float y)] :: (← placements g r)

def autoLayout (s : Session) : Outcome (List String) :=
  match placements s.grid (Layout.forest s.config.layout s.hierarchy) with
  | .error e => (.error (.number e), s)
  | .ok updates => s.onStore (s.store.updateNodes updates)

def snapshot (s : Session) : Snapshot :=
  ⟨s.graph.nodeList, s.graph.connectionList, s.customTypes, s.collapsed, s.grid⟩

def encode (s : Session) : Except Fault String :=
  if s.snapshot.isWritable then .ok s.snapshot.encode else .error .notWritable

def unwritable (path : Path) (fault : FileFault) : Fault :=
  if fault.isUnusable then .unusablePath fault else .unwritableFile path fault

/-- Writes a text to a file. The file is emptied before the text is encoded. -/
def writeText (fs : Files) (path : Path) (text : String) : Except Fault Unit × Files :=
  match fs.write path ((Text.utf8? text.toList).getD []) with
  | (.error e, fs) => (.error (unwritable path e), fs)
  | (.ok (), fs) => (if (Text.utf8? text.toList).isSome then .ok () else .error (.unencodable text), fs)

def save (s : Session) (fs : Files) (path : Path) : Except Fault Unit × Files :=
  match s.validateTree with
  | .error f => (.error (.semantic f), fs)
  | .ok () =>
    match s.encode with
    | .error e => (.error e, fs)
    | .ok text => writeText fs path text

def resetTransient (s : Session) : Session :=
  let (m, store) := s.monitor.clear s.store
  { s with selection := {}, pending := none, box := {}, monitor := m, store := store }

def apply (s : Session) (l : Loaded) : Outcome Unit :=
  match s.store.load l.nodes l.connections l.nextNode l.nextConnection false with
  | (.error e, store) => (.error (.store e), { s with store := store })
  | (.ok (), store) =>
    let s := { s with
      store := store
      customTypes := l.customTypes
      collapsed := l.collapsed
      grid := if l.gridPresent then l.grid else s.grid }
    (.ok (), s.resetTransient.emit (.stateLoaded l.nodes.length l.connections.length))

def applyChecked (s : Session) (l : Loaded) : Outcome Loaded :=
  match Semantics.check l.nodes l.connections s.config.output.requireSingleRoot with
  | .error f => (.error (.semantic f), s)
  | .ok () =>
    let (r, s) := s.apply l
    (r.map fun () => l, s)

def loadSource (s : Session) (source : Value) : Outcome Loaded :=
  match Document.decode source with
  | .error f => (.error (.document f), s)
  | .ok l => s.applyChecked l

def readText (fs : Files) (path : Path) : Except Fault String :=
  match fs.read path with
  | .error f => .error (if f.isUnusable then .unusablePath f else .unreadableFile path f)
  | .ok bytes => (Files.decoded bytes).mapError .encoding

def loadFile (s : Session) (fs : Files) (path : Path) : Outcome Loaded :=
  match readText fs path with
  | .error e => (.error e, s)
  | .ok text => s.loadSource (.text text)

def reset (s : Session) : Session := (resetTransient { s with store := s.store.clear false }).emit .stateReset

end BehaviorTree.Session
