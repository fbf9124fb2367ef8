import BehaviorTree.Document.State
import BehaviorTree.Graph.IdSequence
import BehaviorTree.Text.Encoding

/-!
Decoding documents. The whole document is checked before anything is made of it: its JSON, its schema, and the references
between its parts. The fields of nodes and connections are read strictly.
-/

set_option autoImplicit false

namespace BehaviorTree

namespace Document

def isWritten : Value → Bool
  | .text _ => true
  | .bytes _ => true
  | _ => false

inductive Fault where
  | json (source : List Char) (fault : Json.Fault)
  | encoding (fault : Text.EncodingFault)
  /-- The source is neither text nor an object. -/
  | notText (kind : String)
  | notObject
  | schema (report : Schema.Report)
  | duplicateNode (id : String)
  | duplicateConnection (id : String)
  | unknownNodes (connection : String) (ids : List String)
  /-- A coordinate is an integer beyond the range of floats. -/
  | coordinateTooLarge
  | idTooLong (fault : IdSequence.Fault)

def Fault.isFormat : Fault → Bool
  | .coordinateTooLarge => false
  | .idTooLong _ => false
  | _ => true

def Fault.detail : Fault → String
  | .json source fault => "JSON parse error: " ++ fault.message source
  | .encoding fault => "JSON parse error: " ++ fault.message
  | .notText kind => "JSON parse error: the JSON object must be str, bytes or bytearray, not " ++ kind
  | .notObject => "top-level JSON must be an object"
  | .schema report => report.headline
  | .duplicateNode id => "duplicate node id '" ++ id ++ "'"
  | .duplicateConnection id => "duplicate connection id '" ++ id ++ "'"
  | .unknownNodes connection ids => "connection '" ++ connection ++ "' references unknown nodes " ++ Text.quotedList ids
  | .coordinateTooLarge => "int too large to convert to float"
  | .idTooLong fault => fault.message

def Fault.message (f : Fault) : String :=
  if f.isFormat then "Invalid behavior tree file format: " ++ f.detail else f.detail

def kindName : Value → String
  | .null => "NoneType"
  | .bool _ => "bool"
  | .int _ => "int"
  | .float _ => "float"
  | .text _ => "str"
  | .bytes _ => "bytes"
  | .list _ => "list"
  | .object _ => "dict"

def parseBy (read : List Char → Except Json.Fault Value) (cs : List Char) : Except Fault Value :=
  (read cs).mapError (.json cs)

/-- The value that bytes encode; a byte order mark is passed over at their start, and only there. -/
def parseBytes (bs : List Nat) : Except Fault Value :=
  match Text.detectedChars bs with
  | .ok cs => parseBy Json.parseChars cs
  | .error f => .error (.encoding f)

/-- The value of a source, before any check: a text and bytes are read, an object is taken as it is. -/
def parse : Value → Except Fault Value
  | .object ms => .ok (.object ms)
  | .text s => parseBy Json.parse s.toList
  | .bytes bs => parseBytes bs
  | v => .error (.notText (kindName v))

/-- A node as stored: its coordinates are numbers of either kind. -/
structure NodeRecord where
  id : String
  type : String
  category : String
  name : Option String
  x : Number
  y : Number
  properties : Table Value

def strictNumber : Value → Schema.Checked Number
  | .int i => .ok (.int i)
  | .float x => .ok (.float x)
  | _ => .error [⟨[.member "int"], .notInteger⟩, ⟨[.member "float"], .notFloat⟩]

namespace NodeRecord

def ofMembers (ms : Table Value) : Schema.Checked NodeRecord :=
  let id := Schema.required ms "id" Schema.strictText
  let type := Schema.required ms "type" Schema.strictText
  let category := Schema.required ms "category" Schema.strictText
  let name := Schema.optional ms "name" none (Schema.nullable Schema.strictText)
  let x := Schema.required ms "x" strictNumber
  let y := Schema.required ms "y" strictNumber
  let properties := Schema.required ms "properties" Schema.object
  match id, type, category, name, x, y, properties with
  | .ok id, .ok type, .ok category, .ok name, .ok x, .ok y, .ok properties =>
    .ok ⟨id, type, category, name, x, y, properties⟩
  | _, _, _, _, _, _, _ =>
    .error (id.problems ++ type.problems ++ category.problems ++ name.problems ++ x.problems ++ y.problems
      ++ properties.problems)

def check (v : Value) : Schema.Checked NodeRecord := (Schema.members v).andThen ofMembers

def toNode (r : NodeRecord) : Except Fault Node :=
  match r.x.toFloat, r.y.toFloat with
  | .ok x, .ok y => .ok ⟨r.id, r.type, r.category, r.name.getD r.type, x, y, r.properties⟩
  | _, _ => .error .coordinateTooLarge

end NodeRecord

structure Envelope where
  nodes : List NodeRecord
  connections : List Connection
  customTypes : List NodeType
  collapsed : Table Bool
  grid : Option GridSettings

def connection (v : Value) : Schema.Checked Connection := (Schema.members v).andThen (Connection.ofMembers Schema.strictText)

def Envelope.ofMembers (ms : Table Value) : Schema.Checked Envelope :=
  let nodes := Schema.required ms "nodes" (Schema.listOf NodeRecord.check)
  let connections := Schema.required ms "connections" (Schema.listOf connection)
  let customTypes := Schema.optional ms "customNodeTypes" [] (Schema.listOf NodeType.check)
  let collapsed := Schema.optional ms "collapsedCategories" [] (Schema.objectOf Schema.boolean)
  let grid := Schema.optional ms "grid" none (Schema.nullable GridSettings.check)
  match nodes, connections, customTypes, collapsed, grid with
  | .ok nodes, .ok connections, .ok customTypes, .ok collapsed, .ok grid =>
    .ok ⟨nodes, connections, customTypes, collapsed, grid⟩
  | _, _, _, _, _ =>
    .error (nodes.problems ++ connections.problems ++ customTypes.problems ++ collapsed.problems ++ grid.problems)

def repeated? (seen : List String) : List String → Option String
  | [] => none
  | a :: r => if seen.contains a then some a else repeated? (a :: seen) r

/-- Checks connections one after the other: a new id, and both ends among the nodes. -/
def checkConnections (nodeIds seen : List String) : List Connection → Except Fault Unit
  | [] => .ok ()
  | c :: r =>
    if seen.contains c.id then .error (.duplicateConnection c.id)
    else
      match [c.source, c.target].filter fun e => !nodeIds.contains e with
      | [] => checkConnections nodeIds (c.id :: seen) r
      | missing => .error (.unknownNodes c.id missing)

def Envelope.checkReferences (e : Envelope) : Except Fault Unit :=
  match repeated? [] (e.nodes.map NodeRecord.id) with
  | some id => .error (.duplicateNode id)
  | none => checkConnections (e.nodes.map NodeRecord.id) [] e.connections

def resume (s : IdSequence) (ids : List String) : Except Fault Int :=
  match s.resumeAfter ids with
  | .ok s => .ok s.next
  | .error e => .error (.idTooLong e)

def Envelope.toLoaded (e : Envelope) : Except Fault Loaded := do
  let nodes ← e.nodes.mapM NodeRecord.toNode
  let nextNode ← resume .nodes (nodes.map Node.id)
  let nextConnection ← resume .connections (e.connections.map Connection.id)
  return {
    nodes, connections := e.connections, customTypes := e.customTypes, collapsed := e.collapsed
    grid := e.grid.getD {}, gridPresent := e.grid.isSome, nextNode, nextConnection }

def envelope (v : Value) : Except Fault Envelope :=
  match v with
  | .object ms =>
    match (Envelope.ofMembers ms).report "EditorDocument" with
    | .ok e => .ok e
    | .error r => .error (.schema r)
  | _ => .error .notObject

def decode (source : Value) : Except Fault Loaded := do
  let v ← parse source
  let e ← envelope v
  e.checkReferences
  e.toLoaded

end Document

end BehaviorTree
