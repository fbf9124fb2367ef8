import BehaviorTree.Catalog.Basic
import BehaviorTree.Config.Basic
import BehaviorTree.Document.Decode
import BehaviorTree.Files
import BehaviorTree.Monitor.Overlay
import BehaviorTree.Store.Mutate
import BehaviorTree.Tree.EdgeRules
import BehaviorTree.Tree.Semantics

/-!
An editing session. It owns the store and what belongs to one document: the custom node types, the collapsed categories and the
grid. The selection, the pending connection, the selection box and the viewport are transient.
-/

set_option autoImplicit false

namespace BehaviorTree

structure Selection where
  nodes : List String := []
  connection : Option String := none
  deriving DecidableEq, Repr

def Selection.toValue (s : Selection) : Value :=
  .object [("nodes", .list (s.nodes.map .text)), ("connection", (s.connection.map .text).getD .null)]

/-- The first half of a connection that is made by two clicks. -/
structure PendingConnection where
  node : String
  /-- The side of the node that was clicked: the one towards its parent, or the one towards its children. -/
  side : String
  deriving DecidableEq, Repr

def PendingConnection.toValue (p : PendingConnection) : Value := .object [("node_id", .text p.node), ("port", .text p.side)]

/-- A rectangle that is drawn to select nodes; its corners are kept as given. -/
structure SelectionBox where
  active : Bool := false
  startX : Value := .float 0.0
  startY : Value := .float 0.0
  endX : Value := .float 0.0
  endY : Value := .float 0.0

def SelectionBox.toValue (b : SelectionBox) : Value :=
  .object [("active", .bool b.active), ("start_x", b.startX), ("start_y", b.startY), ("end_x", b.endX), ("end_y", b.endY)]

structure Viewport where
  scale : Float := 1.0
  offsetX : Float := 0.0
  offsetY : Float := 0.0
  minScale : Float := 0.1
  maxScale : Float := 5.0
  /-- The rule that keeps the scale between its limits has been overwritten by a number. -/
  isUnruled : Bool := false

namespace Viewport

def clamp (v : Viewport) : Viewport :=
  let raised := if v.minScale > v.scale then v.minScale else v.scale
  { v with scale := if v.maxScale < raised then v.maxScale else raised }

def ofConfig (c : ViewportConfig) : Viewport :=
  clamp { scale := c.defaultScale, minScale := c.minScale, maxScale := c.maxScale }

def toValue (v : Viewport) : Value :=
  .object [("scale", .float v.scale), ("offset_x", .float v.offsetX), ("offset_y", .float v.offsetY),
    ("min_scale", .float v.minScale), ("max_scale", .float v.maxScale)]

end Viewport

structure Session where
  config : EditorConfig := {}
  catalog : Catalog := .standard
  store : Store := {}
  customTypes : List NodeType := []
  collapsed : Table Bool := []
  grid : GridSettings := {}
  viewport : Viewport := {}
  selection : Selection := {}
  pending : Option PendingConnection := none
  box : SelectionBox := {}
  monitor : Monitor := {}

namespace Session

inductive Fault where
  | store (fault : Store.Fault)
  | number (fault : NumberFault)
  | document (fault : Document.Fault)
  | semantic (fault : Semantics.Fault)
  | invalid (report : Schema.Report)
  | unknownType (type category : Value)
  | typeIncomplete
  | typeExists (type : String)
  | catalog (fault : Catalog.Fault)
  | alignment (how : String)
  | unknownSide (name : String)
  | unknownNode (id : String)
  | unknownConnection (id : String)
  | viewportField (name : String)
  /-- The attribute of the viewport cannot be written to at all. -/
  | fixedAttribute
  | notWritable
  | properties (fault : Merge.Fault)
  | unreadableFile (path : Path) (fault : FileFault)
  | unwritableFile (path : Path) (fault : FileFault)
  | unusablePath (fault : FileFault)
  | encoding (fault : Text.EncodingFault)
  | unencodable (text : String)

def Fault.message : Fault → String
  | .store fault => fault.message
  | .number fault => fault.message
  | .document fault => fault.message
  | .semantic fault => fault.message
  | .invalid report => report.headline
  | .unknownType type category => "Node type " ++ type.written ++ " not found in category " ++ category.written
  | .typeIncomplete => "Custom node type needs a type and a category"
  | .typeExists type => "Node type '" ++ type ++ "' already exists"
  | .catalog fault => fault.message?.getD ""
  | .alignment how => "Unknown alignment '" ++ how ++ "'"
  | .unknownSide name => "Unknown port '" ++ name ++ "'"
  | .unknownNode id => id
  | .unknownConnection id => id
  | .viewportField name => "Unknown viewport field '" ++ name ++ "'"
  | .fixedAttribute => "the attribute is not writable"
  | .notWritable => "bytes cannot be written"
  | .properties fault => fault.message
  | .unreadableFile path fault => "Cannot read '" ++ path.text ++ "': " ++ fault.message
  | .unwritableFile path fault => "Cannot write '" ++ path.text ++ "': " ++ fault.message
  | .unusablePath fault => fault.message
  | .encoding fault => fault.message
  | .unencodable text => Text.unencodableMessage (!Text.isSurrogate ·) text.toList

abbrev Outcome (α : Type) := Except Fault α × Session

def start (config : EditorConfig) (catalog : Catalog) : Session :=
  { config := config, catalog := catalog, grid := config.grid, viewport := .ofConfig config.viewport }

def emit (s : Session) (c : Change) : Session := { s with store := s.store.emit c }

def graph (s : Session) : Graph := s.store.graph

def toValue (s : Session) : Value :=
  .object (s.store.toMembers ++
    [("custom_types", .list (s.customTypes.map NodeType.toValue)),
      ("collapsed", .object (s.collapsed.map fun c => (c.1, .bool c.2))), ("grid", s.grid.toValue),
      ("viewport", s.viewport.toValue), ("selection", s.selection.toValue),
      ("pending", (s.pending.map PendingConnection.toValue).getD .null), ("box", s.box.toValue),
      ("monitor", Change.statesValue s.monitor.states)])

def onStore {α : Type} (s : Session) (r : Store.Outcome α) : Outcome α := (r.1.mapError .store, { s with store := r.2 })

/-- The definition of a type: from the catalog, or else a custom type of that name. -/
def definition? (s : Session) (type category : String) : Option NodeType := s.catalog.find? s.customTypes type category

def availableTypes (s : Session) : List NodeType := s.catalog.list none ++ s.customTypes

end Session

end BehaviorTree
