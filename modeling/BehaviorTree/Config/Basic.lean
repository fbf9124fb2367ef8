import BehaviorTree.Graph.Grid
import BehaviorTree.Tree.Layout

/-!
The configuration of the editor: logging, the grid of a new session, the limits of the zoom, the measures of the layout, and
how trees are exported.
-/

set_option autoImplicit false

namespace BehaviorTree

structure LoggingConfig where
  level : String := "INFO"
  jsonLines : Bool := false
  namespaces : Table String := []
  file : Option String := none
  deriving DecidableEq, Repr

structure ViewportConfig where
  minScale : Float := 0.1
  maxScale : Float := 5.0
  defaultScale : Float := 1.0

structure ExportConfig where
  formatVersion : String := "4"
  requireSingleRoot : Bool := false
  deriving DecidableEq, Repr

structure EditorConfig where
  logging : LoggingConfig := {}
  grid : GridSettings := {}
  viewport : ViewportConfig := {}
  layout : Layout.Options Float := Layout.defaultOptions
  output : ExportConfig := {}
  loadEntryPoints : Bool := true

namespace LoggingConfig

def toValue (c : LoggingConfig) : Value :=
  .object [("level", .text c.level), ("json_lines", .bool c.jsonLines),
    ("namespaces", .object (c.namespaces.map fun n => (n.1, .text n.2))), ("file", (c.file.map .text).getD .null)]

end LoggingConfig

namespace EditorConfig

def layoutValue (o : Layout.Options Float) : Value :=
  .object [("node_width", .float o.nodeWidth), ("node_height", .float o.nodeHeight), ("node_spacing_x", .float o.spacingX),
    ("node_spacing_y", .float o.spacingY), ("tree_spacing_x", .float o.treeSpacing)]

def toValue (c : EditorConfig) : Value :=
  .object [("logging", c.logging.toValue), ("grid", c.grid.toValue),
    ("viewport", .object [("min_scale", .float c.viewport.minScale), ("max_scale", .float c.viewport.maxScale),
      ("default_scale", .float c.viewport.defaultScale)]),
    ("layout", layoutValue c.layout),
    ("export", .object [("format_version", .text c.output.formatVersion),
      ("require_single_root", .bool c.output.requireSingleRoot)]),
    ("load_entry_points", .bool c.loadEntryPoints)]

end EditorConfig

end BehaviorTree
