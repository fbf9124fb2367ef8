import BehaviorTree.Graph.NodeType
import BehaviorTree.Graph.Grid
import BehaviorTree.Json.Writer

/-!
The persistent part of an editing session, and its text: a JSON object with the nodes, the connections, the custom node types,
the collapsed categories and the grid.
-/

set_option autoImplicit false

namespace BehaviorTree

structure Snapshot where
  nodes : List Node := []
  connections : List Connection := []
  customTypes : List NodeType := []
  collapsed : Table Bool := []
  grid : GridSettings := {}

namespace Snapshot

def toValue (s : Snapshot) : Value :=
  .object [("nodes", .list (s.nodes.map Node.toValue)), ("connections", .list (s.connections.map Connection.toValue)),
    ("customNodeTypes", .list (s.customTypes.map NodeType.toValue)),
    ("collapsedCategories", .object (s.collapsed.map fun c => (c.1, .bool c.2))), ("grid", s.grid.toValue)]

def toMembers (s : Snapshot) : Table Value :=
  [("nodes", .list (s.nodes.map Node.toValue)), ("connections", .list (s.connections.map Connection.toValue)),
    ("custom_node_types", .list (s.customTypes.map NodeType.toValue)),
    ("collapsed_categories", .object (s.collapsed.map fun c => (c.1, .bool c.2))), ("grid", s.grid.toValue)]

def encode (s : Snapshot) : String := Json.pretty s.toValue

def isWritable (s : Snapshot) : Bool := !s.toValue.hasBytes

def same (nanAlike : Bool) (s t : Snapshot) : Bool := s.toValue.same nanAlike t.toValue

end Snapshot

/-- A decoded document with the counters that continue its ids. -/
structure Loaded extends Snapshot where
  nextNode : Int
  nextConnection : Int
  gridPresent : Bool

def Loaded.toValue (l : Loaded) : Value :=
  .object (l.toMembers ++ [("next_node_id", .int l.nextNode), ("next_connection_id", .int l.nextConnection),
    ("grid_present", .bool l.gridPresent)])

/-- Equal as data. A NaN that stands in a text is one and the same constant wherever it is read. -/
def Loaded.same (nanAlike : Bool) (a b : Loaded) : Bool :=
  a.toSnapshot.same nanAlike b.toSnapshot && a.nextNode == b.nextNode && a.nextConnection == b.nextConnection
    && a.gridPresent == b.gridPresent

end BehaviorTree
