import BehaviorTree.Graph.Grid
import BehaviorTree.Graph.NodeType
import BehaviorTree.Monitor.Status

/-!
Notifications. Every change that a session makes known has a topic, a kind and a payload with the things concerned.
-/

set_option autoImplicit false

namespace BehaviorTree

inductive Topic where
  | node
  | connection
  | selection
  | loaded
  | reset
  | grid
  | monitor
  deriving DecidableEq, Repr

namespace Topic

def all : List Topic := [.node, .connection, .selection, .loaded, .reset, .grid, .monitor]

def name : Topic → String
  | .node => "node_changed"
  | .connection => "connection_changed"
  | .selection => "selection_changed"
  | .loaded => "state_loaded"
  | .reset => "state_reset"
  | .grid => "grid_changed"
  | .monitor => "monitor_changed"

def ofName? (name : String) : Option Topic := all.find? fun t => t.name = name

end Topic

structure Event where
  topic : Topic
  /-- A text as a rule, but an emitter may give any value or none. -/
  kind : Value
  payload : Table Value

def Event.toValue (e : Event) : Value :=
  .object [("topic", .text e.topic.name), ("type", e.kind), ("payload", .object e.payload)]

inductive Change where
  | nodeCreated (node : Node)
  | nodeDeleted (node : Node)
  | nodeUpdated (node : Node) (updates : Table Value)
  | nodeMoved (node : Node)
  | nodesUpdated (ids : List String)
  | typeAdded (type : NodeType)
  | typeRemoved (type : NodeType)
  | connectionCreated (connection : Connection)
  | connectionDeleted (connection : Connection)
  | connectionSelected (connection : Connection)
  | connectionUnselected (id : String)
  /-- The first half of a connection is given up, at this node. -/
  | connectionCanceled (node : String)
  | selectionChanged (ids : List String)
  | stateLoaded (nodes connections : Nat)
  | stateReset
  | gridUpdated (grid : GridSettings)
  | statusUpdated (states : Table Status)
  | statusStopped

namespace Change

def topic : Change → Topic
  | .nodeCreated _ => .node
  | .nodeDeleted _ => .node
  | .nodeUpdated _ _ => .node
  | .nodeMoved _ => .node
  | .nodesUpdated _ => .node
  | .typeAdded _ => .node
  | .typeRemoved _ => .node
  | .connectionCreated _ => .connection
  | .connectionDeleted _ => .connection
  | .connectionSelected _ => .connection
  | .connectionUnselected _ => .connection
  | .connectionCanceled _ => .connection
  | .selectionChanged _ => .selection
  | .stateLoaded _ _ => .loaded
  | .stateReset => .reset
  | .gridUpdated _ => .grid
  | .statusUpdated _ => .monitor
  | .statusStopped => .monitor

def kind : Change → String
  | .nodeCreated _ => "created"
  | .nodeDeleted _ => "deleted"
  | .nodeUpdated _ _ => "updated"
  | .nodeMoved _ => "moved"
  | .nodesUpdated _ => "batch-updated"
  | .typeAdded _ => "type-added"
  | .typeRemoved _ => "type-removed"
  | .connectionCreated _ => "created"
  | .connectionDeleted _ => "deleted"
  | .connectionSelected _ => "selected"
  | .connectionUnselected _ => "unselected"
  | .connectionCanceled _ => "canceled"
  | .selectionChanged _ => "nodes"
  | .stateLoaded _ _ => "loaded"
  | .stateReset => "reset"
  | .gridUpdated _ => "updated"
  | .statusUpdated _ => "updated"
  | .statusStopped => "stopped"

def idsValue (ids : List String) : Value := .list (ids.map .text)

def statesValue (states : Table Status) : Value := .object (states.map fun s => (s.1, s.2.toValue))

def payload : Change → Table Value
  | .nodeCreated n => [("node", n.toValue)]
  | .nodeDeleted n => [("node", n.toValue)]
  | .nodeUpdated n updates => [("node", n.toValue), ("updates", .object updates)]
  | .nodeMoved n => [("node", n.toValue)]
  | .nodesUpdated ids => [("node_ids", idsValue ids)]
  | .typeAdded t => [("node_type", t.toValue)]
  | .typeRemoved t => [("node_type", t.toValue)]
  | .connectionCreated c => [("connection", c.toValue)]
  | .connectionDeleted c => [("connection", c.toValue)]
  | .connectionSelected c => [("connection", c.toValue)]
  | .connectionUnselected id => [("connection_id", .text id)]
  | .connectionCanceled node => [("node_id", .text node)]
  | .selectionChanged ids => [("node_ids", idsValue ids)]
  | .stateLoaded nodes connections => [("nodes", .int nodes), ("connections", .int connections)]
  | .stateReset => []
  | .gridUpdated g => [("grid", g.toValue)]
  | .statusUpdated states => [("node_states", statesValue states)]
  | .statusStopped => [("node_states", .object [])]

def event (c : Change) : Event := ⟨c.topic, .text c.kind, c.payload⟩

end Change

end BehaviorTree
