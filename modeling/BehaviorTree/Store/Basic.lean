import BehaviorTree.Events.Journal
import BehaviorTree.Graph.IdSequence

/-!
The store of nodes and connections. Nodes and connections are kept under their ids in the order in which they came; two
sequences issue new ids. Each change leaves a notice in the outbox, with the graph as it was seen at that moment.

What a reader is given is a copy. Copies matter only where one fails after a change has been made.
-/

set_option autoImplicit false

namespace BehaviorTree

structure Graph where
  nodes : Table Node := []
  connections : Table Connection := []

/-- A notification and the graph that its receivers see. -/
structure Notice where
  change : Change
  seen : Graph

structure Store where
  graph : Graph := {}
  nodeIds : IdSequence := .nodes
  connectionIds : IdSequence := .connections
  journal : Journal := {}
  outbox : List Notice := []
  /-- Can a copy of a node be handed out? Not if a property holds what cannot be copied, or lists too deep. -/
  isCopyable : Node → Bool := fun _ => true

namespace Graph

def nodeList (g : Graph) : List Node := Table.values g.nodes

def connectionList (g : Graph) : List Connection := Table.values g.connections

def node? (g : Graph) (id : String) : Option Node := Table.lookup g.nodes id

def connection? (g : Graph) (id : String) : Option Connection := Table.lookup g.connections id

def hasNode (g : Graph) (id : String) : Bool := Table.holds g.nodes id

def named? (g : Graph) (name : String) : Option Node := g.nodeList.find? fun n => n.name = name

def touching (g : Graph) (id : String) : List Connection :=
  g.connectionList.filter fun c => c.source = id || c.target = id

end Graph

namespace Store

def emit (s : Store) (c : Change) : Store :=
  { s with journal := s.journal.record c.event, outbox := s.outbox ++ [⟨c, s.graph⟩] }

def withNodes (s : Store) (nodes : Table Node) : Store := { s with graph := { s.graph with nodes := nodes } }

def withConnections (s : Store) (connections : Table Connection) : Store :=
  { s with graph := { s.graph with connections := connections } }

def settle (s : Store) : Store := { s with outbox := [] }

def toMembers (s : Store) : Table Value :=
  [("nodes", .list (s.graph.nodeList.map Node.toValue)), ("connections", .list (s.graph.connectionList.map Connection.toValue)),
    ("next_node_id", .int s.nodeIds.next), ("next_connection_id", .int s.connectionIds.next)]

end Store

end BehaviorTree
