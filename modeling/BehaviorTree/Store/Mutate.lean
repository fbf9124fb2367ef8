import BehaviorTree.Store.Basic
import BehaviorTree.Store.Merge

/-!
Changes of the store. Every operation checks before it writes, and gives back the store whether it fails or not. Only the copy of
a changed node is made last, when the node is stored already. No connection is ever left without its ends.
-/

set_option autoImplicit false

namespace BehaviorTree

namespace Store

inductive Fault where
  | duplicateNode (id : String)
  | duplicateConnection (id : String)
  | unknownEnds (connection : String) (ids : List String)
  | danglingConnection (connection : String)
  | unknownNode (id : String)
  | merge (fault : Merge.Fault)
  | number (fault : NumberFault)
  /-- The number of a new id has too many digits to be written. -/
  | exhausted
  /-- A list or an object is given where an id is needed. -/
  | unusableId
  | uncopyable (id : String)
  | arguments

def Fault.message : Fault → String
  | .duplicateNode id => "Duplicate node id '" ++ id ++ "'"
  | .duplicateConnection id => "Duplicate connection id '" ++ id ++ "'"
  | .unknownEnds connection ids => "Connection '" ++ connection ++ "' references unknown nodes: " ++ Text.quotedList ids
  | .danglingConnection connection => "Connection '" ++ connection ++ "' references unknown nodes"
  | .unknownNode id => id
  | .merge fault => fault.message
  | .number fault => fault.message
  | .exhausted => Decimal.limitMessage ++ Decimal.limitAdvice
  | .unusableId => "the id cannot name a node"
  | .uncopyable id => "the node " ++ id ++ " cannot be copied"
  | .arguments => "the operation does not take such arguments"

abbrev Outcome (α : Type) := Except Fault α × Store

def issued (ids : IdSequence) : Except Fault String := if ids.isExhausted then .error .exhausted else .ok ids.issue.1

def issueNodeId (s : Store) : Outcome String := (issued s.nodeIds, { s with nodeIds := s.nodeIds.issue.2 })

def issueConnectionId (s : Store) : Outcome String :=
  (issued s.connectionIds, { s with connectionIds := s.connectionIds.issue.2 })

def addNode (s : Store) (n : Node) : Outcome String :=
  if s.graph.hasNode n.id then (.error (.duplicateNode n.id), s)
  else (.ok n.id, (s.withNodes (Table.insert s.graph.nodes n.id n)).emit (.nodeCreated n))

def removeConnection (s : Store) (id : String) : Bool × Store :=
  match s.graph.connection? id with
  | none => (false, s)
  | some c => (true, (s.withConnections (Table.erase s.graph.connections id)).emit (.connectionDeleted c))

def removeConnections (s : Store) : List String → Store
  | [] => s
  | id :: r => removeConnections (s.removeConnection id).2 r

def removeNode (s : Store) (id : String) : Bool × Store :=
  match s.graph.node? id with
  | none => (false, s)
  | some n =>
    let s := s.removeConnections ((s.graph.touching id).map Connection.id)
    (true, (s.withNodes (Table.erase s.graph.nodes id)).emit (.nodeDeleted n))

def handedOut (s : Store) (n : Node) : Except Fault Node := if s.isCopyable n then .ok n else .error (.uncopyable n.id)

def updateNode (s : Store) (id : String) (updates : Table Value) : Outcome Node :=
  match s.graph.node? id with
  | none => (.error (.unknownNode id), s)
  | some n =>
    match Merge.node n updates with
    | .error e => (.error (.merge e), s)
    | .ok n => (s.handedOut n, (s.withNodes (Table.insert s.graph.nodes id n)).emit (.nodeUpdated n updates))

def updateNodeWith (s : Store) (id : String) (updates : Value) : Outcome Node :=
  match s.graph.node? id with
  | none => (.error (.unknownNode id), s)
  | some _ =>
    match Merge.updates updates with
    | .error e => (.error (.merge e), s)
    | .ok updates => s.updateNode id updates

def placed (n : Node) (x y : Value) : Except NumberFault Node := do
  return { n with x := ← x.toFloat, y := ← y.toFloat }

def moveNode (s : Store) (id : String) (x y : Value) : Outcome Node :=
  match s.graph.node? id with
  | none => (.error (.unknownNode id), s)
  | some n =>
    match placed n x y with
    | .error e => (.error (.number e), s)
    | .ok n => (s.handedOut n, (s.withNodes (Table.insert s.graph.nodes id n)).emit (.nodeMoved n))

def base? (g : Graph) (staged : Table Node) (id : String) : Option Node := (Table.lookup staged id).or (g.node? id)

/-- Merges updates one after the other; those for unknown nodes are passed over. -/
def stage (g : Graph) (staged : Table Node) : List (Table Value) → Except Fault (Table Node)
  | [] => .ok staged
  | u :: r =>
    match Value.member u "id" with
    | .text id =>
      match base? g staged id with
      | none => stage g staged r
      | some n =>
        match Merge.node n (Table.erase u "id") with
        | .error e => .error (.merge e)
        | .ok n => stage g (Table.insert staged id n) r
    | v => if v.scalar?.isSome then stage g staged r else .error .unusableId

def updateNodes (s : Store) (updates : List (Table Value)) : Outcome (List String) :=
  match stage s.graph [] updates with
  | .error e => (.error e, s)
  | .ok [] => (.ok [], s)
  | .ok staged =>
    (.ok (Table.keys staged),
      (s.withNodes (Table.overlay s.graph.nodes staged)).emit (.nodesUpdated (Table.keys staged)))

/-- Applies several updates of any form; the first that cannot be read or merged ends it. -/
def updateNodesWith (s : Store) (updates : Value) : Outcome (List String) :=
  match updates.parts?.map Merge.readAll with
  | none => (.error (.merge .noMembers), s)
  | some (us, none) => s.updateNodes us
  | some (us, some e) => (.error (match stage s.graph [] us with | .error first => first | .ok _ => .merge e), s)

def addConnection (s : Store) (c : Connection) : Outcome String :=
  if Table.holds s.graph.connections c.id then (.error (.duplicateConnection c.id), s)
  else
    match [c.source, c.target].filter fun id => !s.graph.hasNode id with
    | [] => (.ok c.id, (s.withConnections (Table.insert s.graph.connections c.id c)).emit (.connectionCreated c))
    | missing => (.error (.unknownEnds c.id missing), s)

def nodeTable (t : Table Node) : List Node → Except Fault (Table Node)
  | [] => .ok t
  | n :: r => if Table.holds t n.id then .error (.duplicateNode n.id) else nodeTable (Table.insert t n.id n) r

/-- The table of connections, none of which may come twice or lack an end. -/
def connectionTable (nodes : Table Node) (t : Table Connection) : List Connection → Except Fault (Table Connection)
  | [] => .ok t
  | c :: r =>
    if Table.holds t c.id then .error (.duplicateConnection c.id)
    else if !Table.holds nodes c.source || !Table.holds nodes c.target then .error (.danglingConnection c.id)
    else connectionTable nodes (Table.insert t c.id c) r

def graphOf (nodes : List Node) (connections : List Connection) : Except Fault Graph := do
  let ns ← nodeTable [] nodes
  let cs ← connectionTable ns [] connections
  return ⟨ns, cs⟩

def load (s : Store) (nodes : List Node) (connections : List Connection) (nextNode nextConnection : Int) (notify : Bool) :
    Outcome Unit :=
  match graphOf nodes connections with
  | .error e => (.error e, s)
  | .ok g =>
    let s := { s with
      graph := g
      nodeIds := { s.nodeIds with next := nextNode }
      connectionIds := { s.connectionIds with next := nextConnection } }
    (.ok (), if notify then s.emit (.stateLoaded g.nodes.length g.connections.length) else s)

def clear (s : Store) (notify : Bool) : Store :=
  let s := { s with
    graph := {}
    nodeIds := { s.nodeIds with next := 0 }
    connectionIds := { s.connectionIds with next := 0 } }
  if notify then s.emit .stateReset else s

end Store

end BehaviorTree
