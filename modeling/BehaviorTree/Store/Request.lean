import BehaviorTree.Store.Mutate

/-!
Requests to the store. A request names an operation and gives its arguments as values of any kind; the answer is a value. Where an
id is asked for, only a text names anything, and by a list or an object nothing can be looked up.
-/

set_option autoImplicit false

namespace BehaviorTree.Store

def operations : Table (Nat × Nat) :=
  [("get_nodes", 0, 0), ("get_connections", 0, 0), ("get_node", 1, 1), ("get_connection", 1, 1), ("has_node", 1, 1),
    ("find_node_by_name", 1, 1), ("connections_of", 1, 1), ("next_node_id", 0, 0), ("next_connection_id", 0, 0),
    ("add_node", 1, 1), ("remove_node", 1, 1), ("update_node", 2, 2), ("move_node", 3, 3), ("batch_update_nodes", 1, 1),
    ("add_connection", 1, 1), ("remove_connection", 1, 1), ("load", 2, 5), ("clear", 0, 1), ("len", 0, 0), ("stats", 0, 0)]

def takes (operations : Table (Nat × Nat)) (name : String) (count : Nat) : Bool :=
  match Table.lookup operations name with
  | some (least, most) => least ≤ count && count ≤ most
  | none => false

def orNull {α : Type} (encode : α → Value) (a : Option α) : Value := (a.map encode).getD .null

def nodesValue (ns : List Node) : Value := .list (ns.map Node.toValue)

def connectionsValue (cs : List Connection) : Value := .list (cs.map Connection.toValue)

def answered {α : Type} (encode : α → Value) (r : Outcome α) : Outcome Value := (r.1.map encode, r.2)

def withId (s : Store) (id : Value) (absent : Except Fault Value) (act : String → Outcome Value) : Outcome Value :=
  match id.key with
  | .text id => act id
  | .unmatched => (absent, s)
  | .unusable => (.error .unusableId, s)

def nodeOf (v : Value) : Except Fault Node := (Node.ofValue v).mapError fun r => .merge (.invalid r)

def connectionOf (v : Value) : Except Fault Connection := (Connection.ofRow v).mapError fun r => .merge (.invalid r)

def eachPart {α : Type} (read : Value → Except Fault α) (v : Value) : Except Fault (List α) :=
  match v.parts? with
  | some vs => vs.mapM read
  | none => .error .arguments

def loadValues (s : Store) (nodes connections nextNode nextConnection : Value) (notify : Bool) : Outcome Unit :=
  match eachPart nodeOf nodes, eachPart connectionOf connections with
  | .error e, _ => (.error e, s)
  | _, .error e => (.error e, s)
  | .ok ns, .ok cs => s.load ns cs nextNode.count nextConnection.count notify

/-- Carries out an operation with its arguments; those that may be left out are null. -/
def perform (s : Store) (name : String) (a b c : Value) (more : List Value) : Outcome Value :=
  let keep (v : Value) : Outcome Value := (.ok v, s)
  let yes (r : Bool × Store) : Outcome Value := (.ok (.bool r.1), r.2)
  let unknown : Except Fault Value := .error (.unknownNode a.written)
  match name with
  | "get_nodes" => keep (nodesValue s.graph.nodeList)
  | "get_connections" => keep (connectionsValue s.graph.connectionList)
  | "get_node" => s.withId a (.ok .null) fun id => keep (orNull Node.toValue (s.graph.node? id))
  | "get_connection" => s.withId a (.ok .null) fun id => keep (orNull Connection.toValue (s.graph.connection? id))
  | "has_node" => s.withId a (.ok (.bool false)) fun id => keep (.bool (s.graph.hasNode id))
  | "find_node_by_name" => keep (orNull Node.toValue (a.text?.bind s.graph.named?))
  | "connections_of" => keep (connectionsValue ((a.text?.map s.graph.touching).getD []))
  | "next_node_id" => answered .text s.issueNodeId
  | "next_connection_id" => answered .text s.issueConnectionId
  | "add_node" =>
    match nodeOf a with
    | .error e => (.error e, s)
    | .ok n => answered .text (s.addNode n)
  | "remove_node" => s.withId a (.ok (.bool false)) fun id => yes (s.removeNode id)
  | "update_node" => s.withId a unknown fun id => answered Node.toValue (s.updateNodeWith id b)
  | "move_node" => s.withId a unknown fun id => answered Node.toValue (s.moveNode id b c)
  | "batch_update_nodes" => answered Change.idsValue (s.updateNodesWith a)
  | "add_connection" =>
    match connectionOf a with
    | .error e => (.error e, s)
    | .ok c => answered .text (s.addConnection c)
  | "remove_connection" => s.withId a (.ok (.bool false)) fun id => yes (s.removeConnection id)
  | "load" => answered (fun _ => .null) (s.loadValues a b c (more.getD 0 .null) ((more[1]?.map Value.isTruthy).getD true))
  | "clear" => (.ok .null, s.clear a.isTruthy)
  | "len" => keep (.int s.graph.nodes.length)
  | _ => keep s.journal.toValue

def request (s : Store) (name : String) (arguments : List Value) : Outcome Value :=
  if takes operations name arguments.length then
    let a := arguments.getD 0 (if name = "clear" then .bool true else .null)
    s.perform name a (arguments.getD 1 .null) (arguments.getD 2 .null) (arguments.drop 3)
  else (.error .arguments, s)

end BehaviorTree.Store
