import BehaviorTree.Session.Basic

/-!
Editing nodes: creating, deleting, cloning, changing and aligning them. Coordinates go to the grid first.
-/

set_option autoImplicit false

namespace BehaviorTree.Session

def newMembers (id : String) (type category name x y : Value) (d : NodeType) : Table Value :=
  [("id", .text id), ("type", type), ("category", category),
    ("name", if name.isTruthy then name else if d.name.isEmpty then type else .text d.name),
    ("x", x), ("y", y), ("properties", .object d.defaultProperties)]

def definitionOf (s : Session) (type category : Value) : Except Fault (Option NodeType) :=
  (s.catalog.findBy? s.customTypes type category).mapError .catalog

def newNode (g : GridSettings) (id : String) (type category x y name : Value) (d : NodeType) : Except Fault Node := do
  let x ← (g.snapValue x).mapError .number
  let y ← (g.snapValue y).mapError .number
  ((Node.ofMembers (newMembers id type category name x y d)).report "Node").mapError .invalid

/-- Creates a node with the default properties of its type. Its id is issued before anything else can fail. -/
def createNode (s : Session) (type category x y name : Value) : Outcome String :=
  match s.definitionOf type category with
  | .error e => (.error e, s)
  | .ok none => (.error (.unknownType type category), s)
  | .ok (some d) =>
    match s.onStore s.store.issueNodeId with
    | (.error e, s) => (.error e, s)
    | (.ok id, s) =>
      match newNode s.grid id type category x y name d with
      | .error e => (.error e, s)
      | .ok n => s.onStore (s.store.addNode n)

/-- Drops what the transient state knows of a node that is gone. A selected connection goes with it, unless its id is empty. -/
def forget (s : Session) (id : String) : Session :=
  { s with
    selection := {
      nodes := s.selection.nodes.erase id
      connection := s.selection.connection.filter fun c => c.isEmpty || (s.graph.connection? c).isSome }
    pending := s.pending.filter fun p => p.node ≠ id
    monitor := { s.monitor with states := Table.erase s.monitor.states id } }

def deleteNode (s : Session) (id : String) : Bool × Session :=
  let (removed, store) := s.store.removeNode id
  let s := { s with store := store }
  (removed, if removed then s.forget id else s)

/-- Deletes nodes one after the other; the number of those that were there. -/
def deleteNodes (s : Session) : List String → Nat × Session
  | [] => (0, s)
  | id :: r =>
    let (removed, s) := s.deleteNode id
    let (count, s) := deleteNodes s r
    (if removed then count + 1 else count, s)

def cloneOffset : Value := .float 50.0

def shifted (g : GridSettings) (x : Float) (offset : Value) : Except NumberFault Float :=
  match offset.number? with
  | none => .error .wrongKind
  | some n => do g.snapFloat (x + (← n.toFloat))

def cloneOf (g : GridSettings) (n : Node) (id : String) (offsetX offsetY : Value) : Except NumberFault Node := do
  let x ← shifted g n.x offsetX
  let y ← shifted g n.y offsetY
  return { n with id := id, name := n.name ++ " (copy)", x := x, y := y }

def cloneNode (s : Session) (id : String) (offsetX offsetY : Value) : Outcome (Option String) :=
  match s.graph.node? id with
  | none => (.ok none, s)
  | some n =>
    match s.onStore s.store.issueNodeId with
    | (.error e, s) => (.error e, s)
    | (.ok new, s) =>
      match cloneOf s.grid n new offsetX offsetY with
      | .error e => (.error (.number e), s)
      | .ok n =>
        let (r, s) := s.onStore (s.store.addNode n)
        (r.map some, s)

/-- Clones nodes one after the other and notes which clone belongs to which node. -/
def cloneEach (s : Session) (offsetX offsetY : Value) (clones : Table String) : List String → Outcome (Table String)
  | [] => (.ok clones, s)
  | id :: r =>
    match s.cloneNode id offsetX offsetY with
    | (.error e, s) => (.error e, s)
    | (.ok none, s) => cloneEach s offsetX offsetY clones r
    | (.ok (some new), s) => cloneEach s offsetX offsetY (Table.insert clones id new) r

def cloneConnections (s : Session) (clones : Table String) : List Connection → Outcome Unit
  | [] => (.ok (), s)
  | c :: r =>
    match Table.lookup clones c.source, Table.lookup clones c.target with
    | some source, some target =>
      match s.onStore s.store.issueConnectionId with
      | (.error e, s) => (.error e, s)
      | (.ok id, s) =>
        match s.onStore (s.store.addConnection ⟨id, source, target⟩) with
        | (.error e, s) => (.error e, s)
        | (.ok _, s) => cloneConnections s clones r
    | _, _ => cloneConnections s clones r

def cloneNodes (s : Session) (ids : List String) (offsetX offsetY : Value) : Outcome (List String) :=
  match s.cloneEach offsetX offsetY [] ids with
  | (.error e, s) => (.error e, s)
  | (.ok clones, s) =>
    match s.cloneConnections clones s.graph.connectionList with
    | (.error e, s) => (.error e, s)
    | (.ok (), s) => (.ok (Table.values clones), s)

def cloneSelectedNodes (s : Session) : Outcome (List String) := s.cloneNodes s.selection.nodes cloneOffset cloneOffset

/-- Rows as an object; rows whose keys are not all texts stay a list of pairs. -/
def propertyValue (rows : List (Value × Value)) : Value :=
  match rows.mapM fun r => r.1.text?.map fun k => (k, r.2) with
  | some ms => .object (Table.ofRows ms)
  | none => .list (rows.map fun r => .list [r.1, r.2])

def propertiesOf (properties : Value) : Except Fault Value :=
  ((Merge.rows properties).mapError .properties).map propertyValue

def updateNodeProperties (s : Session) (id : String) (properties : Value) : Outcome Node :=
  match propertiesOf properties with
  | .error e => (.error e, s)
  | .ok v => s.onStore (s.store.updateNode id [("properties", v)])

def renameNode (s : Session) (id : String) (name : Value) : Outcome Node :=
  s.onStore (s.store.updateNode id [("name", name)])

def snapped (g : GridSettings) (x y : Value) : Except NumberFault (Value × Value) := do
  return (← g.snapValue x, ← g.snapValue y)

def moveNode (s : Session) (id : String) (x y : Value) : Outcome Node :=
  match snapped s.grid x y with
  | .error e => (.error (.number e), s)
  | .ok (x, y) => s.onStore (s.store.moveNode id x y)

inductive Alignment where
  | left
  | center
  | right
  | top
  | middle
  | bottom
  deriving DecidableEq, Repr

namespace Alignment

def ofName? (name : String) : Option Alignment :=
  if name = "left" then some .left
  else if name = "center" then some .center
  else if name = "right" then some .right
  else if name = "top" then some .top
  else if name = "middle" then some .middle
  else if name = "bottom" then some .bottom
  else none

def isHorizontal : Alignment → Bool
  | .left => true
  | .center => true
  | .right => true
  | _ => false

def least : List Float → Float
  | [] => 0.0
  | x :: r => r.foldl (fun a b => if b < a then b else a) x

def greatest : List Float → Float
  | [] => 0.0
  | x :: r => r.foldl (fun a b => if b > a then b else a) x

def mean (xs : List Float) : Float := xs.foldl (· + ·) 0.0 / Float.ofNat xs.length

def target (a : Alignment) (size : Float) (xs : List Float) : Float :=
  match a with
  | .left => least xs
  | .top => least xs
  | .center => mean (xs.map (· + size / 2.0)) - size / 2.0
  | .middle => mean (xs.map (· + size / 2.0)) - size / 2.0
  | .right => greatest (xs.map (· + size)) - size
  | .bottom => greatest (xs.map (· + size)) - size

end Alignment

def alignUpdate (a : Alignment) (x : Float) (n : Node) : Table Value :=
  [("id", .text n.id), (if a.isHorizontal then "x" else "y", .float x)]

def align (s : Session) (a : Alignment) (nodes : List Node) : Outcome (List String) :=
  let o := s.config.layout
  let x :=
    if a.isHorizontal then a.target o.nodeWidth (nodes.map Node.x)
    else a.target o.nodeHeight (nodes.map Node.y)
  match s.grid.snapFloat x with
  | .error e => (.error (.number e), s)
  | .ok x => s.onStore (s.store.updateNodes (nodes.map (alignUpdate a x)))

def alignSelectedNodes (s : Session) (how : String) : Outcome (List String) :=
  let nodes := s.selection.nodes.filterMap s.graph.node?
  if nodes.length < 2 then (.ok [], s)
  else
    match Alignment.ofName? how with
    | none => (.error (.alignment how), s)
    | some a => s.align a nodes

def addCustomType (s : Session) (definition : Value) : Outcome NodeType :=
  match NodeType.ofValue definition with
  | .error r => (.error (.invalid r), s)
  | .ok t =>
    if t.type.isEmpty || t.category.isEmpty then (.error .typeIncomplete, s)
    else if s.catalog.isRegistered t.type || s.customTypes.any (·.type = t.type) then (.error (.typeExists t.type), s)
    else
      let t := { t with builtin := false }
      (.ok t, emit { s with customTypes := s.customTypes ++ [t] } (.typeAdded t))

def removeCustomType (s : Session) (type : String) : Bool × Session :=
  match s.customTypes.find? fun t => t.type = type with
  | none => (false, s)
  | some t =>
    let doomed := (s.graph.nodeList.filter fun n => n.type = type).map Node.id
    let s := (s.deleteNodes doomed).2
    (true, emit { s with customTypes := s.customTypes.eraseP fun t => t.type = type } (.typeRemoved t))

end BehaviorTree.Session
