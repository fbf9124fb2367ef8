import BehaviorTree.Session.Basic

/-!
Editing connections. A connection is made when the rules of trees allow it; a refusal is a result and no fault. The gesture of
two clicks joins the child side of one node with the parent side of another.
-/

set_option autoImplicit false

namespace BehaviorTree.Session

inductive Rejection where
  | rule (refusal : EdgeRules.Refusal)
  | nothingPending
  | sameNode
  | sameSide
  deriving DecidableEq, Repr

def Rejection.message : Rejection → String
  | .rule refusal => refusal.message
  | .nothingPending => "No pending connection"
  | .sameNode => "Cannot connect a node to itself"
  | .sameSide => "Cannot connect same port types"

def validateConnection (s : Session) (source target : String) : Except EdgeRules.Refusal Unit :=
  EdgeRules.check s.graph.nodeList s.graph.connectionList s.definition? source target

def connectionValue (r : Except Rejection String) : Value :=
  match r with
  | .ok id => .object [("ok", .bool true), ("connection_id", .text id), ("reason", .text "")]
  | .error e => .object [("ok", .bool false), ("connection_id", .null), ("reason", .text e.message)]

/-- Connects a parent with a child; the id of the connection, or why there is none. -/
def createConnection (s : Session) (source target : String) : Outcome (Except Rejection String) :=
  match s.validateConnection source target with
  | .error r => (.ok (.error (.rule r)), s)
  | .ok () =>
    match s.onStore s.store.issueConnectionId with
    | (.error e, s) => (.error e, s)
    | (.ok id, s) =>
      let (r, s) := s.onStore (s.store.addConnection ⟨id, source, target⟩)
      (r.map .ok, s)

def withSelectedConnection (s : Session) (c : Option String) : Session :=
  { s with selection := { s.selection with connection := c } }

def deleteConnection (s : Session) (id : String) : Bool × Session :=
  let (removed, store) := s.store.removeConnection id
  let s := { s with store := store }
  (removed, if removed && s.selection.connection = some id then s.withSelectedConnection none else s)

def selectConnection (s : Session) (id : String) : Outcome Unit :=
  match s.graph.connection? id with
  | none => (.error (.unknownConnection id), s)
  | some c => (.ok (), (s.withSelectedConnection (some id)).emit (.connectionSelected c))

def deselectConnection (s : Session) : Session :=
  match s.selection.connection with
  | none => s
  | some id => (s.withSelectedConnection none).emit (.connectionUnselected id)

def parentSide : String := "parent"

def childSide : String := "child"

def isSide (side : String) : Bool := side = parentSide || side = childSide

def startPending (s : Session) (node side : String) : Outcome Unit :=
  if !isSide side then (.error (.unknownSide side), s)
  else if !s.graph.hasNode node then (.error (.unknownNode node), s)
  else (.ok (), { s with pending := some ⟨node, side⟩ })

/-- The second click. The node whose child side was clicked becomes the parent. -/
def completePending (s : Session) (node side : String) : Outcome (Except Rejection String) :=
  match s.pending with
  | none => (.ok (.error .nothingPending), s)
  | some p =>
    let s := { s with pending := none }
    if node = p.node then (.ok (.error .sameNode), s)
    else if side = p.side then (.ok (.error .sameSide), s)
    else if p.side = childSide then s.createConnection p.node node
    else s.createConnection node p.node

def cancelPending (s : Session) : Session :=
  match s.pending with
  | none => s
  | some p => emit { s with pending := none } (.connectionCanceled p.node)

end BehaviorTree.Session
