import BehaviorTree.Session.Nodes
import BehaviorTree.Value.Order

/-!
Selecting nodes, one by one or with a box. Only stored nodes can be selected, each once; every change is made known.
-/

set_option autoImplicit false

namespace BehaviorTree.Session

def setSelected (s : Session) (ids : List String) : Session :=
  emit { s with selection := { s.selection with nodes := ids } } (.selectionChanged ids)

def selectNode (s : Session) (id : String) (add : Bool) : Outcome Unit :=
  if !s.graph.hasNode id then (.error (.unknownNode id), s)
  else
    let others := if add then s.selection.nodes else []
    (.ok (), s.setSelected (if others.contains id then others else others ++ [id]))

def selectNodes (s : Session) (ids : List String) : Session := s.setSelected (ids.eraseDups.filter s.graph.hasNode)

def selectAllNodes (s : Session) : Session := s.selectNodes (s.graph.nodeList.map Node.id)

def deselectNode (s : Session) (id : String) : Session :=
  if s.selection.nodes.contains id then s.setSelected (s.selection.nodes.erase id) else s

def clearSelection (s : Session) : Session := s.setSelected []

def deleteSelectedNodes (s : Session) : Nat × Session :=
  match s.selection.nodes with
  | [] => (0, s)
  | ids =>
    let (count, s) := s.deleteNodes ids
    (count, s.clearSelection)

def startBox (s : Session) (x y : Value) : Session := { s with box := ⟨true, x, y, x, y⟩ }

def updateBox (s : Session) (x y : Value) : Session :=
  if s.box.active then { s with box := { s.box with endX := x, endY := y } } else s

structure Sides where
  left : Value
  top : Value
  right : Value
  bottom : Value

def sides (b : SelectionBox) : Except NumberFault Sides := do
  return ⟨← b.startX.smaller b.endX, ← b.startY.smaller b.endY, ← b.startX.larger b.endX, ← b.startY.larger b.endY⟩

/-- Does an interval of the canvas meet the interval between two sides? The second side is looked at only if need be. -/
def meets (low high : Value) (x size : Float) : Except NumberFault Bool := do
  if ← (Value.float x).less high then low.less (.float (x + size)) else return false

def isHit (o : Layout.Options Float) (b : Sides) (n : Node) : Except NumberFault Bool := do
  if ← meets b.left b.right n.x o.nodeWidth then meets b.top b.bottom n.y o.nodeHeight else return false

def hits (s : Session) (b : SelectionBox) : Except NumberFault (List String) := do
  let b ← sides b
  return (← s.graph.nodeList.filterM (isHit s.config.layout b)).map Node.id

/-- Closes the box and selects what it meets, besides the present selection where asked. -/
def endBox (s : Session) (add : Bool) : Outcome (List String) :=
  if !s.box.active then (.ok s.selection.nodes, s)
  else
    let s := { s with box := { s.box with active := false } }
    match s.hits s.box with
    | .error e => (.error (.number e), s)
    | .ok ids =>
      let s := s.selectNodes ((if add then s.selection.nodes else []) ++ ids)
      (.ok s.selection.nodes, s)

end BehaviorTree.Session
