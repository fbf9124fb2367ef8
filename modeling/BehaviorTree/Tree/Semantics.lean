import BehaviorTree.Tree.Hierarchy

/-!
What makes a graph a behavior tree. It has nodes and a root, where asked no more than one, and every node without children is
an action, a condition or a subtree.
-/

set_option autoImplicit false

namespace BehaviorTree.Semantics

inductive Fault where
  | noNodes
  | noRoot
  | severalRoots (names : List String)
  | invalidLeaves (names : List String)
  deriving DecidableEq, Repr

def nameList (names : List String) : String := ", ".intercalate (names.map fun n => "\"" ++ n ++ "\"")

def Fault.message : Fault → String
  | .noNodes => "Error: the behavior tree contains no nodes."
  | .noRoot =>
    "Error: no root node found. A behavior tree must have exactly one root node; the connections may contain a cycle."
  | .severalRoots names =>
    "Error: found " ++ Value.intText names.length ++ " root nodes: " ++ nameList names ++ ". Only one root is allowed."
  | .invalidLeaves names =>
    "Error: found " ++ Value.intText names.length ++ " invalid leaf node(s): " ++ nameList names
      ++ ". Leaf nodes must be action, condition or subtree nodes."

def validMessage : String := "Behavior tree structure is valid."

def checkRoot (nodes : List Node) (connections : List Connection) (singleRoot : Bool) : Except Fault Unit :=
  if nodes.isEmpty then .error .noNodes
  else
    match Hierarchy.roots nodes connections with
    | [] => .error .noRoot
    | roots => if singleRoot && 1 < roots.length then .error (.severalRoots (roots.map Node.name)) else .ok ()

def invalidLeaves (nodes : List Node) (connections : List Connection) : List Node :=
  nodes.filter fun n => !(connections.map Connection.source).contains n.id && !n.isLeafCategory

def checkLeaves (nodes : List Node) (connections : List Connection) : Except Fault Unit :=
  match invalidLeaves nodes connections with
  | [] => .ok ()
  | leaves => .error (.invalidLeaves (leaves.map Node.name))

def check (nodes : List Node) (connections : List Connection) (singleRoot : Bool) : Except Fault Unit := do
  checkRoot nodes connections singleRoot
  checkLeaves nodes connections

/-- A verdict with its message; the message about a valid tree has to be said. -/
def verdictValue (valid : String) : Except Fault Unit → Value
  | .ok () => .object [("is_valid", .bool true), ("message", .text valid)]
  | .error f => .object [("is_valid", .bool false), ("message", .text f.message)]

end BehaviorTree.Semantics
