import BehaviorTree.Graph.NodeType
import BehaviorTree.Tree.Hierarchy

/-!
Which connections may be added. Both ends must be nodes and different; the child must have no parent yet; the parent's type
must take one more child; and the connection must not close a cycle. Where the type of an end is unknown, the number of
children is not limited.
-/

set_option autoImplicit false

namespace BehaviorTree.EdgeRules

inductive Refusal where
  | unknownEnd
  | selfLoop
  | hasParent
  | takesNoChildren (type : String)
  | tooManyChildren (type : String) (limit : Int)
  | cycle
  deriving DecidableEq, Repr

def Refusal.message : Refusal → String
  | .unknownEnd => "Source or target node not found"
  | .selfLoop => "Cannot connect a node to itself"
  | .hasParent => "Target node already has a parent"
  | .takesNoChildren type => type ++ " nodes cannot have children"
  | .tooManyChildren type limit =>
    type ++ " nodes can have at most " ++ Value.intText limit ++ (if limit = 1 then " child" else " children")
  | .cycle => "Connection would create a cycle"

def parent? (connections : List Connection) (id : String) : Option String :=
  (connections.find? fun c => c.target = id).map Connection.source

def climbs (connections : List Connection) (target : String) : Nat → String → Bool
  | 0, _ => false
  | fuel + 1, id =>
    if id = target then true
    else
      match parent? connections id with
      | some p => climbs connections target fuel p
      | none => false

/-- Is the target an ancestor of the source, or the source itself? The way up meets at most one node more than there are
connections before it ends or repeats. -/
def wouldClose (source target : String) (connections : List Connection) : Bool :=
  climbs connections target (connections.length + 1) source

def checkLimit (type : NodeType) (children : Nat) : Except Refusal Unit :=
  match type.maxChildren with
  | none => .ok ()
  | some limit =>
    if limit = 0 then .error (.takesNoChildren type.name)
    else if limit ≤ children then .error (.tooManyChildren type.name limit)
    else .ok ()

def childCount (connections : List Connection) (id : String) : Nat :=
  connections.countP fun c => c.source = id

def checkTypes (lookup : String → String → Option NodeType) (source target : Node) (children : Nat) : Except Refusal Unit :=
  match lookup source.type source.category, lookup target.type target.category with
  | some type, some _ => checkLimit type children
  | _, _ => .ok ()

def check (nodes : List Node) (connections : List Connection) (lookup : String → String → Option NodeType)
    (source target : String) : Except Refusal Unit :=
  match Hierarchy.find? nodes source, Hierarchy.find? nodes target with
  | some s, some t =>
    if source = target then .error .selfLoop
    else if connections.any fun c => c.target = target then .error .hasParent
    else
      match checkTypes lookup s t (childCount connections source) with
      | .error r => .error r
      | .ok () => if wouldClose source target connections then .error .cycle else .ok ()
  | _, _ => .error .unknownEnd

def verdictMembers : Except Refusal Unit → Table Value
  | .ok () => [("valid", .bool true), ("reason", .text "")]
  | .error r => [("valid", .bool false), ("reason", .text r.message)]

def verdictValue (r : Except Refusal Unit) : Value := .object (verdictMembers r)

end BehaviorTree.EdgeRules
