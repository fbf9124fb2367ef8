import BehaviorTree.Schema.Record

/-!
Nodes and connections. A node has a type, a category, a display name, a position and named properties; a connection runs from
a parent to a child.
-/

set_option autoImplicit false

namespace BehaviorTree

structure Node where
  id : String
  type : String
  category : String
  name : String
  x : Float
  y : Float
  properties : Table Value

structure Connection where
  id : String
  source : String
  target : String
  deriving DecidableEq, Repr

def leafCategories : List String := ["action", "condition", "subtree"]

namespace Node

def isLeafCategory (n : Node) : Bool := leafCategories.contains n.category

def toMembers (n : Node) : Table Value :=
  [("id", .text n.id), ("type", .text n.type), ("category", .text n.category), ("name", .text n.name),
   ("x", .float n.x), ("y", .float n.y), ("properties", .object n.properties)]

def toValue (n : Node) : Value := .object n.toMembers

def ofMembers (ms : Table Value) : Schema.Checked Node :=
  let id := Schema.required ms "id" Schema.text
  let type := Schema.required ms "type" Schema.text
  let category := Schema.required ms "category" Schema.text
  let name := Schema.optional ms "name" "" Schema.text
  let x := Schema.optional ms "x" 0.0 Schema.float
  let y := Schema.optional ms "y" 0.0 Schema.float
  let properties := Schema.optional ms "properties" [] Schema.object
  match id, type, category, name, x, y, properties with
  | .ok id, .ok type, .ok category, .ok name, .ok x, .ok y, .ok properties =>
    .ok ⟨id, type, category, name, x, y, properties⟩
  | _, _, _, _, _, _, _ =>
    .error (id.problems ++ type.problems ++ category.problems ++ name.problems ++ x.problems ++ y.problems
      ++ properties.problems)

/-- Reads a node leniently: the name, the position and the properties may be left out. -/
def ofValue (v : Value) : Except Schema.Report Node :=
  ((Schema.members v).andThen ofMembers).report "Node"

def same (n m : Node) : Bool := n.toValue.same false m.toValue

end Node

namespace Connection

def toValue (c : Connection) : Value :=
  .object [("id", .text c.id), ("source", .text c.source), ("target", .text c.target)]

def ofMembers (read : Value → Schema.Checked String) (ms : Table Value) : Schema.Checked Connection :=
  let id := Schema.required ms "id" read
  let source := Schema.required ms "source" read
  let target := Schema.required ms "target" read
  match id, source, target with
  | .ok id, .ok source, .ok target => .ok ⟨id, source, target⟩
  | _, _, _ => .error (id.problems ++ source.problems ++ target.problems)

def ofValue (v : Value) : Except Schema.Report Connection :=
  ((Schema.members v).andThen (ofMembers Schema.text)).report "Connection"

def ofRow (v : Value) : Except Schema.Report Connection :=
  match v with
  | .list [id, source, target] => ofValue (.object [("id", id), ("source", source), ("target", target)])
  | v => ofValue v

end Connection

end BehaviorTree
