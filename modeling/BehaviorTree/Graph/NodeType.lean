import BehaviorTree.Graph.Node

/-!
Node types. A type belongs to a category, which decides how many children its nodes take where the type does not say so
itself, and declares the properties a new node starts with.
-/

set_option autoImplicit false

namespace BehaviorTree

structure PropertyDef where
  name : String
  type : String
  default : Value
  description : String

structure NodeType where
  type : String
  name : String
  category : String
  /-- No limit when there is none. -/
  maxChildren : Option Int
  canBeChildless : Bool
  properties : List PropertyDef
  description : String
  builtin : Bool

/-- How many children the nodes of a category take, and whether they may have none. -/
structure ChildLimits where
  maxChildren : Option Int
  canBeChildless : Bool
  deriving DecidableEq, Repr

def ChildLimits.ofCategory (category : String) : ChildLimits :=
  if category = "composite" then ⟨none, false⟩
  else if category = "decorator" then ⟨some 1, false⟩
  else if leafCategories.contains category then ⟨some 0, true⟩
  else ⟨none, true⟩

def ChildLimits.toValue (l : ChildLimits) : Value :=
  .object [("maxChildren", match l.maxChildren with | some n => .int n | none => .null),
    ("canBeChildless", .bool l.canBeChildless)]

namespace PropertyDef

def toValue (p : PropertyDef) : Value :=
  .object [("name", .text p.name), ("type", .text p.type), ("default", p.default), ("description", .text p.description)]

def ofMembers (ms : Table Value) : Schema.Checked PropertyDef :=
  let name := Schema.required ms "name" Schema.text
  let type := Schema.optional ms "type" "string" Schema.text
  let default := Schema.optional ms "default" (.text "") Schema.anything
  let description := Schema.optional ms "description" "" Schema.text
  match name, type, default, description with
  | .ok name, .ok type, .ok default, .ok description => .ok ⟨name, type, default, description⟩
  | _, _, _, _ => .error (name.problems ++ type.problems ++ default.problems ++ description.problems)

def check (v : Value) : Schema.Checked PropertyDef := (Schema.members v).andThen ofMembers

end PropertyDef

namespace NodeType

/-- The properties of a new node; a property without default starts empty. -/
def defaultProperties (t : NodeType) : Table Value :=
  Table.ofRows (t.properties.map fun p => (p.name, match p.default with | .null => .text "" | v => v))

def toValue (t : NodeType) : Value :=
  .object [("type", .text t.type), ("name", .text t.name), ("category", .text t.category),
    ("maxChildren", match t.maxChildren with | some n => .int n | none => .null),
    ("canBeChildless", .bool t.canBeChildless), ("properties", .list (t.properties.map PropertyDef.toValue)),
    ("description", .text t.description), ("builtin", .bool t.builtin)]

def eitherName {α : Type} (ms : Table Value) (name other : String) (fallback : α) (read : Value → Schema.Checked α) :
    Schema.Checked α :=
  if Table.holds ms name then Schema.optional ms name fallback read else Schema.optional ms other fallback read

def childCount (v : Value) : Schema.Checked Int := .ofCause (Schema.atLeast 0 Schema.readInteger v.scalar?)

/-- The display name: the one given, or the type where none or an empty one is given. -/
def nameMember (ms : Table Value) : Value :=
  if (Value.member ms "name").isTruthy then Value.member ms "name" else (Table.lookup ms "type").getD (.text "")

def ofMembers (ms : Table Value) : Schema.Checked NodeType :=
  let limits := ChildLimits.ofCategory ((Value.member ms "category").text?.getD "")
  let type := Schema.required ms "type" Schema.text
  let name := (Schema.text (nameMember ms)).below (.member "name")
  let category := Schema.required ms "category" Schema.text
  let maxChildren := eitherName ms "maxChildren" "max_children" limits.maxChildren (Schema.nullable childCount)
  let canBeChildless := eitherName ms "canBeChildless" "can_be_childless" limits.canBeChildless Schema.boolean
  let properties := Schema.optional ms "properties" [] (Schema.listOf PropertyDef.check)
  let description := Schema.optional ms "description" "" Schema.text
  let builtin := Schema.optional ms "builtin" false Schema.boolean
  match type, name, category, maxChildren, canBeChildless, properties, description, builtin with
  | .ok type, .ok name, .ok category, .ok maxChildren, .ok canBeChildless, .ok properties, .ok description, .ok builtin =>
    .ok ⟨type, name, category, maxChildren, canBeChildless, properties, description, builtin⟩
  | _, _, _, _, _, _, _, _ =>
    .error (type.problems ++ name.problems ++ category.problems ++ maxChildren.problems ++ canBeChildless.problems
      ++ properties.problems ++ description.problems ++ builtin.problems)

def check (v : Value) : Schema.Checked NodeType := (Schema.members v).andThen ofMembers

def ofValue (v : Value) : Except Schema.Report NodeType := (check v).report "NodeTypeDef"

def categoryKeyword (category : String) : String :=
  if category = "composite" then "Composite"
  else if category = "decorator" then "Decorator"
  else if category = "action" then "Action"
  else if category = "condition" then "Condition"
  else "SubTree"

end NodeType

end BehaviorTree
