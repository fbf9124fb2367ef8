import BehaviorTree.Graph.Node
import BehaviorTree.Text.Split
import BehaviorTree.Value.Order

/-!
Updates of a node. Fields are replaced, properties are laid over the present ones; the id and the category stay. The result is
read anew, so that an update may give a number as text but not a name as a number.
-/

set_option autoImplicit false

namespace BehaviorTree

namespace Merge

inductive Fault where
  | immutable (field id : String)
  | invalid (report : Schema.Report)
  /-- The properties, or the updates, are of a kind that has no members. -/
  | noMembers
  | elements
  | noPair (index length : Nat)

def Fault.message : Fault → String
  | .immutable field id => "Node field '" ++ field ++ "' is immutable (node " ++ id ++ ")"
  | .invalid report => report.headline
  | .noMembers => "there are no members"
  | .elements => "the updates are no object"
  | .noPair index length =>
    "dictionary update sequence element #" ++ Value.intText index ++ " has length " ++ Value.intText length
      ++ "; 2 is required"

def pair (index : Nat) (v : Value) : Except Fault (Value × Value) :=
  match v.parts? with
  | none => .error .noMembers
  | some [k, a] => if k.scalar?.isSome then .ok (k, a) else .error .noMembers
  | some ps => .error (.noPair index ps.length)

def pairs (index : Nat) : List Value → Except Fault (List (Value × Value))
  | [] => .ok []
  | v :: r => do return (← pair index v) :: (← pairs (index + 1) r)

def rows : Value → Except Fault (List (Value × Value))
  | .object ms => .ok (ms.map fun m => (.text m.1, m.2))
  | v => (v.parts?.map (pairs 0)).getD (.error .noMembers)

/-- Writes a row; a key that is present already keeps its place and its form. -/
def insertRow (k v : Value) : List (Value × Value) → List (Value × Value)
  | [] => [(k, v)]
  | (j, u) :: r => if j.alike k then (j, v) :: r else (j, u) :: insertRow k v r

def distinctRows (rows : List (Value × Value)) : List (Value × Value) := rows.foldl (fun t r => insertRow r.1 r.2 t) []

def keyStep : Value → Schema.Step
  | .int i => .ofInt i
  | .bool b => .element (if b then 1 else 0)
  | v => .member v.written

/-- The properties laid over others; a key that is not text is a problem. -/
def overlay (base : Table Value) : List (Value × Value) → Table Value × List Schema.Problem
  | [] => (base, [])
  | (k, v) :: r =>
    match Schema.readText k.scalar? with
    | .ok name => overlay (Table.insert base name v) r
    | .error cause =>
      let (t, problems) := overlay base r
      (t, ⟨[.member "properties", keyStep k, .member "[key]"], cause⟩ :: problems)

def properties (n : Node) (updates : Table Value) : Except Fault (Table Value × List Schema.Problem) :=
  match Table.lookup updates "properties" with
  | none => .ok (n.properties, [])
  | some v => if v.isTruthy then (rows v).map fun rs => overlay n.properties (distinctRows rs) else .ok (n.properties, [])

def fixedFields : List String := ["id", "category"]

/-- Updates given as a value: the members of an object. Elements and characters are first searched for the fixed fields, and none
of them can be looked up there. -/
def updates : Value → Except Fault (Table Value)
  | .object ms => .ok ms
  | .list vs => .error (if fixedFields.any fun f => vs.any fun v => v.text? == some f then .noMembers else .elements)
  | .text s => .error (if fixedFields.any fun f => Text.holds f.toList s.toList then .noMembers else .elements)
  | _ => .error .noMembers

/-- One of several updates, given as an object or as rows; rows whose key is not text name no field. -/
def ofRows (v : Value) : Except Fault (Table Value) :=
  (rows v).map fun rs => Table.ofRows (rs.filterMap fun r => r.1.text?.map fun k => (k, r.2))

/-- The updates up to the first that cannot be read, and the fault of that one. -/
def readAll : List Value → List (Table Value) × Option Fault
  | [] => ([], none)
  | v :: r =>
    match ofRows v with
    | .error e => ([], some e)
    | .ok u => (u :: (readAll r).1, (readAll r).2)

def keeps (updates : Table Value) (field current : String) : Bool :=
  updates.all fun u => u.1 ≠ field || u.2.text? == some current

def node (n : Node) (updates : Table Value) : Except Fault Node :=
  if !keeps updates "id" n.id then .error (.immutable "id" n.id)
  else if !keeps updates "category" n.category then .error (.immutable "category" n.id)
  else
    match properties n updates with
    | .error e => .error e
    | .ok (properties, problems) =>
      let members := Table.insert (Table.overlay n.toMembers updates) "properties" (.object properties)
      match Node.ofMembers members, problems with
      | .ok merged, [] => .ok merged
      | checked, problems => .error (.invalid ⟨"Node", checked.problems ++ problems⟩)

end Merge

end BehaviorTree
