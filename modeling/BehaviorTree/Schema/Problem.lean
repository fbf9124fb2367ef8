import BehaviorTree.Value.Written

/-!
Problems of data that should follow a schema. A report lists every problem with the place it was found at, in the order in
which the schema declares its fields.
-/

set_option autoImplicit false

namespace BehaviorTree.Schema

inductive Step where
  | member (name : String)
  | element (index : Int)
  deriving DecidableEq, Repr

/-- The step to a whole number as a key; one beyond 64 bits is written out. -/
def Step.ofInt (i : Int) : Step :=
  if -9223372036854775808 ≤ i ∧ i ≤ 9223372036854775807 then .element i else .member (Value.intText i)

inductive Cause where
  | missing
  | notText
  | notUnicode
  | notInteger
  | unreadableInteger
  | integerTooLarge
  | fractional
  | notFloat
  | unreadableFloat
  | notFinite
  | notBoolean
  | unreadableBoolean
  | notList
  | notObject
  | notRecord
  | notPositive
  | belowMinimum
  | refused (message : String)
  deriving DecidableEq, Repr

def Cause.code : Cause → String
  | .missing => "missing"
  | .notText => "string_type"
  | .notUnicode => "string_unicode"
  | .notInteger => "int_type"
  | .unreadableInteger => "int_parsing"
  | .integerTooLarge => "int_parsing_size"
  | .fractional => "int_from_float"
  | .notFloat => "float_type"
  | .unreadableFloat => "float_parsing"
  | .notFinite => "finite_number"
  | .notBoolean => "bool_type"
  | .unreadableBoolean => "bool_parsing"
  | .notList => "list_type"
  | .notObject => "dict_type"
  | .notRecord => "model_type"
  | .notPositive => "greater_than"
  | .belowMinimum => "greater_than_equal"
  | .refused _ => "value_error"

structure Problem where
  place : List Step
  cause : Cause
  deriving DecidableEq, Repr

def Step.toValue : Step → Value
  | .member name => .text name
  | .element index => .int index

/-- The place and the code of a problem; where data is refused, also why. -/
def Problem.toValue (p : Problem) : Value :=
  .object ([("loc", .list (p.place.map Step.toValue)), ("type", .text p.cause.code)] ++
    match p.cause with
    | .refused message => [("msg", .text ("Value error, " ++ message))]
    | _ => [])

structure Report where
  schema : String
  problems : List Problem
  deriving DecidableEq, Repr

def Report.headline (r : Report) : String :=
  Value.intText r.problems.length ++
    (if r.problems.length = 1 then " validation error for " else " validation errors for ") ++ r.schema

abbrev Checked (α : Type) := Except (List Problem) α

namespace Checked

variable {α : Type}

def problems : Checked α → List Problem
  | .ok _ => []
  | .error ps => ps

def fail (cause : Cause) : Checked α := .error [⟨[], cause⟩]

def ofCause : Except Cause α → Checked α
  | .ok a => .ok a
  | .error c => fail c

def below (c : Checked α) (step : Step) : Checked α :=
  match c with
  | .ok a => .ok a
  | .error ps => .error (ps.map fun p => ⟨step :: p.place, p.cause⟩)

def all : List (Checked α) → Checked (List α)
  | [] => .ok []
  | .ok a :: r =>
    match all r with
    | .ok as => .ok (a :: as)
    | .error ps => .error ps
  | .error ps :: r => .error (ps ++ (all r).problems)

def andThen {β : Type} (c : Checked α) (f : α → Checked β) : Checked β :=
  match c with
  | .ok a => f a
  | .error ps => .error ps

def report (c : Checked α) (schema : String) : Except Report α :=
  match c with
  | .ok a => .ok a
  | .error ps => .error ⟨schema, ps⟩

end Checked

end BehaviorTree.Schema
