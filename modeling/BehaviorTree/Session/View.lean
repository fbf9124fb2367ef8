import BehaviorTree.Session.Basic

/-!
View settings: the grid, the viewport and the collapsed categories.
-/

set_option autoImplicit false

namespace BehaviorTree.Session

def updateGrid (s : Session) (updates : Table Value) : Outcome GridSettings :=
  match (GridSettings.ofMembers (Table.overlay s.grid.toMembers updates)).report "GridSettings" with
  | .error r => (.error (.invalid r), s)
  | .ok g => (.ok g, emit { s with grid := g } (.gridUpdated g))

/-- Attributes that the viewport has like everything else, besides its fields. They can be written to, without any effect. -/
def commonAttributes : List String :=
  ["annotations", "dataclass_fields", "dataclass_params", "delattr", "dir", "doc", "eq", "format", "ge", "getattribute",
    "getstate", "gt", "hash", "init", "init_subclass", "le", "lt", "match_args", "module", "ne", "new", "reduce", "reduce_ex",
    "repr", "setattr", "sizeof", "str", "subclasshook"].map fun name => "__" ++ name ++ "__"

def setField (v : Viewport) (name : String) (x : Float) : Option (Except Fault Viewport) :=
  if name = "scale" then some (.ok { v with scale := x })
  else if name = "offset_x" then some (.ok { v with offsetX := x })
  else if name = "offset_y" then some (.ok { v with offsetY := x })
  else if name = "min_scale" then some (.ok { v with minScale := x })
  else if name = "max_scale" then some (.ok { v with maxScale := x })
  else if name = "clamp" then some (.ok { v with isUnruled := true })
  else if commonAttributes.contains name then some (.ok v)
  else if name = "__class__" || name = "__dict__" then some (.error (.number .wrongKind))
  else if name = "__weakref__" then some (.error .fixedAttribute)
  else none

def setFields (v : Viewport) : Table Value → Except Fault Unit × Viewport
  | [] => (.ok (), v)
  | (name, value) :: r =>
    match setField v name 0.0, value.toFloat with
    | none, _ => (.error (.viewportField name), v)
    | some _, .error e => (.error (.number e), v)
    | some _, .ok x =>
      match setField v name x with
      | some (.error e) => (.error e, v)
      | some (.ok v) => setFields v r
      | none => setFields v r

/-- Updates the viewport. The scale is brought between its limits only if all fields could be set, and the rule is still there. -/
def updateViewport (s : Session) (updates : Table Value) : Outcome Viewport :=
  match setFields s.viewport updates with
  | (.error e, v) => (.error e, { s with viewport := v })
  | (.ok (), v) =>
    if v.isUnruled then (.error (.number .wrongKind), { s with viewport := v })
    else (.ok v.clamp, { s with viewport := v.clamp })

def toggleCollapsed (s : Session) (category : String) : Bool × Session :=
  let collapsed := !(Table.lookup s.collapsed category).getD false
  (collapsed, { s with collapsed := Table.insert s.collapsed category collapsed })

end BehaviorTree.Session
