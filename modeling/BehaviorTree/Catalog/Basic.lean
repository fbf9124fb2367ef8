import BehaviorTree.Catalog.Builtin

/-!
The catalog of node types. It is filled from the standard types and from plugins; a type name may be registered only once. Two
tables are kept: the types by category and name, and where each name came from. Plugins are asked in the order in which they
were added; that they may ask for another order is left out, and so is the text for a plugin added twice.
-/

set_option autoImplicit false

namespace BehaviorTree

/-- A source of node types, with the name it is registered under. One without a name gets a name that nothing else has. -/
structure Plugin where
  name : String
  types : Value

/-- A plugin that is looked up in the environment, under a group of its own; it may fail to load. -/
structure EntryPoint where
  name : String
  group : String
  /-- The types, or none when loading fails. -/
  types : Option Value

namespace Catalog

inductive Fault where
  | pluginTwice (name : String)
  | duplicate (type existing new : String)
  | invalid (report : Schema.Report)
  /-- The types of a plugin are no sequence. -/
  | noSequence
  /-- A type or a category is a list or an object. -/
  | unusableKey

/-- What is said of a fault. Of a plugin that comes twice it is the plugin manager that speaks. -/
def Fault.message? : Fault → Option String
  | .pluginTwice _ => none
  | .duplicate type existing new =>
    some ("Duplicate node type registration detected for '" ++ type ++ "'. Existing: " ++ existing ++ "; New: " ++ new
      ++ ". Type names must be unique across all plugins.")
  | .invalid report => some report.headline
  | .noSequence => some "object is not iterable"
  | .unusableKey => some "nothing can be looked up by a list or an object"

def builtinOrigin : String := "bteditor.plugins.builtin_nodes"

def entryPointGroup : String := "bteditor.node_types"

end Catalog

structure Catalog where
  /-- The types by category and name, in the order of registration. -/
  types : List ((String × String) × NodeType) := []
  origins : Table String := []
  plugins : List Plugin := []

namespace Catalog

def addPlugin (c : Catalog) (p : Plugin) : Catalog := { c with plugins := c.plugins ++ [p] }

def register (origin : String) (c : Catalog) (t : NodeType) : Except Fault Catalog :=
  match Table.lookup c.origins t.type with
  | some existing => .error (.duplicate t.type existing origin)
  | none =>
    .ok { c with types := c.types ++ [((t.category, t.type), t)], origins := Table.insert c.origins t.type origin }

/-- Registers types one after the other; the first that cannot be registered ends it. -/
def registerAll (origin : String) (c : Catalog) : List (Except Fault NodeType) → Except Fault Unit × Catalog
  | [] => (.ok (), c)
  | .error e :: _ => (.error e, c)
  | .ok t :: r =>
    match register origin c t with
    | .error e => (.error e, c)
    | .ok c => registerAll origin c r

def Plugin.offers (p : Plugin) : Except Fault (List (Except Fault NodeType)) :=
  let checked (v : Value) : Except Fault NodeType := (NodeType.ofValue v).mapError .invalid
  if !p.types.isTruthy then .ok []
  else
    match p.types.parts? with
    | some vs => .ok (vs.map checked)
    | none => .error .noSequence

def collectPlugins (c : Catalog) : List Plugin → Except Fault Unit × Catalog
  | [] => (.ok (), c)
  | p :: r =>
    match Plugin.offers p with
    | .error e => (.error e, c)
    | .ok offers =>
      match registerAll p.name c offers with
      | (.ok (), c) => collectPlugins c r
      | (.error e, c) => (.error e, c)

def loadable (taken : List String) : List EntryPoint → List Plugin
  | [] => []
  | e :: r =>
    match e.types with
    | some types =>
      if e.group = entryPointGroup && (e.name.isEmpty || !taken.contains e.name) then
        ⟨e.name, types⟩ :: loadable (e.name :: taken) r
      else loadable taken r
    | none => loadable taken r

def repeatedName? (taken : List String) : List String → Option String
  | [] => none
  | n :: r => if !n.isEmpty && taken.contains n then some n else repeatedName? (n :: taken) r

/-- Empties the catalog and fills it anew: the standard types, the plugins, the entry points. -/
def discover (entryPoints : List EntryPoint) (c : Catalog) : Except Fault Unit × Catalog :=
  let empty : Catalog := { types := [], origins := [], plugins := c.plugins }
  match repeatedName? [builtinOrigin] (c.plugins.map Plugin.name) with
  | some name => (.error (.pluginTwice name), empty)
  | none =>
    match registerAll builtinOrigin empty (builtinTypes.map .ok) with
    | (.error e, c) => (.error e, c)
    | (.ok (), filled) =>
      collectPlugins filled (c.plugins ++ loadable (builtinOrigin :: c.plugins.map Plugin.name) entryPoints)

/-- The definition for a name and a category: a registered one, or the first custom type of that name. -/
def find? (c : Catalog) (customTypes : List NodeType) (type category : String) : Option NodeType :=
  match c.types.find? fun e => e.1 = (category, type) with
  | some e => some e.2
  | none => customTypes.find? fun t => t.type = type

def findBy? (c : Catalog) (customTypes : List NodeType) (type category : Value) : Except Fault (Option NodeType) :=
  match type.key, category.key with
  | .unusable, _ => .error .unusableKey
  | _, .unusable => .error .unusableKey
  | .text t, .text category => .ok (c.find? customTypes t category)
  | .text t, .unmatched => .ok (customTypes.find? fun d => d.type = t)
  | .unmatched, _ => .ok none

def list (c : Catalog) (category : Option String) : List NodeType :=
  (c.types.filter fun e => category.all (· = e.1.1)).map Prod.snd

def categories (c : Catalog) : List String := (c.types.map (·.1.1)).eraseDups

def isRegistered (c : Catalog) (type : String) : Bool := Table.holds c.origins type

def standard : Catalog := (discover [] {}).2

end Catalog

end BehaviorTree
