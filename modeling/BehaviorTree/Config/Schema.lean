import BehaviorTree.Config.Basic
import BehaviorTree.Text.Case
import BehaviorTree.Text.Encoding
import BehaviorTree.Yaml.Data

/-!
Reading the configuration. All fields may be left out; unknown fields are passed over; all problems are reported together.
-/

set_option autoImplicit false

namespace BehaviorTree.Config

open Schema Yaml

def rows : Data → Checked (List (Data × Data))
  | .map rs => .ok rs
  | _ => .fail .notRecord

variable {α : Type}

def field (rs : List (Data × Data)) (name : String) (fallback : α) (read : Data → Checked α) : Checked α :=
  match Data.named? rs name with
  | some d => (read d).below (.member name)
  | none => .ok fallback

def plain (read : Option Scalar → Except Cause α) (d : Data) : Checked α := .ofCause (read d.scalar?)

def readPositive (v : Option Scalar) : Except Cause Float :=
  match readFloat v with
  | .ok x => if x > 0.0 then .ok x else .error .notPositive
  | .error c => .error c

def readNonNegative (v : Option Scalar) : Except Cause Float :=
  match readFloat v with
  | .ok x => if x ≥ 0.0 then .ok x else .error .belowMinimum
  | .error c => .error c

def levelNames : List String := ["DEBUG", "INFO", "WARNING", "ERROR", "CRITICAL"]

/-- The name of a level in any case; an empty one stands for the default. -/
def readLevel (v : Option Scalar) : Except Cause String :=
  match readText v with
  | .error c => .error c
  | .ok s =>
    let level := if s.isEmpty then "INFO" else Text.upper s
    if levelNames.contains level then .ok level
    else .error (.refused ("level must be a logging level name, got '" ++ s ++ "'"))

def keyStep : Data → Step
  | .text k => .member k
  | .int i => .ofInt i
  | .bool b => .element (if b then 1 else 0)
  | .float x => .member (Value.floatText x)
  | .null => .member "None"
  | .moment m => .member m.described
  | .bytes bs => .member (Text.quotedBytes bs)
  | _ => .member ""

def textRow (r : Data × Data) : Checked (String × String) :=
  let key := ((plain readText r.1).below (.member "[key]")).below (keyStep r.1)
  let value := (plain readText r.2).below (keyStep r.1)
  match key, value with
  | .ok k, .ok s => .ok (k, s)
  | _, _ => .error (key.problems ++ value.problems)

def textRows : Data → Checked (Table String)
  | .map rs => (Checked.all (rs.map textRow)).map Table.ofRows
  | _ => .fail .notObject

def optionalText : Data → Checked (Option String)
  | .null => .ok none
  | d => (plain readText d).map some

def logging (d : Data) : Checked LoggingConfig :=
  (rows d).andThen fun rs =>
    let level := field rs "level" "INFO" (plain readLevel)
    let jsonLines := field rs "json_lines" false (plain readBoolean)
    let namespaces := field rs "namespaces" [] textRows
    let file := field rs "file" none optionalText
    match level, jsonLines, namespaces, file with
    | .ok level, .ok jsonLines, .ok namespaces, .ok file => .ok ⟨level, jsonLines, namespaces, file⟩
    | _, _, _, _ => .error (level.problems ++ jsonLines.problems ++ namespaces.problems ++ file.problems)

def grid (d : Data) : Checked GridSettings :=
  (rows d).andThen fun rs => GridSettings.ofScalars fun name => (Data.named? rs name).map Data.scalar?

def viewport (d : Data) : Checked ViewportConfig :=
  (rows d).andThen fun rs =>
    let minScale := field rs "min_scale" 0.1 (plain readPositive)
    let maxScale := field rs "max_scale" 5.0 (plain readPositive)
    let defaultScale := field rs "default_scale" 1.0 (plain readPositive)
    match minScale, maxScale, defaultScale with
    | .ok minScale, .ok maxScale, .ok defaultScale => .ok ⟨minScale, maxScale, defaultScale⟩
    | _, _, _ => .error (minScale.problems ++ maxScale.problems ++ defaultScale.problems)

def layout (d : Data) : Checked (Layout.Options Float) :=
  (rows d).andThen fun rs =>
    let o := Layout.defaultOptions
    let width := field rs "node_width" o.nodeWidth (plain readPositive)
    let height := field rs "node_height" o.nodeHeight (plain readPositive)
    let spacingX := field rs "node_spacing_x" o.spacingX (plain readNonNegative)
    let spacingY := field rs "node_spacing_y" o.spacingY (plain readNonNegative)
    let treeSpacing := field rs "tree_spacing_x" o.treeSpacing (plain readNonNegative)
    match width, height, spacingX, spacingY, treeSpacing with
    | .ok width, .ok height, .ok spacingX, .ok spacingY, .ok treeSpacing =>
      .ok ⟨width, height, spacingX, spacingY, treeSpacing⟩
    | _, _, _, _, _ =>
      .error (width.problems ++ height.problems ++ spacingX.problems ++ spacingY.problems ++ treeSpacing.problems)

def exporting (d : Data) : Checked ExportConfig :=
  (rows d).andThen fun rs =>
    let version := field rs "format_version" "4" (plain readText)
    let singleRoot := field rs "require_single_root" false (plain readBoolean)
    match version, singleRoot with
    | .ok version, .ok singleRoot => .ok ⟨version, singleRoot⟩
    | _, _ => .error (version.problems ++ singleRoot.problems)

def editor (rs : List (Data × Data)) : Checked EditorConfig :=
  let log := field rs "logging" {} logging
  let cells := field rs "grid" {} grid
  let view := field rs "viewport" {} viewport
  let measures := field rs "layout" Layout.defaultOptions layout
  let output := field rs "export" {} exporting
  let entryPoints := field rs "load_entry_points" true (plain readBoolean)
  match log, cells, view, measures, output, entryPoints with
  | .ok log, .ok cells, .ok view, .ok measures, .ok output, .ok entryPoints =>
    .ok ⟨log, cells, view, measures, output, entryPoints⟩
  | _, _, _, _, _, _ =>
    .error (log.problems ++ cells.problems ++ view.problems ++ measures.problems ++ output.problems
      ++ entryPoints.problems)

inductive Fault where
  /-- A field of the configuration has a name that is not text. -/
  | namesNotText
  | notMapping (kind : String)
  | invalid (report : Report)
  deriving DecidableEq, Repr

def Fault.message : Fault → String
  | .namesNotText => "Schema validation failed: keywords must be strings"
  | .notMapping kind =>
    "Schema validation failed: bteditor.io.config_loader.EditorConfig() argument after ** must be a mapping, not " ++ kind
  | .invalid report => "Schema validation failed: " ++ report.headline

def isText : Data → Bool
  | .text _ => true
  | _ => false

def parse : Data → Except Fault EditorConfig
  | .map rs =>
    if rs.all fun r => isText r.1 then ((editor rs).report "EditorConfig").mapError .invalid else .error .namesNotText
  | d => .error (.notMapping d.kind)

end BehaviorTree.Config
