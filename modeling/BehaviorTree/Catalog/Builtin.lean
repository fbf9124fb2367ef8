import BehaviorTree.Graph.NodeType

/-!
The standard node types.
-/

set_option autoImplicit false

namespace BehaviorTree.Catalog

def composite (type description : String) (maxChildren : Option Int := none) (properties : List PropertyDef := []) :
    NodeType :=
  ⟨type, type, "composite", maxChildren, false, properties, description, true⟩

def decorator (type description : String) (properties : List PropertyDef := []) : NodeType :=
  ⟨type, type, "decorator", some 1, false, properties, description, true⟩

def leaf (type category description : String) (properties : List PropertyDef := []) : NodeType :=
  ⟨type, type, category, some 0, true, properties, description, true⟩

def number (name : String) (default : Int) (description : String) : PropertyDef := ⟨name, "number", .int default, description⟩

def string (name description : String) : PropertyDef := ⟨name, "string", .text "", description⟩

def builtinTypes : List NodeType := [
  composite "Sequence" "Ticks children in order; fails on the first failure.",
  composite "SequenceWithMemory" "Sequence that resumes from the last running child.",
  composite "ReactiveSequence" "Sequence that re-evaluates earlier children every tick.",
  composite "Fallback" "Ticks children in order until one succeeds.",
  composite "ReactiveFallback" "Fallback that re-evaluates earlier children every tick.",
  composite "Parallel" "Ticks all children; thresholds decide the result." none
    [number "success_count" (-1) "Children that must succeed", number "failure_count" 1 "Children that may fail"],
  composite "IfThenElse" "Condition, then-branch and optional else-branch." (some 3),
  composite "WhileDoElse" "Reactive condition with do and else branches." (some 3),
  decorator "Inverter" "Swaps SUCCESS and FAILURE of its child.",
  decorator "ForceSuccess" "Returns SUCCESS whatever the child returns.",
  decorator "ForceFailure" "Returns FAILURE whatever the child returns.",
  decorator "KeepRunningUntilFailure" "Ticks the child until it fails.",
  decorator "RetryUntilSuccessful" "Retries the child up to num_attempts times." [number "num_attempts" 1 "Maximum attempts"],
  decorator "Repeat" "Repeats the child num_cycles times." [number "num_cycles" 1 "Repetitions"],
  decorator "Delay" "Delays ticking the child." [number "delay_msec" 1000 "Delay in milliseconds"],
  decorator "Timeout" "Halts the child after msec milliseconds." [number "msec" 1000 "Timeout in milliseconds"],
  leaf "AlwaysSuccess" "action" "Returns SUCCESS.",
  leaf "AlwaysFailure" "action" "Returns FAILURE.",
  leaf "Script" "action" "Runs a script expression." [string "code" "Script code"],
  leaf "SetBlackboard" "action" "Writes a value to a blackboard entry."
    [string "value" "Value to write", string "output_key" "Blackboard key"],
  leaf "Sleep" "action" "Returns RUNNING for msec milliseconds." [number "msec" 1000 "Sleep time in milliseconds"],
  leaf "ScriptCondition" "condition" "SUCCESS when the script evaluates to true." [string "code" "Boolean script expression"],
  leaf "SubTree" "subtree" "Runs another behavior tree by ID."
    [string "ID" "ID of the subtree", ⟨"_autoremap", "boolean", .bool false, "Remap ports automatically"⟩]]

end BehaviorTree.Catalog
