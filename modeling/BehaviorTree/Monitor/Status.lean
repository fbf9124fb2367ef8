import BehaviorTree.Value.Written
import BehaviorTree.Text.Blank

/-!
The execution status of a node. Reports name it in many ways; what is not recognised counts as idle.
-/

set_option autoImplicit false

namespace BehaviorTree

inductive Status where
  | idle
  | running
  | success
  | failure
  deriving DecidableEq, Repr

namespace Status

def name : Status → String
  | .idle => "idle"
  | .running => "running"
  | .success => "success"
  | .failure => "failure"

def toValue (s : Status) : Value := .text s.name

/-- The status a word stands for. Only ASCII letters have a case that matters: no other letter is lowered to one of those in
the words. -/
def ofWord (word : String) : Status :=
  let lowered := String.ofList (word.toList.map Char.toLower)
  if lowered = "running" || lowered = "active" then .running
  else if lowered = "success" then .success
  else if lowered = "failure" then .failure
  else .idle

def ofReported (v : Value) : Status :=
  if v.isTruthy then ofWord (Text.trimSpacing v.written) else .idle

end Status

end BehaviorTree
