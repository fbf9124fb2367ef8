import BehaviorTree.Store.Request

/-!
The acts of a store. Whatever a request asks for, by whatever name and with whatever arguments, comes down to one change of the graph
at a time, to an id that is issued, to a new graph as a whole, or to nothing.
-/

set_option autoImplicit false

namespace BehaviorTree.Store

/-- An act that leaves the rest of the graph in its place, and the store after it, whether it succeeds or not. -/
inductive Act (s : Store) : Store → Prop
  | nothing : Act s s
  | issueNodeId : Act s s.issueNodeId.2
  | issueConnectionId : Act s s.issueConnectionId.2
  | addNode (n : Node) : Act s (s.addNode n).2
  | removeNode (id : String) : Act s (s.removeNode id).2
  | updateNode (id : String) (updates : Value) : Act s (s.updateNodeWith id updates).2
  | moveNode (id : String) (x y : Value) : Act s (s.moveNode id x y).2
  | updateNodes (updates : Value) : Act s (s.updateNodesWith updates).2
  | addConnection (c : Connection) : Act s (s.addConnection c).2
  | removeConnection (id : String) : Act s (s.removeConnection id).2

inductive WholeAct (s : Store) : Store → Prop
  | load (nodes : List Node) (connections : List Connection) (nextNode nextConnection : Int) (notify : Bool) :
      WholeAct s (s.load nodes connections nextNode nextConnection notify).2
  | clear (notify : Bool) : WholeAct s (s.clear notify)

/-- The operations that put another graph in place of the present one. -/
def wholeOperations : List String := ["load", "clear"]

variable {s : Store}

theorem act_withId {v : Value} {absent : Except Fault Value} {act : String → Outcome Value} (h : ∀ id, Act s (act id).2) :
    Act s (s.withId v absent act).2 := by
  unfold withId
  split
  · exact h _
  · exact .nothing
  · exact .nothing

theorem wholeAct_loadValues (nodes connections nextNode nextConnection : Value) (notify : Bool) :
    Act s (s.loadValues nodes connections nextNode nextConnection notify).2 ∨
      WholeAct s (s.loadValues nodes connections nextNode nextConnection notify).2 := by
  unfold loadValues
  split
  · exact .inl .nothing
  · exact .inl .nothing
  · exact .inr (.load _ _ _ _ _)

theorem act_perform (s : Store) (name : String) (a b c : Value) (more : List Value) :
    Act s (s.perform name a b c more).2 ∨ name ∈ wholeOperations ∧ WholeAct s (s.perform name a b c more).2 := by
  unfold perform
  dsimp only
  split
  · exact .inl .nothing
  · exact .inl .nothing
  · exact .inl (act_withId fun _ => .nothing)
  · exact .inl (act_withId fun _ => .nothing)
  · exact .inl (act_withId fun _ => .nothing)
  · exact .inl .nothing
  · exact .inl .nothing
  · exact .inl .issueNodeId
  · exact .inl .issueConnectionId
  · split
    · exact .inl .nothing
    · exact .inl (.addNode _)
  · exact .inl (act_withId fun id => .removeNode id)
  · exact .inl (act_withId fun id => .updateNode id b)
  · exact .inl (act_withId fun id => .moveNode id b c)
  · exact .inl (.updateNodes a)
  · split
    · exact .inl .nothing
    · exact .inl (.addConnection _)
  · exact .inl (act_withId fun id => .removeConnection id)
  · exact (wholeAct_loadValues a b c _ _).imp_right fun hload => ⟨by decide, hload⟩
  · exact .inr ⟨by decide, .clear _⟩
  · exact .inl .nothing
  · exact .inl .nothing

theorem act_request (s : Store) (name : String) (arguments : List Value) :
    Act s (s.request name arguments).2 ∨ name ∈ wholeOperations ∧ WholeAct s (s.request name arguments).2 := by
  unfold request
  split
  · exact act_perform _ _ _ _ _ _
  · exact .inl .nothing

end BehaviorTree.Store
