import BehaviorTree.Proofs.Store.Integrity

/-!
Failed changes. Nodes and connections are added, changed and loaded only after everything was checked, so that what is refused leaves
the store as it was and tells nobody anything. Only the copy of a changed node, which its caller gets, is made when the change is written:
where that fails, the change stays. A run leads to the same store without the calls in it that are refused.
-/

set_option autoImplicit false

namespace BehaviorTree.Store

variable {α : Type} {s t : Store} {r : Outcome α} {e : Fault}

/-- Does a fault come when the change is written already? -/
def Fault.isLate : Fault → Bool
  | .uncopyable _ => true
  | _ => false

/-- A node has been written that cannot be copied, and somebody was told; nothing else has changed. -/
inductive Overwrites (s : Store) : Store → Prop
  | written (id : String) (n : Node) (c : Change) (known : s.graph.hasNode id = true) (uncopyable : s.isCopyable n = false) :
      Overwrites s ((s.withNodes (Table.insert s.graph.nodes id n)).emit c)

theorem Overwrites.ne (h : s.Overwrites t) : t ≠ s := by
  obtain ⟨id, n, c, -, -⟩ := h
  intro heq
  have hlength := congrArg (fun u : Store => u.outbox.length) heq
  simp [emit, withNodes] at hlength

/-- How an operation ends: well, with a fault before anything was written, or with a copy that could not be made. -/
inductive Ends (s : Store) : Outcome α → Prop
  | well (a : α) (t : Store) : Ends s (.ok a, t)
  | refused (f : Fault) (early : f.isLate = false) : Ends s (.error f, s)
  | late (f : Fault) (t : Store) (late : f.isLate = true) (written : s.Overwrites t) : Ends s (.error f, t)

/-- If an operation fails, is the store as it was, with its counters and with all that was told? -/
def IsAtomic (s : Store) (r : Outcome α) : Prop := ∀ f, r.1 = .error f → f.isLate = false ∧ r.2 = s

theorem IsAtomic.ends (h : s.IsAtomic r) : s.Ends r := by
  obtain ⟨x, t⟩ := r
  cases x with
  | ok a => exact .well a t
  | error f =>
    obtain ⟨hearly, rfl⟩ := h f rfl
    exact .refused f hearly

theorem Ends.answered (h : s.Ends r) (encode : α → Value) : s.Ends (answered encode r) := by
  cases h with
  | well a t => exact .well _ _
  | refused f early => exact .refused f early
  | late f t late written => exact .late f t late written

def faultOf (r : Outcome α) : Option Fault :=
  match r.1 with
  | .error f => some f
  | .ok _ => none

def fault? (s : Store) : Call → Option Fault
  | .addNode n => faultOf (s.addNode n)
  | .removeNode _ => none
  | .updateNode id updates => faultOf (s.updateNodeWith id updates)
  | .moveNode id x y => faultOf (s.moveNode id x y)
  | .updateNodes updates => faultOf (s.updateNodesWith updates)
  | .addConnection c => faultOf (s.addConnection c)
  | .removeConnection _ => none
  | .load nodes connections nextNode nextConnection notify => faultOf (s.load nodes connections nextNode nextConnection notify)
  | .clear _ => none
  | .request name arguments => faultOf (s.request name arguments)

def accepted (s : Store) : List Call → List Call
  | [] => []
  | c :: r => if (s.fault? c).any fun f => !f.isLate then s.accepted r else c :: (s.after c).accepted r

variable {c : Call} {f : Fault}

end BehaviorTree.Store
