import BehaviorTree.Graph.Node

/-!
The trees of a graph. A root is a node that no connection targets. The children of a node are the targets of its connections,
from left to right by their x coordinate and, at equal x, in the order of the connections. A node that has a place already is
passed over, so every graph gives a finite forest.
-/

set_option autoImplicit false

namespace BehaviorTree

inductive Tree where
  | branch (node : Node) (children : List Tree)

namespace Tree

def node : Tree → Node
  | .branch n _ => n

def children : Tree → List Tree
  | .branch _ cs => cs

mutual

def walk : Tree → List Node
  | .branch n cs => n :: walkAll cs

def walkAll : List Tree → List Node
  | [] => []
  | t :: r => t.walk ++ walkAll r

end

def count (t : Tree) : Nat := t.walk.length

mutual

def toValue : Tree → Value
  | .branch n cs => .object (n.toMembers ++ [("children", .list (toValues cs))])

def toValues : List Tree → List Value
  | [] => []
  | t :: r => t.toValue :: toValues r

end

end Tree

namespace Hierarchy

def roots (nodes : List Node) (connections : List Connection) : List Node :=
  nodes.filter fun n => !(connections.map Connection.target).contains n.id

def find? (nodes : List Node) (id : String) : Option Node := nodes.reverse.find? fun n => n.id = id

theorem find?_isSome (nodes : List Node) (id : String) : (find? nodes id).isSome ↔ id ∈ nodes.map Node.id := by
  simp [find?]

theorem find?_mem {nodes : List Node} {id : String} {n : Node} (h : find? nodes id = some n) : n ∈ nodes ∧ n.id = id := by
  have hmem := List.mem_of_find?_eq_some h
  have hid := List.find?_some h
  exact ⟨List.mem_reverse.1 hmem, of_decide_eq_true hid⟩

def successors (nodes : List Node) (connections : List Connection) (id : String) : List Node :=
  let targets := connections.filterMap fun c => if c.source = id then find? nodes c.target else none
  targets.mergeSort fun a b => decide (a.x ≤ b.x)

def claim (placed : List String) : List Node → List Node × List String
  | [] => ([], placed)
  | n :: r =>
    if placed.contains n.id then claim placed r
    else
      let (ns, placed) := claim (n.id :: placed) r
      (n :: ns, placed)

/-- Grows the tree below a node: first all its children take their places, then they grow from right to left. The fuel bounds
the depth; the number of nodes is enough, since the nodes on a path differ. -/
def grow (successors : String → List Node) : Nat → Node → List String → Tree × List String
  | 0, n, placed => (.branch n [], placed)
  | fuel + 1, n, placed =>
    let (own, placed) := claim placed (successors n.id)
    let (trees, placed) := own.foldr (fun c (acc : List Tree × List String) =>
      let (t, placed) := grow successors fuel c acc.2
      (t :: acc.1, placed)) ([], placed)
    (.branch n trees, placed)

def growAll (successors : String → List Node) (fuel : Nat) : List Node → List String → List Tree
  | [], _ => []
  | n :: r, placed =>
    let (t, placed) := grow successors fuel n (n.id :: placed)
    t :: growAll successors fuel r placed

def forest (nodes : List Node) (connections : List Connection) : List Tree :=
  let sources := nodes.filter fun n =>
    (find? nodes n.id).isSome && connections.any fun c => c.source = n.id
  let table := sources.map fun n => (n.id, successors nodes connections n.id)
  growAll (fun id => (Table.lookup table id).getD []) nodes.length (roots nodes connections) []

end Hierarchy

end BehaviorTree
