import BehaviorTree.Tree.Hierarchy
import BehaviorTree.Value.Number

/-!
Automatic layout. The depth of a node decides its y coordinate. The children of a node stand side by side at a fixed distance,
with the middle of their span below the middle of their parent. Trees follow each other in a row. The arithmetic is a
parameter, so that the same rules speak of floats and of exact numbers.
-/

set_option autoImplicit false

namespace BehaviorTree.Layout

class Arithmetic (α : Type) where
  ofNat : Nat → α
  add : α → α → α
  sub : α → α → α
  mul : α → α → α
  half : α → α
  lt : α → α → Bool

instance : Arithmetic Float where
  ofNat n := Float.ofNat n
  add := (· + ·)
  sub := (· - ·)
  mul := (· * ·)
  half x := x / 2.0
  lt a b := a < b

/-- Numbers that may be missing: what is computed from a missing number is missing for the same reason. -/
instance : Arithmetic (Except NumberFault Number) where
  ofNat n := .ok (.int n)
  add a b := do (← a).add (← b)
  sub a b := do (← a).sub (← b)
  mul a b := do (← a).mul (← b)
  half a := do (← a).half
  lt a b := match a, b with
    | .ok a, .ok b => a.lt b
    | _, _ => false

structure Options (α : Type) where
  nodeWidth : α
  nodeHeight : α
  spacingX : α
  spacingY : α
  treeSpacing : α

structure Position (α : Type) where
  id : String
  x : α
  y : α

variable {α : Type} [Arithmetic α]

open Arithmetic

def Options.span (o : Options α) (n : Nat) : α :=
  add (mul (ofNat n) o.nodeWidth) (mul (ofNat (n - 1)) o.spacingX)

def addLevels : List Nat → List Nat → List Nat
  | [], b => b
  | a, [] => a
  | m :: a, n :: b => (m + n) :: addLevels a b

mutual

def levels : Tree → List Nat
  | .branch _ cs => 1 :: levelsAll cs

def levelsAll : List Tree → List Nat
  | [] => []
  | t :: r => addLevels (levels t) (levelsAll r)

end

def largest (a : α) : List α → α
  | [] => a
  | b :: r => largest (if lt a b then b else a) r

def smallest (a : α) : List α → α
  | [] => a
  | b :: r => smallest (if lt b a then b else a) r

mutual

def place (o : Options α) (x : α) (depth : Nat) : Tree → List (Position α)
  | .branch n cs =>
    let start := add x (half (sub o.nodeWidth (o.span cs.length)))
    ⟨n.id, x, mul (ofNat depth) (add o.nodeHeight o.spacingY)⟩ :: placeAll o start 0 (depth + 1) cs

def placeAll (o : Options α) (start : α) (index depth : Nat) : List Tree → List (Position α)
  | [] => []
  | t :: r =>
    place o (add start (mul (ofNat index) (add o.nodeWidth o.spacingX))) depth t ++ placeAll o start (index + 1) depth r

end

/-- The x coordinate of the root: half of what the widest level has more than the first. -/
def rootX (o : Options α) (t : Tree) : α :=
  let first := o.span 1
  half (sub (largest first (((levels t).drop 1).map o.span)) first)

def tree (o : Options α) (t : Tree) : List (Position α) := place o (rootX o t) 0 t

/-- The least x of a tree and the right border of the node with the greatest x. -/
def extent (o : Options α) (ps : List (Position α)) : α × α :=
  match ps.map Position.x with
  | [] => (ofNat 0, ofNat 0)
  | x :: xs => (smallest x xs, add (largest x xs) o.nodeWidth)

def row (o : Options α) (offset : α) : List Tree → List (Position α)
  | [] => []
  | t :: r =>
    let ps := tree o t
    let (left, right) := extent o ps
    ps.map (fun p => ⟨p.id, add (sub p.x left) offset, p.y⟩)
      ++ row o (add offset (add (sub right left) o.treeSpacing)) r

def forest (o : Options α) (ts : List Tree) : List (Position α) := row o (half (ofNat 0)) ts

def defaultOptions : Options Float := ⟨150.0, 40.0, 20.0, 20.0, 40.0⟩

/-- A number that a layout is computed from or gives, perhaps a missing one. -/
abbrev Measure := Except NumberFault Number

def Position.settled (p : Position Measure) : Except NumberFault (Position Number) := do
  return ⟨p.id, ← p.x, ← p.y⟩

/-- The forest laid out with measures of any kind. The steps between nodes and the distance between trees have to be numbers even
where no second node or tree needs them. -/
def measuredForest (o : Options Measure) (ts : List Tree) : Except NumberFault (List (Position Number)) := do
  if ts.isEmpty then return []
  let _ ← add o.nodeWidth o.spacingX
  let _ ← add o.nodeHeight o.spacingY
  let ps ← (forest o ts).mapM Position.settled
  let _ ← add (half (ofNat 0)) o.treeSpacing
  return ps

end BehaviorTree.Layout
