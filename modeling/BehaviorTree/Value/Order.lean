import BehaviorTree.Value.Number

/-!
The order of values. Numbers are ordered by what they amount to, texts by their characters, lists by their first elements that
differ, and so are bytes. Other values have no order, nor have values of different kinds.
-/

set_option autoImplicit false

namespace BehaviorTree

namespace Number

def alike (a b : Number) : Bool := !a.isNaN && !b.isNaN && !a.lt b && !b.lt a

end Number

namespace Value

mutual

/-- Equal values. Numbers of different kinds are equal when they amount to the same; the order of members does not count. -/
def alike : Value → Value → Bool
  | .null, .null => true
  | .text a, .text b => a == b
  | .bytes a, .bytes b => a == b
  | .list a, .list b => alikeList a b
  | .object a, .object b => a.length == b.length && alikeMembers b a
  | a, b =>
    match a.number?, b.number? with
    | some m, some n => m.alike n
    | _, _ => false

def alikeList : List Value → List Value → Bool
  | [], [] => true
  | a :: r, b :: t => alike a b && alikeList r t
  | _, _ => false

def alikeMembers (others : List (String × Value)) : List (String × Value) → Bool
  | [] => true
  | (k, v) :: r =>
    (match Table.lookup others k with
      | some w => alike v w
      | none => false) && alikeMembers others r

end

mutual

def less : Value → Value → Except NumberFault Bool
  | .text a, .text b => .ok (Text.codes a.toList < Text.codes b.toList)
  | .bytes a, .bytes b => .ok (a < b)
  | .list a, .list b => lessList a b
  | a, b =>
    match a.number?, b.number? with
    | some m, some n => .ok (m.lt n)
    | _, _ => .error .wrongKind

def lessList : List Value → List Value → Except NumberFault Bool
  | [], b => .ok (!b.isEmpty)
  | _ :: _, [] => .ok false
  | a :: r, b :: t => if alike a b then lessList r t else less a b

end

def smaller (a b : Value) : Except NumberFault Value := do
  return if ← less b a then b else a

def larger (a b : Value) : Except NumberFault Value := do
  return if ← less a b then b else a

end Value

end BehaviorTree
