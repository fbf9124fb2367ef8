/-!
Splitting texts.
-/

set_option autoImplicit false

namespace BehaviorTree.Text

/-- The parts between separators; there is one more of them than there are separators. -/
def split (separator : Char) : List Char → List (List Char)
  | [] => [[]]
  | c :: r =>
    if c = separator then [] :: split separator r
    else
      match split separator r with
      | [] => [[c]]
      | p :: ps => (c :: p) :: ps

theorem split_ne_nil (separator : Char) (cs : List Char) : split separator cs ≠ [] := by
  cases cs with
  | nil => simp [split]
  | cons c r => grind [split]

def holds (part : List Char) : List Char → Bool
  | [] => part.isEmpty
  | c :: r => part.isPrefixOf (c :: r) || holds part r

end BehaviorTree.Text
