/-!
Tables that keep the order in which their keys first arrived. Writing to a key that is present changes its value in place.
-/

set_option autoImplicit false

namespace BehaviorTree

abbrev Table (α : Type) := List (String × α)

namespace Table

variable {α β : Type}

def lookup (t : Table α) (k : String) : Option α :=
  match t with
  | [] => none
  | (j, a) :: r => if j = k then some a else lookup r k

def holds (t : Table α) (k : String) : Bool := (lookup t k).isSome

def insert (t : Table α) (k : String) (a : α) : Table α :=
  match t with
  | [] => [(k, a)]
  | (j, b) :: r => if j = k then (j, a) :: r else (j, b) :: insert r k a

def erase (t : Table α) (k : String) : Table α :=
  match t with
  | [] => []
  | (j, b) :: r => if j = k then r else (j, b) :: erase r k

def overlay (t u : Table α) : Table α := u.foldl (fun t r => insert t r.1 r.2) t

/-- The table of a list of rows, in which a repeated key keeps its first place and its last value. -/
def ofRows (rows : List (String × α)) : Table α := overlay [] rows

def keys (t : Table α) : List String := t.map Prod.fst

def values (t : Table α) : List α := t.map Prod.snd

@[simp] theorem lookup_nil (k : String) : lookup ([] : Table α) k = none := rfl

theorem lookup_insert (t : Table α) (k j : String) (a : α) :
    lookup (insert t k a) j = if k = j then some a else lookup t j := by
  induction t with
  | nil => simp [insert, lookup]
  | cons r t ih => grind [insert, lookup]

theorem keys_insert (t : Table α) (k : String) (a : α) :
    keys (insert t k a) = if k ∈ keys t then keys t else keys t ++ [k] := by
  induction t with
  | nil => simp [insert, keys]
  | cons r t ih => grind [insert, keys]

end Table

end BehaviorTree
