import BehaviorTree.Proofs.Json.Writer

/-!
Scans of a line. A scan that goes on from the end of each scalar as it began, and finds nothing in the marks between them, finds in the
line of a value what there is in its scalars and in the names of its members.
-/

set_option autoImplicit false

namespace BehaviorTree

namespace Value

mutual

/-- Is there such a scalar in a value? The names of members count as texts. -/
def someAtom (p : Scalar → Bool) : Value → Bool
  | .list vs => someElementAtom p vs
  | .object ms => someMemberAtom p ms
  | v => v.scalar?.any p

def someElementAtom (p : Scalar → Bool) : List Value → Bool
  | [] => false
  | v :: r => v.someAtom p || someElementAtom p r

def someMemberAtom (p : Scalar → Bool) : List (String × Value) → Bool
  | [] => false
  | (k, v) :: r => p (.text k) || v.someAtom p || someMemberAtom p r

end

variable {p : Scalar → Bool}

mutual

theorem someAtom_eq_anyScalar (h : ∀ s, p (.text s) = false) : (v : Value) → v.someAtom p = v.anyScalar p
  | .null | .bool _ | .int _ | .float _ | .text _ | .bytes _ => rfl
  | .list vs => someElementAtom_eq_anyElementScalar h vs
  | .object ms => someMemberAtom_eq_anyMemberScalar h ms

theorem someElementAtom_eq_anyElementScalar (h : ∀ s, p (.text s) = false) : (vs : List Value) → someElementAtom p vs = anyElementScalar p vs
  | [] => rfl
  | v :: r => by
    rw [someElementAtom, anyElementScalar, someAtom_eq_anyScalar h v, someElementAtom_eq_anyElementScalar h r]

theorem someMemberAtom_eq_anyMemberScalar (h : ∀ s, p (.text s) = false) :
    (ms : List (String × Value)) → someMemberAtom p ms = anyMemberScalar p ms
  | [] => rfl
  | (_, v) :: r => by
    rw [someMemberAtom, anyMemberScalar, h, Bool.false_or, someAtom_eq_anyScalar h v, someMemberAtom_eq_anyMemberScalar h r]

end

end Value

namespace Json

/-- Does a scan find this in the text, whatever follows, and then go on with what follows as if it began there? -/
def Adds (scan : List Char → Bool) (cs : List Char) (found : Bool) : Prop := ∀ rest, scan (cs ++ rest) = (found || scan rest)

structure IsScan (scan : List Char → Bool) (p : Scalar → Bool) : Prop where
  nil : scan [] = false
  mark : ∀ c ∈ ['[', ']', '{', '}', ',', ':', ' '], Adds scan [c] false
  scalar : ∀ v a, Value.scalar? v = some a → Adds scan (line v) (p a)

variable {scan : List Char → Bool} {p : Scalar → Bool} {a b : Bool} {cs ds : List Char}

theorem Adds.append (hcs : Adds scan cs a) (hds : Adds scan ds b) : Adds scan (cs ++ ds) (a || b) := fun rest => by
  rw [List.append_assoc, hcs, hds, Bool.or_assoc]

theorem adds_nil : Adds scan [] false := fun _ => rfl

namespace IsScan

theorem eq_of_adds (h : IsScan scan p) (hcs : Adds scan cs a) : scan cs = a := by
  have hnil := hcs []
  rwa [List.append_nil, h.nil, Bool.or_false] at hnil

theorem adds_marks (h : IsScan scan p) (hcs : ∀ c ∈ cs, c ∈ ['[', ']', '{', '}', ',', ':', ' ']) : Adds scan cs false := by
  induction cs with
  | nil => exact adds_nil
  | cons c r ih =>
    obtain ⟨hc, hr⟩ := List.forall_mem_cons.1 hcs
    exact (h.mark c hc).append (ih hr)

theorem adds_between (h : IsScan scan p) {first last : Char} (hmarks : ∀ c ∈ [first, last], c ∈ ['[', ']', '{', '}', ',', ':', ' '])
    (hcs : Adds scan cs a) : Adds scan (first :: (cs ++ [last])) a := by
  obtain ⟨hfirst, hlast⟩ := List.forall_mem_cons.1 hmarks
  have happend := (h.mark first hfirst).append (hcs.append (h.mark last (hlast last List.mem_cons_self)))
  rwa [Bool.false_or, Bool.or_false] at happend

theorem adds_joined_cons (h : IsScan scan p) (hcs : Adds scan cs a) {parts : List (List Char)}
    (hparts : Adds scan (joined [',', ' '] parts) b) : Adds scan (joined [',', ' '] (cs :: parts)) (a || b) := by
  cases parts with
  | nil =>
    have hb : b = false := (h.eq_of_adds hparts).symm.trans h.nil
    rwa [joined, hb, Bool.or_false]
  | cons q r =>
    have hmarks : ∀ c ∈ [',', ' '], c ∈ ['[', ']', '{', '}', ',', ':', ' '] := by simp
    have happend := (hcs.append (h.adds_marks hmarks)).append hparts
    rwa [Bool.or_false] at happend

mutual

theorem adds_line (h : IsScan scan p) : (v : Value) → Adds scan (line v) (v.someAtom p)
  | .null => h.scalar .null _ rfl
  | .bool b => h.scalar (.bool b) _ rfl
  | .int i => h.scalar (.int i) _ rfl
  | .float x => h.scalar (.float x) _ rfl
  | .text s => h.scalar (.text s) _ rfl
  | .bytes bs => h.scalar (.bytes bs) _ rfl
  | .list vs => h.adds_between (by simp) (h.adds_lineElements vs)
  | .object ms => h.adds_between (by simp) (h.adds_lineMembers ms)

theorem adds_lineElements (h : IsScan scan p) : (vs : List Value) → Adds scan (joined [',', ' '] (lineElements vs)) (Value.someElementAtom p vs)
  | [] => adds_nil
  | v :: r => h.adds_joined_cons (h.adds_line v) (h.adds_lineElements r)

theorem adds_lineMembers (h : IsScan scan p) :
    (ms : List (String × Value)) → Adds scan (joined [',', ' '] (lineMembers ms)) (Value.someMemberAtom p ms)
  | [] => adds_nil
  | (k, v) :: r => by
    have hmarks : ∀ c ∈ [':', ' '], c ∈ ['[', ']', '{', '}', ',', ':', ' '] := by simp
    have hmember := (h.scalar (.text k) _ rfl).append ((h.adds_marks hmarks).append (h.adds_line v))
    exact h.adds_joined_cons hmember (h.adds_lineMembers r)

end

theorem scan_line (h : IsScan scan p) (v : Value) : scan (line v) = v.someAtom p := h.eq_of_adds (h.adds_line v)

end IsScan

end Json

end BehaviorTree
