import BehaviorTree.Proofs.Session.Growth
import BehaviorTree.Proofs.Session.Run
import BehaviorTree.Proofs.Store.Refusals

/-!
Edits that fail. Most of them check everything before they change anything. Those that make nodes or connections issue an id before
they are sure of the rest: when they fail after that, the id is lost, and of several clones those that were made before remain. Those that
change one node hand out a copy of it at the end: when that cannot be made, the change stays.
-/

set_option autoImplicit false

namespace BehaviorTree

namespace Session

open Relation

variable {s t u : Session} {f : Fault} {α β : Type} {id : String} {a b c : Value}

/-- Is all that was there still there as it was, has no counter gone back, and did nothing change but the store? -/
structure Extends (s t : Session) : Prop where
  nodes : s.graph.nodes <+: t.graph.nodes
  connections : s.graph.connections <+: t.graph.connections
  nextNode : s.store.nodeIds.next ≤ t.store.nodeIds.next
  nextConnection : s.store.connectionIds.next ≤ t.store.connectionIds.next
  rest : t = { s with store := t.store }

theorem Extends.refl (s : Session) : Extends s s := ⟨List.prefix_rfl, List.prefix_rfl, Int.le_refl _, Int.le_refl _, rfl⟩

theorem Extends.trans (h : Extends s t) (h' : Extends t u) : Extends s u where
  nodes := h.nodes.trans h'.nodes
  connections := h.connections.trans h'.connections
  nextNode := Int.le_trans h.nextNode h'.nextNode
  nextConnection := Int.le_trans h.nextConnection h'.nextConnection
  rest := by
    have hu := h'.rest
    rw [h.rest] at hu
    exact hu

theorem AddStep.extends (h : AddStep s t) : Extends s t := by
  cases h with
  | nodeIssued => exact ⟨List.prefix_rfl, List.prefix_rfl, Int.le_of_lt (Int.lt_succ _), Int.le_refl _, rfl⟩
  | connectionIssued => exact ⟨List.prefix_rfl, List.prefix_rfl, Int.le_refl _, Int.le_of_lt (Int.lt_succ _), rfl⟩
  | nodeAdded n =>
    unfold Store.addNode
    split_ifs with hthere
    · exact .refl s
    · have hfresh : n.id ∉ Table.keys s.store.graph.nodes := fun hmem => hthere (Table.holds_iff.2 hmem)
      rw [Table.insert_fresh hfresh]
      exact ⟨List.prefix_append _ _, List.prefix_rfl, Int.le_refl _, Int.le_refl _, rfl⟩
  | connectionAdded c =>
    unfold Store.addConnection
    split_ifs with hthere
    · exact .refl s
    · have hfresh : c.id ∉ Table.keys s.store.graph.connections := fun hmem => hthere (Table.holds_iff.2 hmem)
      split
      · rw [Table.insert_fresh hfresh]
        exact ⟨List.prefix_rfl, List.prefix_append _ _, Int.le_refl _, Int.le_refl _, rfl⟩
      · exact .refl s

/-- Nothing at all, unless the call came as far as to issue an id. Then a counter has gone up, and what was there is there as it was. -/
structure Leaves (issued : Prop) (s t : Session) : Prop where
  nothing : ¬ issued → t = s
  grown : Extends s t
  ids : issued → s.store.nodeIds.next < t.store.nodeIds.next ∨ s.store.connectionIds.next < t.store.connectionIds.next

theorem Leaves.of_same {issued : Prop} (h : t = s) (hissued : ¬ issued) : Leaves issued s t :=
  ⟨fun _ => h, h ▸ .refl t, fun hi => absurd hi hissued⟩

theorem Leaves.congr {p q : Prop} (h : Leaves p s t) (hpq : p ↔ q) : Leaves q s t := by
  rwa [← hpq]

/-- Does a fault come when a change is written already? -/
def Fault.isLate : Fault → Bool
  | .store f => f.isLate
  | _ => false

inductive Fails (issued : Prop) (s : Session) (f : Fault) (t : Session) : Prop
  | early (early : f.isLate = false) (leaves : Leaves issued s t)
  | late (late : f.isLate = true) (unissued : ¬ issued) (written : s.store.Overwrites t.store) (rest : t = { s with store := t.store })

theorem Fails.congr {p q : Prop} (h : Fails p s f t) (hpq : p ↔ q) : Fails q s f t := by
  rwa [← hpq]

theorem Fails.refused {issued : Prop} (hearly : f.isLate = false) (hissued : ¬ issued) : Fails issued s f s :=
  .early hearly (.of_same rfl hissued)

end Session

end BehaviorTree
