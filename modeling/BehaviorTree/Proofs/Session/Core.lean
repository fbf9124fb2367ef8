import BehaviorTree.Proofs.Store.Operations
import BehaviorTree.Session.Basic

/-!
The core of a session: the content of its store, its custom types, its catalog and its grid. Everything that editing does to it is
done in steps, which are those of the store, two more for the custom types and one for the grid.
-/

set_option autoImplicit false

namespace BehaviorTree

open Relation

structure Core where
  content : Content
  customTypes : List NodeType
  catalog : Catalog
  grid : GridSettings

namespace Core

def lookup (c : Core) : String → String → Option NodeType := c.catalog.find? c.customTypes

inductive Step : Core → Core → Prop
  | edited (c : Core) (k : Content) (step : c.content.Step c.lookup k) : Step c { c with content := k }
  | typeAdded (c : Core) (t : NodeType) (read : ∃ v u, NodeType.ofValue v = .ok u ∧ t = { u with builtin := false })
      (named : t.type ≠ "" ∧ t.category ≠ "") (unregistered : c.catalog.isRegistered t.type = false)
      (fresh : ∀ u ∈ c.customTypes, u.type ≠ t.type) : Step c { c with customTypes := c.customTypes ++ [t] }
  | typeRemoved (c : Core) (type : String) (unused : ∀ n ∈ c.content.graph.nodeList, n.type ≠ type) :
      Step c { c with customTypes := c.customTypes.eraseP fun t => t.type = type }
  | gridChanged (c : Core) (g : GridSettings) (read : ∃ ms, GridSettings.ofMembers ms = .ok g) : Step c { c with grid := g }

variable {c d : Core}

theorem steps_of_content (c : Core) {k : Content} (h : ReflTransGen (Content.Step c.lookup) c.content k) :
    ReflTransGen Step c { c with content := k } := by
  induction h with
  | refl => exact .refl
  | @tail k l _ hstep ih => exact ih.tail (.edited { c with content := k } l hstep)

theorem Step.isSound (h : Step c d) (hs : c.content.graph.IsSound) : d.content.graph.IsSound := by
  cases h with
  | edited k step => exact step.isSound hs
  | typeAdded => exact hs
  | typeRemoved => exact hs
  | gridChanged => exact hs

theorem Step.isForest (h : Step c d) (hf : c.content.graph.IsForest) : d.content.graph.IsForest := by
  cases h with
  | edited k step => exact step.isForest hf
  | typeAdded => exact hf
  | typeRemoved => exact hf
  | gridChanged => exact hf

theorem kept_by_steps {P : Core → Prop} (h : ReflTransGen Step c d) (hP : ∀ c d, Step c d → P c → P d) (hc : P c) : P d := by
  induction h with
  | refl => exact hc
  | tail _ hstep ih => exact hP _ _ hstep ih

theorem steps_isSound (h : ReflTransGen Step c d) (hs : c.content.graph.IsSound) : d.content.graph.IsSound :=
  kept_by_steps (P := fun c => c.content.graph.IsSound) h (fun _ _ h => h.isSound) hs

theorem steps_isForest (h : ReflTransGen Step c d) (hf : c.content.graph.IsForest) : d.content.graph.IsForest :=
  kept_by_steps (P := fun c => c.content.graph.IsForest) h (fun _ _ h => h.isForest) hf

end Core

namespace Session

def core (s : Session) : Core := ⟨s.store.content, s.customTypes, s.catalog, s.grid⟩

def Edited (s t : Session) : Prop := s.graph.IsSound → ReflTransGen Core.Step s.core t.core

variable {s t u : Session}

theorem edited_of_core_eq (h : t.core = s.core) : Edited s t := fun _ => h ▸ .refl

theorem edited_refl (s : Session) : Edited s s := edited_of_core_eq rfl

theorem Edited.isSound (h : Edited s t) (hs : s.graph.IsSound) : t.graph.IsSound := Core.steps_isSound (h hs) hs

theorem Edited.trans (h : Edited s t) (h' : Edited t u) : Edited s u := fun hs => (h hs).trans (h' (h.isSound hs))

theorem Edited.trans_of_sound (h : Edited s t) (h' : s.graph.IsSound → ReflTransGen Core.Step t.core u.core) : Edited s u :=
  fun hs => (h hs).trans (h' hs)

theorem Edited.then_core_eq (h : Edited s t) (h' : u.core = t.core) : Edited s u := h.trans (edited_of_core_eq h')

theorem edited_of_step {store : Store}
    (h : s.graph.IsSound → Content.Step s.definition? s.store.content store.content) : Edited s { s with store := store } :=
  fun hs => .single (.edited s.core store.content (h hs))

theorem issueNodeId_eq_ok {id : String} (h : s.onStore s.store.issueNodeId = (.ok id, t)) :
    id = s.store.nodeIds.issue.1 ∧ t = { s with store := s.store.issueNodeId.2 } := by
  obtain ⟨hr, rfl⟩ := Prod.mk.inj h
  exact ⟨Store.issued_eq_ok (mapError_eq_ok.1 hr), rfl⟩

theorem nodeIds_writable {id : String} (h : s.onStore s.store.issueNodeId = (.ok id, t)) : s.store.nodeIds.isExhausted = false :=
  Store.not_isExhausted_of_issued (mapError_eq_ok.1 (Prod.mk.inj h).1)

theorem connectionIds_writable {id : String} (h : s.onStore s.store.issueConnectionId = (.ok id, t)) :
    s.store.connectionIds.isExhausted = false :=
  Store.not_isExhausted_of_issued (mapError_eq_ok.1 (Prod.mk.inj h).1)

theorem issueConnectionId_eq_ok {id : String} (h : s.onStore s.store.issueConnectionId = (.ok id, t)) :
    id = s.store.connectionIds.issue.1 ∧ t = { s with store := s.store.issueConnectionId.2 } := by
  obtain ⟨hr, rfl⟩ := Prod.mk.inj h
  exact ⟨Store.issued_eq_ok (mapError_eq_ok.1 hr), rfl⟩

theorem edited_issueNodeId {r : Except Fault String} (h : s.onStore s.store.issueNodeId = (r, t)) : Edited s t := by
  obtain ⟨_, rfl⟩ := Prod.mk.inj h
  exact edited_of_step fun _ => .nodeIssued s.store.content

theorem edited_issueConnectionId {r : Except Fault String} (h : s.onStore s.store.issueConnectionId = (r, t)) :
    Edited s t := by
  obtain ⟨_, rfl⟩ := Prod.mk.inj h
  exact edited_of_step fun _ => .connectionIssued s.store.content

end Session

end BehaviorTree
