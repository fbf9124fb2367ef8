import BehaviorTree.Proofs.Session.FreshIds
import BehaviorTree.Proofs.Session.Growth

/-!
What hardly any act of a session changes. The configuration and the catalog stay as they are whatever the session is asked for, the
viewport unless it is to be updated, and the custom types unless one of them is to be added or removed.
-/

set_option autoImplicit false

namespace BehaviorTree.Session

variable {s t : Session} {asked : String}

def fixtures (s : Session) : EditorConfig × Catalog × List NodeType × Viewport := (s.config, s.catalog, s.customTypes, s.viewport)

theorem fixtures_of_adds (h : Adds s t) : t.fixtures = s.fixtures := by
  induction h with
  | refl => rfl
  | tail _ hstep ih => cases hstep <;> exact ih

theorem fixtures_createConnection (source target : String) : (s.createConnection source target).2.fixtures = s.fixtures :=
  fixtures_of_adds (adds_createConnection s source target)

theorem fixtures_deleteNode (id : String) : (s.deleteNode id).2.fixtures = s.fixtures := by
  unfold deleteNode
  dsimp only
  split_ifs <;> rfl

theorem fixtures_deleteNodes (ids : List String) : (s.deleteNodes ids).2.fixtures = s.fixtures := by
  induction ids generalizing s with
  | nil => rfl
  | cons id r ih => exact ih.trans (fixtures_deleteNode id)

theorem fixtures_act (h : Act s asked t) :
    t.fixtures = s.fixtures ∨ (asked = "update_viewport" ∧ ∃ updates, t = (s.updateViewport updates).2) ∨
      (∃ definition, t = (s.addCustomType definition).2) ∨ ∃ type, t = (s.removeCustomType type).2 := by
  cases h with
  | nothing => exact .inl rfl
  | addCustomType definition => exact .inr (.inr (.inl ⟨definition, rfl⟩))
  | removeCustomType type => exact .inr (.inr (.inr ⟨type, rfl⟩))
  | toggleCollapsed => exact .inl rfl
  | createNode type category x y name => exact .inl (fixtures_of_adds (adds_createNode s type category x y name))
  | deleteNode id => exact .inl (fixtures_deleteNode id)
  | deleteNodes ids => exact .inl (fixtures_deleteNodes ids)
  | deleteSelectedNodes =>
    left
    unfold deleteSelectedNodes
    split
    · rfl
    · exact fixtures_deleteNodes _
  | cloneNode id offsetX offsetY => exact .inl (fixtures_of_adds (adds_cloneNode s id offsetX offsetY))
  | cloneEach ids offsetX offsetY => exact .inl (fixtures_of_adds (adds_cloneEach s ids offsetX offsetY []))
  | cloneNodes ids offsetX offsetY => exact .inl (fixtures_of_adds (adds_cloneNodes s ids offsetX offsetY))
  | updateNodeProperties id properties =>
    left
    unfold updateNodeProperties
    split <;> rfl
  | renameNode => exact .inl rfl
  | moveNode id x y =>
    left
    unfold moveNode
    split <;> rfl
  | alignSelectedNodes how =>
    left
    unfold alignSelectedNodes align
    dsimp only
    split_ifs
    · rfl
    · split
      · rfl
      · split <;> rfl
  | createConnection source target => exact .inl (fixtures_createConnection source target)
  | deleteConnection id =>
    left
    unfold deleteConnection
    dsimp only
    split_ifs <;> rfl
  | selectConnection id =>
    left
    unfold selectConnection
    split <;> rfl
  | deselectConnection =>
    left
    unfold deselectConnection
    split <;> rfl
  | startPending node side =>
    left
    unfold startPending
    split_ifs <;> rfl
  | completePending node side =>
    left
    unfold completePending
    split
    · rfl
    · dsimp only
      split_ifs
      · rfl
      · rfl
      · exact fixtures_createConnection _ _
      · exact fixtures_createConnection _ _
  | dropPending => exact .inl rfl
  | cancelPending =>
    left
    unfold cancelPending
    split <;> rfl
  | selectNode id add =>
    left
    unfold selectNode
    split_ifs <;> rfl
  | selectNodes => exact .inl rfl
  | deselectNode id =>
    left
    unfold deselectNode
    split_ifs <;> rfl
  | clearSelection => exact .inl rfl
  | startBox => exact .inl rfl
  | updateBox x y =>
    left
    unfold updateBox
    split_ifs <;> rfl
  | endBox add =>
    left
    unfold endBox
    split
    · rfl
    · dsimp only
      split <;> rfl
  | updateGrid updates =>
    left
    unfold updateGrid
    split <;> rfl
  | updateViewport updates hasked => exact .inr (.inl ⟨hasked, updates, rfl⟩)
  | autoLayout =>
    left
    unfold autoLayout
    split <;> rfl
  | reset => exact .inl rfl
  | report => exact .inl rfl
  | clearReports => exact .inl rfl

structure Keeps (s : Session) (asked : String) (t : Session) : Prop where
  config : t.config = s.config
  catalog : t.catalog = s.catalog
  viewport : t.viewport = s.viewport ∨ asked = "update_viewport"
  customTypes : t.customTypes = s.customTypes ∨ (∃ definition, t = (s.addCustomType definition).2) ∨
    ∃ type, t = (s.removeCustomType type).2

theorem keeps_of_fixtures_eq (h : t.fixtures = s.fixtures) : Keeps s asked t where
  config := congrArg (fun f => f.1) h
  catalog := congrArg (fun f => f.2.1) h
  viewport := .inl (congrArg (fun f => f.2.2.2) h)
  customTypes := .inl (congrArg (fun f => f.2.2.1) h)

theorem keeps_updateViewport (updates : Table Value) : Keeps s "update_viewport" (s.updateViewport updates).2 := by
  unfold updateViewport
  split
  · exact ⟨rfl, rfl, .inr rfl, .inl rfl⟩
  · split_ifs <;> exact ⟨rfl, rfl, .inr rfl, .inl rfl⟩

theorem keeps_addCustomType (definition : Value) : Keeps s asked (s.addCustomType definition).2 := by
  suffices h : (s.addCustomType definition).2.config = s.config ∧ (s.addCustomType definition).2.catalog = s.catalog ∧
      (s.addCustomType definition).2.viewport = s.viewport from ⟨h.1, h.2.1, .inl h.2.2, .inr (.inl ⟨definition, rfl⟩)⟩
  unfold addCustomType
  split
  · exact ⟨rfl, rfl, rfl⟩
  · split_ifs <;> exact ⟨rfl, rfl, rfl⟩

theorem keeps_removeCustomType (type : String) : Keeps s asked (s.removeCustomType type).2 := by
  suffices h : (s.removeCustomType type).2.config = s.config ∧ (s.removeCustomType type).2.catalog = s.catalog ∧
      (s.removeCustomType type).2.viewport = s.viewport from ⟨h.1, h.2.1, .inl h.2.2, .inr (.inr ⟨type, rfl⟩)⟩
  unfold removeCustomType
  split
  · exact ⟨rfl, rfl, rfl⟩
  · have hdeleted (ids : List String) : (s.deleteNodes ids).2.fixtures = s.fixtures := fixtures_deleteNodes ids
    exact ⟨congrArg (fun f => f.1) (hdeleted _), congrArg (fun f => f.2.1) (hdeleted _), congrArg (fun f => f.2.2.2) (hdeleted _)⟩

theorem keeps_act (h : Act s asked t) : Keeps s asked t := by
  rcases fixtures_act h with hsame | ⟨rfl, updates, rfl⟩ | ⟨definition, rfl⟩ | ⟨type, rfl⟩
  · exact keeps_of_fixtures_eq hsame
  · exact keeps_updateViewport updates
  · exact keeps_addCustomType definition
  · exact keeps_removeCustomType type

theorem config_apply (s : Session) (l : Loaded) : (s.apply l).2.config = s.config := by
  unfold apply
  split <;> rfl

theorem config_afterAll {cs : List Call} (h : ∀ c ∈ cs, c.IsOwn) : (s.afterAll cs).config = s.config :=
  kept_by_calls (P := fun t => t.config = s.config) (fun _ _ _ hst ht => (keeps_act hst).config.trans ht)
    (fun t l _ ht => (config_apply t l).trans ht) (fun c hc => (h c hc).takesOver) rfl

end BehaviorTree.Session
