import BehaviorTree.Proofs.Distinct
import BehaviorTree.Proofs.Session.Calls
import BehaviorTree.Proofs.Session.Growth

/-!
No node is selected twice. Acts leave the selection as it is, take nodes out of it, add one that is not in it, or replace it by
different nodes; a document empties it, and the store does not know of it.
-/

set_option autoImplicit false

namespace BehaviorTree.Session

variable {s t : Session}

def IsDistinct (s : Session) : Prop := s.selection.nodes.Nodup

theorem IsDistinct.of_undisturbed (h : s.IsDistinct) (hst : Undisturbed s t) : t.IsDistinct := by
  rw [IsDistinct, hst.selection]
  exact h

theorem isDistinct_selectNodes (ids : List String) : (s.selectNodes ids).IsDistinct := (nodup_eraseDups ids).filter _

theorem nodup_selectAlso {others : List String} (h : others.Nodup) (id : String) :
    (if others.contains id then others else others ++ [id]).Nodup := by
  split_ifs with hheld
  · exact h
  · have hnew : id ∉ others := by simpa using hheld
    exact List.nodup_append_comm.2 (List.nodup_cons.2 ⟨hnew, h⟩)

theorem IsDistinct.selectNode (h : s.IsDistinct) (id : String) (add : Bool) : (s.selectNode id add).2.IsDistinct := by
  unfold Session.selectNode
  split
  · exact h
  · cases add with
    | false => exact nodup_selectAlso List.nodup_nil id
    | true => exact nodup_selectAlso h id

theorem IsDistinct.deselectNode (h : s.IsDistinct) (id : String) : (s.deselectNode id).IsDistinct := by
  unfold Session.deselectNode
  split_ifs
  · exact List.Nodup.erase id h
  · exact h

theorem IsDistinct.endBox (h : s.IsDistinct) (add : Bool) : (s.endBox add).2.IsDistinct := by
  unfold Session.endBox
  split
  · exact h
  · dsimp only
    split
    · exact h
    · exact isDistinct_selectNodes _

theorem IsDistinct.deleteNode (h : s.IsDistinct) (id : String) : (s.deleteNode id).2.IsDistinct := by
  unfold Session.deleteNode
  dsimp only
  split_ifs
  · exact List.Nodup.erase id h
  · exact h

theorem IsDistinct.deleteNodes (h : s.IsDistinct) (ids : List String) : (s.deleteNodes ids).2.IsDistinct := by
  induction ids generalizing s with
  | nil => exact h
  | cons id r ih => exact ih (h.deleteNode id)

theorem IsDistinct.deleteSelectedNodes (h : s.IsDistinct) : s.deleteSelectedNodes.2.IsDistinct := by
  unfold Session.deleteSelectedNodes
  split
  · exact h
  · exact List.nodup_nil

theorem IsDistinct.removeCustomType (h : s.IsDistinct) (type : String) : (s.removeCustomType type).2.IsDistinct := by
  unfold Session.removeCustomType
  split
  · exact h
  · exact h.deleteNodes _

theorem IsDistinct.deleteConnection (h : s.IsDistinct) (id : String) : (s.deleteConnection id).2.IsDistinct := by
  unfold Session.deleteConnection
  dsimp only
  split_ifs <;> exact h

theorem IsDistinct.selectConnection (h : s.IsDistinct) (id : String) : (s.selectConnection id).2.IsDistinct := by
  unfold Session.selectConnection
  split <;> exact h

theorem IsDistinct.deselectConnection (h : s.IsDistinct) : s.deselectConnection.IsDistinct := by
  unfold Session.deselectConnection
  split <;> exact h

theorem IsDistinct.startPending (h : s.IsDistinct) (node side : String) : (s.startPending node side).2.IsDistinct := by
  unfold Session.startPending
  split_ifs <;> exact h

theorem IsDistinct.createConnection (h : s.IsDistinct) (source target : String) : (s.createConnection source target).2.IsDistinct :=
  h.of_undisturbed (undisturbed_of_adds (adds_createConnection s source target))

theorem IsDistinct.completePending (h : s.IsDistinct) (node side : String) : (s.completePending node side).2.IsDistinct := by
  have hcleared : IsDistinct { s with pending := none } := h
  unfold Session.completePending
  split
  · exact h
  · dsimp only
    split_ifs
    · exact hcleared
    · exact hcleared
    · exact hcleared.createConnection _ _
    · exact hcleared.createConnection _ _

theorem IsDistinct.cancelPending (h : s.IsDistinct) : s.cancelPending.IsDistinct := by
  unfold Session.cancelPending
  split <;> exact h

theorem IsDistinct.act {asked : String} (h : s.IsDistinct) (hst : Act s asked t) : t.IsDistinct := by
  cases hst with
  | nothing => exact h
  | addCustomType definition => exact h.of_undisturbed (undisturbed_addCustomType definition)
  | removeCustomType type => exact h.removeCustomType type
  | toggleCollapsed category => exact h
  | createNode type category x y name => exact h.of_undisturbed (undisturbed_of_adds (adds_createNode s type category x y name))
  | deleteNode id => exact h.deleteNode id
  | deleteNodes ids => exact h.deleteNodes ids
  | deleteSelectedNodes => exact h.deleteSelectedNodes
  | cloneNode id offsetX offsetY => exact h.of_undisturbed (undisturbed_of_adds (adds_cloneNode s id offsetX offsetY))
  | cloneEach ids offsetX offsetY => exact h.of_undisturbed (undisturbed_of_adds (adds_cloneEach s ids offsetX offsetY []))
  | cloneNodes ids offsetX offsetY => exact h.of_undisturbed (undisturbed_of_adds (adds_cloneNodes s ids offsetX offsetY))
  | updateNodeProperties id properties => exact h.of_undisturbed (undisturbed_updateNodeProperties id properties)
  | renameNode id name => exact h.of_undisturbed (undisturbed_renameNode id name)
  | moveNode id x y => exact h.of_undisturbed (undisturbed_moveNode id x y)
  | alignSelectedNodes how => exact h.of_undisturbed (undisturbed_alignSelectedNodes how)
  | createConnection source target => exact h.createConnection source target
  | deleteConnection id => exact h.deleteConnection id
  | selectConnection id => exact h.selectConnection id
  | deselectConnection => exact h.deselectConnection
  | startPending node side => exact h.startPending node side
  | completePending node side => exact h.completePending node side
  | dropPending => exact h
  | cancelPending => exact h.cancelPending
  | selectNode id add => exact h.selectNode id add
  | selectNodes ids => exact isDistinct_selectNodes ids
  | deselectNode id => exact h.deselectNode id
  | clearSelection => exact List.nodup_nil
  | startBox x y => exact h
  | updateBox x y => exact h.of_undisturbed (undisturbed_updateBox x y)
  | endBox add => exact h.endBox add
  | updateGrid updates => exact h.of_undisturbed (undisturbed_updateGrid updates)
  | updateViewport updates => exact h.of_undisturbed (undisturbed_updateViewport updates)
  | autoLayout => exact h.of_undisturbed (undisturbed_autoLayout s)
  | reset => exact List.nodup_nil
  | report message answer => exact h
  | clearReports answer => exact h

theorem IsDistinct.apply (h : s.IsDistinct) (l : Loaded) : (s.apply l).2.IsDistinct := by
  unfold Session.apply
  split
  · exact h
  · exact List.nodup_nil

theorem isDistinct_afterAll (config : EditorConfig) (catalog : Catalog) (cs : List Call) :
    ((start config catalog).afterAll cs).IsDistinct := by
  have hstart : (start config catalog).IsDistinct := List.nodup_nil
  exact kept_by_any_calls (fun _ _ _ hst h => h.act hst) (fun _ l h => h.apply l) (fun _ _ _ h => h) hstart cs

end BehaviorTree.Session
