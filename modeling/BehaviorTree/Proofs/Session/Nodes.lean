import BehaviorTree.Proofs.Session.Core
import BehaviorTree.Session.Nodes

/-!
What the operations on nodes and custom types do to the core of a session.
-/

set_option autoImplicit false

namespace BehaviorTree.Session

open Relation

variable {s t : Session} {n m : Node} {d : NodeType} {id : String} {type category x y name : Value}

theorem text_of_key {v : Value} {k : String} (h : v.key = .text k) : v = .text k := by
  cases v <;> simp_all [Value.key]

theorem newNode_reads {g : GridSettings} (h : newNode g id type category x y name d = .ok n) :
    n.id = id ∧ (∀ k, type = .text k → n.type = k) ∧ ∀ k, category = .text k → n.category = k := by
  obtain ⟨a, _, h⟩ := bind_eq_ok.1 h
  obtain ⟨b, _, h⟩ := bind_eq_ok.1 h
  rw [mapError_eq_ok, Schema.Checked.report_eq_ok] at h
  obtain ⟨hi, ht, hc, _⟩ := Node.ofMembers_eq_ok h
  refine ⟨Schema.required_text rfl hi, ?_, ?_⟩
  · rintro k rfl
    exact Schema.required_text rfl ht
  · rintro k rfl
    exact Schema.required_text rfl hc

theorem definition?_isSome_of_custom {k : String} (h : (s.customTypes.find? fun d => d.type = k).isSome) (category : String) :
    (s.definition? k category).isSome := by
  unfold definition? Catalog.find?
  split
  · rfl
  · exact h

theorem newNode_defined {g : GridSettings} (hd : s.definitionOf type category = .ok (some d))
    (h : newNode g id type category x y name d = .ok n) : (s.definition? n.type n.category).isSome := by
  obtain ⟨_, htype, hcategory⟩ := newNode_reads h
  unfold definitionOf Catalog.findBy? at hd
  split at hd
  · cases hd
  · cases hd
  · rename_i t c ht hc
    rw [htype t (text_of_key ht), hcategory c (text_of_key hc)]
    have hfound := Except.ok.inj hd
    rw [definition?, hfound]
    rfl
  · rename_i t ht _
    rw [htype t (text_of_key ht)]
    have hfound := Except.ok.inj hd
    exact definition?_isSome_of_custom (hfound ▸ rfl) _
  · cases hd

theorem edited_createNode : Edited s (s.createNode type category x y name).2 := by
  unfold createNode
  split
  · exact edited_refl s
  · exact edited_refl s
  · rename_i d hd
    split
    · rename_i hissue
      exact edited_issueNodeId hissue
    · rename_i id t hissue
      split
      · exact edited_issueNodeId hissue
      · rename_i n hn
        have hw := nodeIds_writable hissue
        obtain ⟨rfl, rfl⟩ := issueNodeId_eq_ok hissue
        exact edited_of_step fun _ => Store.step_addNode (newNode_reads hn).1 hw (.inl (newNode_defined hd hn))

theorem edited_deleteNode : Edited s (s.deleteNode id).2 := by
  have hstep : Edited s { s with store := (s.store.removeNode id).2 } := edited_of_step Store.step_removeNode
  refine hstep.then_core_eq ?_
  unfold deleteNode
  dsimp only
  split_ifs <;> rfl

theorem edited_deleteNodes (ids : List String) : Edited s (s.deleteNodes ids).2 := by
  induction ids generalizing s with
  | nil => exact edited_refl s
  | cons id r ih => exact edited_deleteNode.trans ih

theorem graph_deleteNode (id : String) (hs : s.graph.IsSound) : (s.deleteNode id).2.graph = s.graph.without id := by
  have hcontent : (s.deleteNode id).2.store.content = (s.store.removeNode id).2.content := by
    unfold deleteNode
    dsimp only
    split_ifs <;> rfl
  rw [Store.content_removeNode hs] at hcontent
  exact congrArg Content.graph hcontent

theorem graph_deleteNodes (hs : s.graph.IsSound) (ids : List String) : (s.deleteNodes ids).2.graph = s.graph.withoutAll ids := by
  induction ids generalizing s with
  | nil => exact (Graph.withoutAll_nil _).symm
  | cons id r ih =>
    have hgraph := graph_deleteNode id hs
    have hrest : (s.deleteNodes (id :: r)).2.graph = ((s.deleteNode id).2.deleteNodes r).2.graph := rfl
    rw [hrest, ih (hgraph ▸ hs.without), hgraph, Graph.withoutAll_cons]

theorem mem_nodeList_deleteNodes {ids : List String} (hs : s.graph.IsSound) (h : n ∈ (s.deleteNodes ids).2.graph.nodeList) :
    n ∈ s.graph.nodeList ∧ n.id ∉ ids := by
  rw [graph_deleteNodes hs] at h
  obtain ⟨r, hr, rfl⟩ := List.mem_map.1 h
  obtain ⟨hmem, hid⟩ := List.mem_filter.1 hr
  rw [hs.nodes.own r hmem]
  exact ⟨List.mem_map_of_mem hmem, of_decide_eq_true hid⟩

theorem sparesKind_properties (v : Value) : SparesKind [("properties", v)] := by
  simp [SparesKind, Table.keys]

theorem sparesKind_name (v : Value) : SparesKind [("name", v)] := by
  simp [SparesKind, Table.keys]

theorem edited_updateNodeProperties {properties : Value} : Edited s (s.updateNodeProperties id properties).2 := by
  unfold updateNodeProperties
  split
  · exact edited_refl s
  · rename_i v _
    exact edited_of_step fun _ => Store.step_updateNode (sparesKind_properties v)

theorem edited_renameNode : Edited s (s.renameNode id name).2 :=
  edited_of_step fun _ => Store.step_updateNode (sparesKind_name name)

theorem edited_moveNode : Edited s (s.moveNode id x y).2 := by
  unfold moveNode
  split
  · exact edited_refl s
  · exact edited_of_step fun _ => Store.step_moveNode

theorem sparesKind_alignUpdate (a : Alignment) (x : Float) (n : Node) : SparesKind (Table.erase (alignUpdate a x n) "id") := by
  cases a <;> simp [alignUpdate, Alignment.isHorizontal, Table.erase, SparesKind, Table.keys]

theorem edited_align (a : Alignment) (nodes : List Node) : Edited s (s.align a nodes).2 := by
  unfold align
  dsimp only
  split
  · exact edited_refl s
  · refine edited_of_step fun _ => Store.step_updateNodes fun u hu => ?_
    obtain ⟨n, _, rfl⟩ := List.mem_map.1 hu
    exact sparesKind_alignUpdate a _ n

theorem edited_alignSelectedNodes (how : String) : Edited s (s.alignSelectedNodes how).2 := by
  unfold alignSelectedNodes
  dsimp only
  split_ifs
  · exact edited_refl s
  · split
    · exact edited_refl s
    · exact edited_align _ _

theorem edited_addCustomType (definition : Value) : Edited s (s.addCustomType definition).2 := by
  unfold addCustomType
  split
  · exact edited_refl s
  · rename_i t ht
    split_ifs with hempty htaken
    · exact edited_refl s
    · exact edited_refl s
    · have hnamed : t.type ≠ "" ∧ t.category ≠ "" := by simpa using hempty
      have hnew : s.catalog.isRegistered t.type = false ∧ ∀ u ∈ s.customTypes, u.type ≠ t.type := by simpa using htaken
      exact fun _ => .single (.typeAdded s.core { t with builtin := false } ⟨definition, t, ht, rfl⟩ hnamed hnew.1 hnew.2)

theorem edited_removeCustomType (type : String) : Edited s (s.removeCustomType type).2 := by
  unfold removeCustomType
  split
  · exact edited_refl s
  · let doomed := (s.graph.nodeList.filter fun n => n.type = type).map Node.id
    have hdeleted : Edited s (s.deleteNodes doomed).2 := edited_deleteNodes doomed
    refine hdeleted.trans_of_sound fun hs => ?_
    refine .single (.typeRemoved (s.deleteNodes doomed).2.core type fun n hn htype => ?_)
    obtain ⟨hmem, hid⟩ := mem_nodeList_deleteNodes hs hn
    exact hid (List.mem_map_of_mem (List.mem_filter.2 ⟨hmem, decide_eq_true htype⟩))

end BehaviorTree.Session
