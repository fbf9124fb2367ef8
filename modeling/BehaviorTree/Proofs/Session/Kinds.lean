import BehaviorTree.Proofs.Session.CustomTypes
import BehaviorTree.Proofs.Store.Identity

/-!
The kinds of nodes, which are their types and categories. A node is made of a kind that is given, and a clone is of the kind of its
original. Nothing else that a session is asked for brings nodes or changes their kinds.
-/

set_option autoImplicit false

namespace BehaviorTree

def Graph.KindsFrom (f g : Graph) : Prop := ∀ n ∈ f.nodeList, ∃ m ∈ g.nodeList, m.type = n.type ∧ m.category = n.category

namespace Graph.KindsFrom

variable {f g h : Graph} {n m : Node}

theorem refl (g : Graph) : g.KindsFrom g := fun n hn => ⟨n, hn, rfl, rfl⟩

theorem trans (hf : f.KindsFrom g) (hg : g.KindsFrom h) : f.KindsFrom h := fun n hn => by
  obtain ⟨m, hm, htype, hcategory⟩ := hf n hn
  obtain ⟨o, ho, htype', hcategory'⟩ := hg m hm
  exact ⟨o, ho, htype'.trans htype, hcategory'.trans hcategory⟩

theorem of_subset (hsub : ∀ n ∈ f.nodeList, n ∈ g.nodeList) : f.KindsFrom g := fun n hn => ⟨n, hsub n hn, rfl, rfl⟩

theorem addNode (hm : m ∈ g.nodeList) (htype : m.type = n.type) (hcategory : m.category = n.category) : (g.addNode n).KindsFrom g := by
  intro k hk
  rw [nodeList_addNode, List.mem_append, List.mem_singleton] at hk
  rcases hk with hk | rfl
  · exact ⟨k, hk, rfl, rfl⟩
  · exact ⟨m, hm, htype, hcategory⟩

end Graph.KindsFrom

theorem Content.Step.kindsFrom {k l : Content} (step : Step (fun _ _ => none) k l) (hs : k.graph.IsSound) :
    l.graph.KindsFrom k.graph := by
  cases step with
  | nodeIssued => exact .refl _
  | connectionIssued => exact .refl _
  | nodeAdded n issued fresh typed =>
    rcases typed with hnone | ⟨m, hm, htype, hcategory⟩
    · cases hnone
    · exact .addNode hm htype hcategory
  | nodesChanged nodes alike =>
    intro n hn
    have hkind : n.kind ∈ (Table.values k.graph.nodes).map Node.kind := kinds_of_alike alike ▸ List.mem_map_of_mem hn
    obtain ⟨m, hm, hmn⟩ := List.mem_map.1 hkind
    obtain ⟨_, htype, hcategory⟩ := Node.Kind.mk.inj hmn
    exact ⟨m, hm, htype, hcategory⟩
  | nodeRemoved id =>
    refine .of_subset fun n hn => ?_
    rw [Graph.nodeList_without hs] at hn
    exact (List.mem_filter.1 hn).1
  | connectionRemoved => exact .refl _
  | connected => exact .refl _
  | copied => exact .refl _
  | cleared => exact .of_subset nofun

namespace Session

variable {s t u : Session} {id : String} {offsetX offsetY : Value} {asked : String}

/-- Does the one session lead to the other without new kinds of nodes, if its graph is sound? -/
def Inherits (s t : Session) : Prop := s.graph.IsSound → t.graph.KindsFrom s.graph

theorem inherits_of_nodes_eq (h : t.graph.nodes = s.graph.nodes) : Inherits s t := fun _ =>
  .of_subset fun n hn => by rwa [Graph.nodeList, h] at hn

theorem inherits_of_core_eq (h : t.core = s.core) : Inherits s t :=
  inherits_of_nodes_eq (congrArg (fun c => c.content.graph.nodes) h)

theorem inherits_refl (s : Session) : Inherits s s := inherits_of_core_eq rfl

theorem inherits_of_step {store : Store} (h : s.graph.IsSound → Content.Step (fun _ _ => none) s.store.content store.content) :
    Inherits s { s with store := store } := fun hs => (h hs).kindsFrom hs

theorem Inherits.then_core_eq (h : Inherits s t) (h' : u.core = t.core) : Inherits s u := fun hs => by
  have hgraph : u.graph = t.graph := congrArg (fun c => c.content.graph) h'
  exact hgraph ▸ h hs

theorem Inherits.trans (h : Inherits s t) (hst : Edited s t) (h' : Inherits t u) : Inherits s u := fun hs =>
  (h' (hst.isSound hs)).trans (h hs)

theorem inherits_deleteNodes (ids : List String) : Inherits s (s.deleteNodes ids).2 := fun hs =>
  .of_subset fun _ hn => (mem_nodeList_deleteNodes hs hn).1

theorem inherits_deleteSelectedNodes (s : Session) : Inherits s s.deleteSelectedNodes.2 := by
  unfold deleteSelectedNodes
  split
  · exact inherits_refl s
  · exact (inherits_deleteNodes s.selection.nodes).then_core_eq rfl

theorem inherits_issueNodeId {r : Except Fault String} (h : s.onStore s.store.issueNodeId = (r, t)) : Inherits s t := by
  obtain ⟨_, rfl⟩ := Prod.mk.inj h
  exact inherits_of_step fun _ => .nodeIssued s.store.content

theorem inherits_cloneNode : Inherits s (s.cloneNode id offsetX offsetY).2 := by
  unfold cloneNode
  split
  · exact inherits_refl s
  · rename_i n hn
    split
    · rename_i hissue
      exact inherits_issueNodeId hissue
    · rename_i new t hissue
      split
      · exact inherits_issueNodeId hissue
      · rename_i m hm
        have hw := nodeIds_writable hissue
        obtain ⟨rfl, rfl⟩ := issueNodeId_eq_ok hissue
        obtain ⟨hid, hclone⟩ := cloneOf_eq_ok hm
        exact inherits_of_step fun _ =>
          Store.step_addNode hid hw (.inr ⟨n, Table.value_mem hn, hclone.type.symm, hclone.category.symm⟩)

theorem inherits_cloneEach (ids : List String) (clones : Table String) : Inherits s (s.cloneEach offsetX offsetY clones ids).2 := by
  induction ids generalizing s clones with
  | nil => exact inherits_refl s
  | cons id r ih =>
    have hone : Inherits s (s.cloneNode id offsetX offsetY).2 := inherits_cloneNode
    have hedited : Edited s (s.cloneNode id offsetX offsetY).2 := edited_cloneNode
    unfold cloneEach
    split
    · rename_i hr
      rw [hr] at hone
      exact hone
    · rename_i hr
      rw [hr] at hone hedited
      exact hone.trans hedited (ih _)
    · rename_i hr
      rw [hr] at hone hedited
      exact hone.trans hedited (ih _)

theorem inherits_cloneConnections (clones : Table String) (cs : List Connection) : Inherits s (s.cloneConnections clones cs).2 := by
  obtain ⟨ds, k, hrepeats, hcore, _⟩ := repeats_cloneConnections clones cs s
  have hgraph : (s.cloneConnections clones cs).2.graph = k.graph := congrArg (fun c => c.content.graph) hcore
  exact inherits_of_nodes_eq (by rw [hgraph, hrepeats.graph]; rfl)

theorem inherits_cloneNodes (ids : List String) : Inherits s (s.cloneNodes ids offsetX offsetY).2 := by
  have heach : Inherits s (s.cloneEach offsetX offsetY [] ids).2 := inherits_cloneEach ids []
  have hedited : Edited s (s.cloneEach offsetX offsetY [] ids).2 := edited_cloneEach ids
  unfold cloneNodes
  split
  · rename_i hr
    rw [hr] at heach
    exact heach
  · rename_i clones t hr
    rw [hr] at heach hedited
    have hconnections := heach.trans hedited (inherits_cloneConnections clones t.graph.connectionList)
    split
    · rename_i hr'
      rw [hr'] at hconnections
      exact hconnections
    · rename_i hr'
      rw [hr'] at hconnections
      exact hconnections

theorem inherits_updateNodeProperties (id : String) (properties : Value) : Inherits s (s.updateNodeProperties id properties).2 := by
  unfold updateNodeProperties
  split
  · exact inherits_refl s
  · rename_i v _
    exact inherits_of_step fun _ => Store.step_updateNode (sparesKind_properties v)

theorem inherits_renameNode (id : String) (name : Value) : Inherits s (s.renameNode id name).2 :=
  inherits_of_step fun _ => Store.step_updateNode (sparesKind_name name)

theorem inherits_moveNode (id : String) (x y : Value) : Inherits s (s.moveNode id x y).2 := by
  unfold moveNode
  split
  · exact inherits_refl s
  · exact inherits_of_step fun _ => Store.step_moveNode

theorem inherits_alignSelectedNodes (how : String) : Inherits s (s.alignSelectedNodes how).2 := by
  unfold alignSelectedNodes align
  dsimp only
  split_ifs
  · exact inherits_refl s
  · split
    · exact inherits_refl s
    · rename_i a _
      split
      · exact inherits_refl s
      · refine inherits_of_step fun _ => Store.step_updateNodes fun u hu => ?_
        obtain ⟨n, _, rfl⟩ := List.mem_map.1 hu
        exact sparesKind_alignUpdate a _ n

theorem inherits_autoLayout (s : Session) : Inherits s s.autoLayout.2 := by
  unfold autoLayout
  split
  · exact inherits_refl s
  · rename_i updates h
    exact inherits_of_step fun _ => Store.step_updateNodes (sparesKind_placements h)

theorem inherits_createConnection (s : Session) (source target : String) : Inherits s (s.createConnection source target).2 := by
  unfold createConnection
  split
  · exact inherits_refl s
  · split
    · rename_i hissue
      obtain ⟨_, rfl⟩ := Prod.mk.inj hissue
      exact inherits_of_nodes_eq rfl
    · rename_i hissue
      obtain ⟨rfl, rfl⟩ := issueConnectionId_eq_ok hissue
      exact inherits_of_nodes_eq (Store.nodes_addConnection s.store.issueConnectionId.2 _)

theorem inherits_completePending (s : Session) (node side : String) : Inherits s (s.completePending node side).2 := by
  unfold completePending
  split
  · exact inherits_refl s
  · dsimp only
    split_ifs
    · exact inherits_of_core_eq rfl
    · exact inherits_of_core_eq rfl
    · exact inherits_createConnection { s with pending := none } _ _
    · exact inherits_createConnection { s with pending := none } _ _

theorem inherits_deleteConnection (s : Session) (id : String) : Inherits s (s.deleteConnection id).2 := by
  have hstep : Inherits s { s with store := (s.store.removeConnection id).2 } := inherits_of_step Store.step_removeConnection
  refine hstep.then_core_eq ?_
  unfold deleteConnection
  dsimp only
  split_ifs <;> rfl

theorem inherits_addCustomType (definition : Value) : Inherits s (s.addCustomType definition).2 := by
  unfold addCustomType
  split
  · exact inherits_refl s
  · split_ifs
    · exact inherits_refl s
    · exact inherits_refl s
    · exact fun _ => .refl _

theorem inherits_removeCustomType (type : String) : Inherits s (s.removeCustomType type).2 := by
  unfold removeCustomType
  split
  · exact inherits_refl s
  · exact inherits_deleteNodes _

theorem inherits_reset (s : Session) : Inherits s s.reset := by
  have hstep : Inherits s { s with store := s.store.clear false } := inherits_of_step fun _ => .cleared s.store.content
  exact hstep.then_core_eq (core_resetTransient _)

theorem inherits_act (h : Act s asked t) (hasked : asked ≠ "create_node") : Inherits s t := by
  cases h with
  | nothing => exact inherits_refl s
  | addCustomType definition => exact inherits_addCustomType definition
  | removeCustomType type => exact inherits_removeCustomType type
  | toggleCollapsed category => exact inherits_of_core_eq (core_toggleCollapsed category)
  | createNode _ _ _ _ _ hcreate => exact absurd hcreate hasked
  | deleteNode id => exact inherits_deleteNodes [id]
  | deleteNodes ids => exact inherits_deleteNodes ids
  | deleteSelectedNodes => exact inherits_deleteSelectedNodes s
  | cloneNode => exact inherits_cloneNode
  | cloneEach ids => exact inherits_cloneEach ids []
  | cloneNodes ids => exact inherits_cloneNodes ids
  | updateNodeProperties id properties => exact inherits_updateNodeProperties id properties
  | renameNode id name => exact inherits_renameNode id name
  | moveNode id x y => exact inherits_moveNode id x y
  | alignSelectedNodes how => exact inherits_alignSelectedNodes how
  | createConnection source target => exact inherits_createConnection s source target
  | deleteConnection id => exact inherits_deleteConnection s id
  | selectConnection => exact inherits_of_core_eq core_selectConnection
  | deselectConnection => exact inherits_of_core_eq core_deselectConnection
  | startPending node side => exact inherits_of_core_eq (core_startPending side)
  | completePending node side => exact inherits_completePending s node side
  | dropPending => exact inherits_of_core_eq rfl
  | cancelPending => exact inherits_of_core_eq core_cancelPending
  | selectNode id add => exact inherits_of_core_eq (core_selectNode add)
  | selectNodes => exact inherits_of_core_eq rfl
  | deselectNode id => exact inherits_of_core_eq core_deselectNode
  | clearSelection => exact inherits_of_core_eq rfl
  | startBox => exact inherits_of_core_eq rfl
  | updateBox x y => exact inherits_of_core_eq (core_updateBox x y)
  | endBox add => exact inherits_of_core_eq (core_endBox add)
  | updateGrid updates =>
    unfold updateGrid
    split <;> exact fun _ => .refl _
  | updateViewport updates => exact inherits_of_core_eq (core_updateViewport updates)
  | autoLayout => exact inherits_autoLayout s
  | reset => exact inherits_reset s
  | report => exact inherits_of_core_eq rfl
  | clearReports answer => exact inherits_of_core_eq (core_clearReports answer)

end Session

end BehaviorTree
