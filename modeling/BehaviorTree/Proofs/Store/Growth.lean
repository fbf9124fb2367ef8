import BehaviorTree.Proofs.Table
import BehaviorTree.Store.Mutate

/-!
Operations that take nothing away. Whatever adds or changes nodes or adds connections leaves all that was there in its place, so that
what referred to a node or a connection before still refers to one.
-/

set_option autoImplicit false

namespace BehaviorTree

structure Graph.Grows (g f : Graph) : Prop where
  nodes : Table.keys g.nodes <+: Table.keys f.nodes
  connections : Table.keys g.connections <+: Table.keys f.connections

variable {f g h : Graph}

theorem Graph.Grows.refl (g : Graph) : g.Grows g := ⟨List.prefix_rfl, List.prefix_rfl⟩

theorem Graph.Grows.trans (hgf : g.Grows f) (hfh : f.Grows h) : g.Grows h :=
  ⟨hgf.nodes.trans hfh.nodes, hgf.connections.trans hfh.connections⟩

namespace Store

variable {s : Store}

theorem grows_addNode (n : Node) : s.graph.Grows (s.addNode n).2.graph := by
  unfold addNode
  split_ifs
  · exact .refl _
  · exact ⟨Table.keys_prefix_insert _ _ _, List.prefix_rfl⟩

theorem grows_addConnection (c : Connection) : s.graph.Grows (s.addConnection c).2.graph := by
  unfold addConnection
  split_ifs
  · exact .refl _
  · split
    · exact ⟨List.prefix_rfl, Table.keys_prefix_insert _ _ _⟩
    · exact .refl _

theorem grows_updateNode (id : String) (updates : Table Value) : s.graph.Grows (s.updateNode id updates).2.graph := by
  unfold updateNode
  split
  · exact .refl _
  · split
    · exact .refl _
    · exact ⟨Table.keys_prefix_insert _ _ _, List.prefix_rfl⟩

theorem grows_moveNode (id : String) (x y : Value) : s.graph.Grows (s.moveNode id x y).2.graph := by
  unfold moveNode
  split
  · exact .refl _
  · split
    · exact .refl _
    · exact ⟨Table.keys_prefix_insert _ _ _, List.prefix_rfl⟩

theorem grows_updateNodes (updates : List (Table Value)) : s.graph.Grows (s.updateNodes updates).2.graph := by
  unfold updateNodes
  split
  · exact .refl _
  · exact .refl _
  · exact ⟨Table.keys_prefix_overlay _ _, List.prefix_rfl⟩

end Store

end BehaviorTree
