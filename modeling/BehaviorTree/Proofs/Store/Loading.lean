import BehaviorTree.Proofs.Result
import BehaviorTree.Proofs.Store.Graph
import BehaviorTree.Store.Mutate

/-!
Whole graphs. A list of nodes and a list of connections make a graph only if it is a sound one, and then the graph holds both lists
as they are.
-/

set_option autoImplicit false

namespace BehaviorTree.Store

variable {nodes : List Node} {cs : List Connection} {ns t : Table Node} {ds u : Table Connection} {g : Graph}

theorem nodeTable_eq_ok (h : nodeTable t nodes = .ok ns) (ht : Table.IsKeyed Node.id t) :
    Table.IsKeyed Node.id ns ∧ Table.values ns = Table.values t ++ nodes := by
  induction nodes generalizing t with
  | nil =>
    obtain rfl := Except.ok.inj h
    exact ⟨ht, (List.append_nil _).symm⟩
  | cons n r ih =>
    rw [nodeTable] at h
    split_ifs at h with hheld
    have hfresh : n.id ∉ Table.keys t := fun hmem => hheld (Table.holds_iff.2 hmem)
    rw [Table.insert_fresh hfresh] at h
    obtain ⟨hns, hvalues⟩ := ih h (ht.append_row hfresh)
    rw [hvalues, Table.values_append, List.append_assoc]
    exact ⟨hns, rfl⟩

theorem connectionTable_eq_ok (h : connectionTable ns u cs = .ok ds) (hu : Table.IsKeyed Connection.id u) :
    Table.IsKeyed Connection.id ds ∧ Table.values ds = Table.values u ++ cs ∧
      ∀ c ∈ cs, c.source ∈ Table.keys ns ∧ c.target ∈ Table.keys ns := by
  induction cs generalizing u with
  | nil =>
    obtain rfl := Except.ok.inj h
    exact ⟨hu, (List.append_nil _).symm, by simp⟩
  | cons c r ih =>
    rw [connectionTable] at h
    split_ifs at h with hheld hends
    have hfresh : c.id ∉ Table.keys u := fun hmem => hheld (Table.holds_iff.2 hmem)
    have hboth : c.source ∈ Table.keys ns ∧ c.target ∈ Table.keys ns := by simpa [Table.holds_iff] using hends
    rw [Table.insert_fresh hfresh] at h
    obtain ⟨hds, hvalues, hrest⟩ := ih h (hu.append_row hfresh)
    rw [hvalues, Table.values_append, List.append_assoc]
    exact ⟨hds, rfl, List.forall_mem_cons.2 ⟨hboth, hrest⟩⟩

theorem graphOf_eq_ok (h : graphOf nodes cs = .ok g) : g.IsSound ∧ g.nodeList = nodes ∧ g.connectionList = cs := by
  obtain ⟨ns, hns, h⟩ := bind_eq_ok.1 h
  obtain ⟨ds, hds, h⟩ := bind_eq_ok.1 h
  obtain rfl := Except.ok.inj h
  obtain ⟨hnodes, hnodeValues⟩ := nodeTable_eq_ok hns Table.isKeyed_nil
  obtain ⟨hconnections, hconnectionValues, hends⟩ := connectionTable_eq_ok hds Table.isKeyed_nil
  refine ⟨⟨hnodes, hconnections, fun c hc => ?_⟩, hnodeValues, hconnectionValues⟩
  rw [Graph.ids, Graph.nodeList, hnodes.map_values]
  have hmem : c ∈ cs := by
    rwa [show cs = Table.values ds from hconnectionValues.symm]
  exact hends c hmem

theorem nodeTable_fresh (hn : (nodes.map Node.id).Nodup) (hd : ∀ n ∈ nodes, n.id ∉ Table.keys t) :
    nodeTable t nodes = .ok (t ++ Table.under Node.id nodes) := by
  induction nodes generalizing t with
  | nil => rw [nodeTable, Table.under, List.map_nil, List.append_nil]
  | cons n r ih =>
    rw [List.map_cons, List.nodup_cons] at hn
    have hfresh : n.id ∉ Table.keys t := hd n List.mem_cons_self
    rw [nodeTable, if_neg (fun hheld => hfresh (Table.holds_iff.1 hheld)), Table.insert_fresh hfresh, ih hn.2 fun m hm => ?_,
      List.append_assoc]
    · rfl
    · rw [Table.keys_append, List.mem_append, not_or]
      have hne : m.id ≠ n.id := fun he => hn.1 (he ▸ List.mem_map_of_mem hm)
      exact ⟨hd m (List.mem_cons_of_mem _ hm), by simpa [Table.keys] using hne⟩

theorem connectionTable_fresh (hn : (cs.map Connection.id).Nodup) (hd : ∀ c ∈ cs, c.id ∉ Table.keys u)
    (he : ∀ c ∈ cs, c.source ∈ Table.keys ns ∧ c.target ∈ Table.keys ns) :
    connectionTable ns u cs = .ok (u ++ Table.under Connection.id cs) := by
  induction cs generalizing u with
  | nil => rw [connectionTable, Table.under, List.map_nil, List.append_nil]
  | cons c r ih =>
    rw [List.map_cons, List.nodup_cons] at hn
    have hfresh : c.id ∉ Table.keys u := hd c List.mem_cons_self
    have hends : ¬ (!Table.holds ns c.source || !Table.holds ns c.target) := by
      obtain ⟨hs, ht⟩ := he c List.mem_cons_self
      simp [Table.holds_iff.2 hs, Table.holds_iff.2 ht]
    rw [connectionTable, if_neg (fun hheld => hfresh (Table.holds_iff.1 hheld)), if_neg hends, Table.insert_fresh hfresh,
      ih hn.2 (fun d hd' => ?_) (fun d hd' => he d (List.mem_cons_of_mem _ hd')), List.append_assoc]
    · rfl
    · rw [Table.keys_append, List.mem_append, not_or]
      have hne : d.id ≠ c.id := fun he => hn.1 (he ▸ List.mem_map_of_mem hd')
      exact ⟨hd d (List.mem_cons_of_mem _ hd'), by simpa [Table.keys] using hne⟩

theorem graphOf_of_consistent (h : IsConsistent (nodes.map Node.id) cs) :
    graphOf nodes cs = .ok ⟨Table.under Node.id nodes, Table.under Connection.id cs⟩ := by
  have hnone : ∀ a : String, a ∉ Table.keys ([] : Table Node) := by simp [Table.keys]
  have hnone' : ∀ a : String, a ∉ Table.keys ([] : Table Connection) := by simp [Table.keys]
  have hnodes := nodeTable_fresh h.nodup (t := []) fun n _ => hnone n.id
  have hends : ∀ c ∈ cs, c.source ∈ Table.keys (Table.under Node.id nodes) ∧ c.target ∈ Table.keys (Table.under Node.id nodes) := by
    rw [Table.keys_under]
    exact h.ends
  have hconnections := connectionTable_fresh h.connections (u := []) (fun c _ => hnone' c.id) hends
  rw [List.nil_append] at hnodes hconnections
  exact bind_eq_ok.2 ⟨_, hnodes, bind_eq_ok.2 ⟨_, hconnections, rfl⟩⟩

end BehaviorTree.Store
