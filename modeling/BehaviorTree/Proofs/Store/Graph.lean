import BehaviorTree.Proofs.Graph.Forest
import BehaviorTree.Proofs.Table
import BehaviorTree.Store.Basic

/-!
Sound graphs and forests. A graph is sound when every node and every connection is kept under its own id and no connection lacks
an end; it is a forest when, besides, its connections form one.
-/

set_option autoImplicit false

namespace BehaviorTree.Graph

def ids (g : Graph) : List String := g.nodeList.map Node.id

structure IsSound (g : Graph) : Prop where
  nodes : Table.IsKeyed Node.id g.nodes
  connections : Table.IsKeyed Connection.id g.connections
  ends : ∀ c ∈ g.connectionList, c.source ∈ g.ids ∧ c.target ∈ g.ids

/-- A sound graph in which no node is the target of two connections and no way comes back to where it started. -/
structure IsForest (g : Graph) : Prop extends g.IsSound where
  oneParent : (g.connectionList.map Connection.target).Nodup
  acyclic : Acyclic g.connectionList

variable {g : Graph} {n : Node} {a id : String} {ds : List Connection}

theorem isForest_iff : g.IsForest ↔ g.IsSound ∧ BehaviorTree.IsForest g.ids g.connectionList :=
  ⟨fun h => ⟨h.toIsSound, h.ends, h.oneParent, h.acyclic⟩, fun ⟨h, hf⟩ => ⟨h, hf.oneParent, hf.acyclic⟩⟩

theorem IsSound.ids_eq_keys (h : g.IsSound) : g.ids = Table.keys g.nodes := h.nodes.map_values

theorem IsSound.connectionIds_eq_keys (h : g.IsSound) : g.connectionList.map Connection.id = Table.keys g.connections :=
  h.connections.map_values

theorem IsSound.ids_nodup (h : g.IsSound) : g.ids.Nodup := h.nodes.values_nodup

theorem IsSound.node?_eq_some (h : g.IsSound) : g.node? id = some n ↔ n ∈ g.nodeList ∧ n.id = id := h.nodes.lookup_eq_some

theorem IsForest.of_sublist {f : Graph} (h : g.IsForest) (hf : f.IsSound) (hs : f.connectionList.Sublist g.connectionList) :
    f.IsForest :=
  { hf with
    oneParent := h.oneParent.sublist (hs.map _)
    acyclic := h.acyclic.mono hs.subset }

theorem isForest_empty : IsForest {} where
  nodes := Table.isKeyed_nil
  connections := Table.isKeyed_nil
  ends := by simp [connectionList, Table.values]
  oneParent := by simp [connectionList, Table.values]
  acyclic := (isForest_nil : BehaviorTree.IsForest [] []).acyclic

theorem ids_of_same_ids {nodes : Table Node} (hids : Table.mapValues Node.id nodes = Table.mapValues Node.id g.nodes) :
    ids { g with nodes := nodes } = g.ids := by
  rw [ids, ids, nodeList, nodeList, ← Table.values_mapValues, ← Table.values_mapValues, hids]

theorem IsSound.of_same_ids {nodes : Table Node} (h : g.IsSound)
    (hids : Table.mapValues Node.id nodes = Table.mapValues Node.id g.nodes) : IsSound { g with nodes := nodes } where
  nodes := by
    have hkeyed : Table.IsKeyed (fun i => i) (Table.mapValues Node.id g.nodes) := Table.isKeyed_mapValues.2 h.nodes
    rw [← hids] at hkeyed
    have hnodes : Table.IsKeyed ((fun i => i) ∘ Node.id) nodes := Table.isKeyed_mapValues.1 hkeyed
    exact hnodes
  connections := h.connections
  ends c hc := by
    rw [ids_of_same_ids hids]
    exact h.ends c hc

def addNode (g : Graph) (n : Node) : Graph := { g with nodes := g.nodes ++ [(n.id, n)] }

def addConnections (g : Graph) (ds : List Connection) : Graph :=
  { g with connections := g.connections ++ Table.under Connection.id ds }

@[simp] theorem nodeList_addNode : (g.addNode n).nodeList = g.nodeList ++ [n] := Table.values_append

@[simp] theorem nodeList_addConnections : (g.addConnections ds).nodeList = g.nodeList := rfl

@[simp] theorem ids_addConnections : (g.addConnections ds).ids = g.ids := rfl

@[simp] theorem connectionList_addConnections : (g.addConnections ds).connectionList = g.connectionList ++ ds := by
  rw [connectionList, addConnections, Table.values_append, Table.values_under, connectionList]

@[simp] theorem ids_addNode : (g.addNode n).ids = g.ids ++ [n.id] := by simp [ids]

@[simp] theorem keys_addNode : Table.keys (g.addNode n).nodes = Table.keys g.nodes ++ [n.id] := Table.keys_append

@[simp] theorem keys_addConnections :
    Table.keys (g.addConnections ds).connections = Table.keys g.connections ++ ds.map Connection.id := by
  rw [Graph.addConnections, Table.keys_append, Table.keys_under]

theorem IsSound.addNode (h : g.IsSound) (hn : n.id ∉ Table.keys g.nodes) : (g.addNode n).IsSound where
  nodes := h.nodes.append_row hn
  connections := h.connections
  ends c hc := by
    obtain ⟨hs, ht⟩ := h.ends c hc
    simp [hs, ht]

theorem IsSound.addConnections (h : g.IsSound) (hn : (ds.map Connection.id).Nodup)
    (hd : ∀ d ∈ ds, d.id ∉ Table.keys g.connections) (he : ∀ d ∈ ds, d.source ∈ g.ids ∧ d.target ∈ g.ids) :
    (g.addConnections ds).IsSound where
  nodes := h.nodes
  connections := h.connections.append_under hn hd
  ends c hc := by
    rw [connectionList_addConnections, List.mem_append] at hc
    exact hc.elim (h.ends c) (he c)

def without (g : Graph) (id : String) : Graph :=
  ⟨g.nodes.filter fun r => r.1 ≠ id, g.connections.filter fun r => !(r.2.source = id || r.2.target = id)⟩

def withoutConnection (g : Graph) (id : String) : Graph := { g with connections := g.connections.filter fun r => r.1 ≠ id }

theorem connectionList_without :
    (g.without id).connectionList = g.connectionList.filter fun c => !(c.source = id || c.target = id) :=
  Table.values_filter fun c : Connection => !(c.source = id || c.target = id)

theorem connectionList_withoutConnection : (g.withoutConnection id).connectionList.Sublist g.connectionList :=
  List.filter_sublist.map _

theorem nodeList_without (h : g.IsSound) : (g.without id).nodeList = g.nodeList.filter fun n => n.id ≠ id := by
  rw [nodeList, nodeList, ← Table.values_filter, without]
  congr 1
  exact List.filter_congr fun r hr => by rw [h.nodes.own r hr]

theorem mem_ids_without (h : g.IsSound) : a ∈ (g.without id).ids ↔ a ∈ g.ids ∧ a ≠ id := by
  rw [ids, nodeList_without h, ids]
  simp only [List.mem_map, List.mem_filter, decide_eq_true_eq]
  grind

theorem IsSound.without (h : g.IsSound) : (g.without id).IsSound where
  nodes := h.nodes.sublist List.filter_sublist
  connections := h.connections.sublist List.filter_sublist
  ends c hc := by
    rw [connectionList_without, List.mem_filter] at hc
    obtain ⟨hs, ht⟩ := h.ends c hc.1
    have hne : c.source ≠ id ∧ c.target ≠ id := by simpa using hc.2
    exact ⟨(mem_ids_without h).2 ⟨hs, hne.1⟩, (mem_ids_without h).2 ⟨ht, hne.2⟩⟩

theorem IsSound.withoutConnection (h : g.IsSound) : (g.withoutConnection id).IsSound where
  nodes := h.nodes
  connections := h.connections.sublist List.filter_sublist
  ends c hc := h.ends c (connectionList_withoutConnection.subset hc)

def withoutAll (g : Graph) (doomed : List String) : Graph :=
  ⟨g.nodes.filter fun r => r.1 ∉ doomed, g.connections.filter fun r => r.2.source ∉ doomed ∧ r.2.target ∉ doomed⟩

theorem withoutAll_nil (g : Graph) : g.withoutAll [] = g := by simp [withoutAll]

theorem withoutAll_cons (g : Graph) (id : String) (doomed : List String) :
    g.withoutAll (id :: doomed) = (g.without id).withoutAll doomed := by
  simp only [withoutAll, without, List.filter_filter, mk.injEq]
  exact ⟨List.filter_congr fun r _ => by grind, List.filter_congr fun r _ => by grind⟩

theorem connectionList_withoutAll (g : Graph) (doomed : List String) :
    (g.withoutAll doomed).connectionList = g.connectionList.filter fun c => c.source ∉ doomed ∧ c.target ∉ doomed :=
  Table.values_filter fun c : Connection => decide (c.source ∉ doomed ∧ c.target ∉ doomed)

theorem IsSound.nodeList_withoutAll (h : g.IsSound) (doomed : List String) :
    (g.withoutAll doomed).nodeList = g.nodeList.filter fun n => n.id ∉ doomed := by
  rw [nodeList, nodeList, ← Table.values_filter, withoutAll]
  congr 1
  exact List.filter_congr fun r hr => by rw [h.nodes.own r hr]

theorem IsSound.withoutAll_of_notMem {doomed : List String} (h : g.IsSound) (hd : ∀ id ∈ g.ids, id ∉ doomed) :
    g.withoutAll doomed = g := by
  have hnodes : ∀ r ∈ g.nodes, r.1 ∉ doomed := fun r hr => hd _ (h.ids_eq_keys ▸ List.mem_map_of_mem hr)
  have hconnections : ∀ r ∈ g.connections, r.2.source ∉ doomed ∧ r.2.target ∉ doomed := fun r hr =>
    (h.ends r.2 (List.mem_map_of_mem hr)).imp (hd _) (hd _)
  rw [withoutAll, List.filter_eq_self.2 fun r hr => decide_eq_true (hnodes r hr),
    List.filter_eq_self.2 fun r hr => decide_eq_true (hconnections r hr)]

theorem IsSound.without_of_notMem (h : g.IsSound) (hid : id ∉ Table.keys g.nodes) : g.without id = g := by
  rw [← withoutAll_nil (g.without id), ← withoutAll_cons]
  refine h.withoutAll_of_notMem fun a ha hmem => hid ?_
  rwa [← List.mem_singleton.1 hmem, ← h.ids_eq_keys]

theorem withoutAll_append {doomed : List String} {nodes : Table Node} {connections : Table Connection}
    (hnodes : ∀ r ∈ nodes, r.1 ∈ doomed) (hconnections : ∀ r ∈ connections, r.2.source ∈ doomed) :
    withoutAll ⟨g.nodes ++ nodes, g.connections ++ connections⟩ doomed = g.withoutAll doomed := by
  have hnone : (nodes.filter fun r => r.1 ∉ doomed) = [] := List.filter_eq_nil_iff.2 fun r hr => by simpa using hnodes r hr
  have hloose : (connections.filter fun r => r.2.source ∉ doomed ∧ r.2.target ∉ doomed) = [] :=
    List.filter_eq_nil_iff.2 fun r hr hkept => (of_decide_eq_true hkept).1 (hconnections r hr)
  rw [withoutAll, List.filter_append, List.filter_append, hnone, hloose, List.append_nil, List.append_nil, withoutAll]

end BehaviorTree.Graph
