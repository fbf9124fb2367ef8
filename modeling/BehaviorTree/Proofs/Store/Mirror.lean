import BehaviorTree.Proofs.Store.Integrity

/-!
A mirror of the graph. It listens to the notifications and keeps what their payloads say; only where many nodes changed at once does it
read them again. As long as the graph is not replaced as a whole, the mirror shows what the store holds, whenever it is looked at.
-/

set_option autoImplicit false

namespace BehaviorTree

namespace Table

variable {α : Type} {t u : Table α}

def reread (t u : Table α) (ks : List String) : Table α :=
  ks.foldl (fun t k => match lookup u k with | some a => insert t k a | none => erase t k) t

theorem reread_overlay (h : (keys u).Nodup) : reread t (overlay t u) (keys u) = overlay t u := by
  induction u generalizing t with
  | nil => rfl
  | cons r u ih =>
    obtain ⟨k, a⟩ := r
    rw [keys, List.map_cons, List.nodup_cons] at h
    have hwritten : lookup (overlay t ((k, a) :: u)) k = some a := by
      rw [overlay, List.foldl_cons, ← overlay, lookup_overlay_of_notMem h.1, lookup_insert, if_pos rfl]
    rw [reread, keys, List.map_cons, List.foldl_cons, hwritten]
    exact ih h.2

end Table

/-- What a listener keeps: the records of nodes and connections under their ids. -/
structure Mirror where
  nodes : Table Value := []
  connections : Table Value := []

namespace Mirror

def ofGraph (g : Graph) : Mirror :=
  ⟨Table.mapValues Node.toValue g.nodes, Table.mapValues Connection.toValue g.connections⟩

def textIn (name : String) : Value → String
  | .object ms => (Value.member ms name).text?.getD ""
  | _ => ""

def textsIn : Value → List String
  | .list vs => vs.filterMap Value.text?
  | _ => []

/-- What a listener does with a notification, while the graph is as it is seen. -/
def receive (m : Mirror) (seen : Graph) (e : Event) : Mirror :=
  let node := Value.member e.payload "node"
  let connection := Value.member e.payload "connection"
  match e.topic, e.kind.text? with
  | .node, some "created" => { m with nodes := Table.insert m.nodes (textIn "id" node) node }
  | .node, some "updated" => { m with nodes := Table.insert m.nodes (textIn "id" node) node }
  | .node, some "moved" => { m with nodes := Table.insert m.nodes (textIn "id" node) node }
  | .node, some "deleted" => { m with nodes := Table.erase m.nodes (textIn "id" node) }
  | .node, some "batch-updated" =>
    { m with nodes := Table.reread m.nodes (ofGraph seen).nodes (textsIn (Value.member e.payload "node_ids")) }
  | .connection, some "created" =>
    { m with connections := Table.insert m.connections (textIn "id" connection) connection }
  | .connection, some "deleted" => { m with connections := Table.erase m.connections (textIn "id" connection) }
  | _, _ => m

def told (ns : List Notice) : Mirror := ns.foldl (fun m n => m.receive n.seen n.change.event) {}

/-- Does the mirror hold both ends of each of its connections? -/
def HasEnds (m : Mirror) : Prop :=
  ∀ c ∈ Table.values m.connections, textIn "source" c ∈ Table.keys m.nodes ∧ textIn "target" c ∈ Table.keys m.nodes

variable {m : Mirror} {g seen : Graph} {n : Node} {c : Connection} {ids : List String}

theorem told_concat (ns : List Notice) (n : Notice) : told (ns ++ [n]) = (told ns).receive n.seen n.change.event := by
  rw [told, List.foldl_append]
  rfl

theorem receive_nodeCreated :
    m.receive seen (Change.nodeCreated n).event = { m with nodes := Table.insert m.nodes n.id n.toValue } := rfl

theorem receive_nodeUpdated (updates : Table Value) :
    m.receive seen (Change.nodeUpdated n updates).event = { m with nodes := Table.insert m.nodes n.id n.toValue } := rfl

theorem receive_nodeMoved :
    m.receive seen (Change.nodeMoved n).event = { m with nodes := Table.insert m.nodes n.id n.toValue } := rfl

theorem receive_nodeDeleted :
    m.receive seen (Change.nodeDeleted n).event = { m with nodes := Table.erase m.nodes n.id } := rfl

theorem textsIn_idsValue (ids : List String) : textsIn (Change.idsValue ids) = ids := by
  simp [textsIn, Change.idsValue, Value.text?, List.filterMap_map, Function.comp_def]

theorem receive_nodesUpdated (ids : List String) : m.receive seen (Change.nodesUpdated ids).event =
    { m with nodes := Table.reread m.nodes (ofGraph seen).nodes ids } := by
  have hread : m.receive seen (Change.nodesUpdated ids).event =
    { m with nodes := Table.reread m.nodes (ofGraph seen).nodes (textsIn (Change.idsValue ids)) } := rfl
  rw [hread, textsIn_idsValue]

theorem receive_connectionCreated : m.receive seen (Change.connectionCreated c).event =
    { m with connections := Table.insert m.connections c.id c.toValue } := rfl

theorem receive_connectionDeleted :
    m.receive seen (Change.connectionDeleted c).event = { m with connections := Table.erase m.connections c.id } := rfl

theorem hasEnds_ofGraph (h : g.IsSound) : (ofGraph g).HasEnds := by
  intro v hv
  rw [ofGraph, Table.values_mapValues] at hv
  obtain ⟨c, hc, rfl⟩ := List.mem_map.1 hv
  rw [ofGraph, Table.keys_mapValues, ← h.ids_eq_keys]
  exact h.ends c hc

end Mirror

namespace Store

variable {s t : Store} {g : Graph} {n m : Node} {id : String} {c : Connection} {nodes : Table Node}

/-- Did a listener see the graph as it was at each notification, and has it missed nothing since? -/
structure IsMirrored (s : Store) : Prop where
  now : Mirror.told s.outbox = .ofGraph s.graph
  each : ∀ ns n, ns ++ [n] <+: s.outbox → Mirror.told (ns ++ [n]) = .ofGraph n.seen

theorem isMirrored_empty (capacity : Option Nat) : (empty capacity).IsMirrored :=
  ⟨rfl, fun ns n h => absurd (List.prefix_nil.1 h) (List.append_ne_nil_of_right_ne_nil ns (List.cons_ne_nil n []))⟩

/-- The graph changes and is made known. All there is to show is that a listener makes the same change. -/
theorem IsMirrored.emit {change : Change} (h : s.IsMirrored)
    (hsame : (Mirror.ofGraph s.graph).receive g change.event = .ofGraph g) :
    (({ s with graph := g } : Store).emit change).IsMirrored where
  now := by
    have hall := Mirror.told_concat s.outbox ⟨change, g⟩
    rw [h.now, hsame] at hall
    exact hall
  each ns n hprefix := by
    rcases List.prefix_concat_iff.1 hprefix with hlast | hbefore
    · obtain ⟨rfl, hn⟩ := List.append_inj' hlast rfl
      obtain rfl := List.singleton_inj.1 hn
      rw [Mirror.told_concat, h.now]
      exact hsame
    · exact h.each ns n hbefore

theorem IsMirrored.addNode (h : s.IsMirrored) (n : Node) : (s.addNode n).2.IsMirrored := by
  unfold Store.addNode
  split_ifs
  · exact h
  · refine h.emit ?_
    rw [Mirror.receive_nodeCreated, Mirror.ofGraph, Mirror.ofGraph, Table.mapValues_insert]

theorem IsMirrored.updateNode (h : s.IsMirrored) (hs : s.graph.IsSound) (id : String) (updates : Table Value) :
    (s.updateNode id updates).2.IsMirrored := by
  unfold Store.updateNode
  split
  · exact h
  · rename_i n hn
    split
    · exact h
    · rename_i m hm
      have hid : m.id = id := (Merge.node_id hm).trans (hs.node?_eq_some.1 hn).2
      refine h.emit ?_
      rw [Mirror.receive_nodeUpdated, hid, Mirror.ofGraph, Mirror.ofGraph, Table.mapValues_insert]

theorem IsMirrored.updateNodeWith (h : s.IsMirrored) (hs : s.graph.IsSound) (id : String) (updates : Value) :
    (s.updateNodeWith id updates).2.IsMirrored := by
  unfold Store.updateNodeWith
  split
  · exact h
  · split
    · exact h
    · exact h.updateNode hs id _

theorem IsMirrored.moveNode (h : s.IsMirrored) (hs : s.graph.IsSound) (id : String) (x y : Value) :
    (s.moveNode id x y).2.IsMirrored := by
  unfold Store.moveNode
  split
  · exact h
  · rename_i n hn
    split
    · exact h
    · rename_i m hm
      have hkind : m.id = n.id := congrArg Node.Kind.id (kind_placed hm)
      have hid : m.id = id := hkind.trans (hs.node?_eq_some.1 hn).2
      refine h.emit ?_
      rw [Mirror.receive_nodeMoved, hid, Mirror.ofGraph, Mirror.ofGraph, Table.mapValues_insert]

theorem nodup_stage {us : List (Table Value)} {staged result : Table Node} (h : (Table.keys staged).Nodup)
    (hr : stage g staged us = .ok result) : (Table.keys result).Nodup := by
  induction us generalizing staged with
  | nil => exact Except.ok.inj hr ▸ h
  | cons u us ih =>
    unfold stage at hr
    split at hr
    · split at hr
      · exact ih h hr
      · split at hr
        · cases hr
        · exact ih (Table.nodup_keys_insert h) hr
    · split at hr
      · exact ih h hr
      · cases hr

theorem IsMirrored.updateNodes (h : s.IsMirrored) (updates : List (Table Value)) : (s.updateNodes updates).2.IsMirrored := by
  unfold Store.updateNodes
  split
  · exact h
  · exact h
  · rename_i staged _ hstaged
    have hnone : (Table.keys ([] : Table Node)).Nodup := by simp [Table.keys]
    have hn : (Table.keys (Table.mapValues Node.toValue staged)).Nodup := by
      rw [Table.keys_mapValues]
      exact nodup_stage hnone hstaged
    have hread := Table.reread_overlay (t := Table.mapValues Node.toValue s.graph.nodes) hn
    rw [Table.keys_mapValues, ← Table.mapValues_overlay] at hread
    refine h.emit ?_
    rw [Mirror.receive_nodesUpdated, Mirror.ofGraph, Mirror.ofGraph, hread]

theorem IsMirrored.updateNodesWith (h : s.IsMirrored) (updates : Value) : (s.updateNodesWith updates).2.IsMirrored := by
  unfold Store.updateNodesWith
  split
  · exact h
  · exact h.updateNodes _
  · exact h

theorem IsMirrored.addConnection (h : s.IsMirrored) (c : Connection) : (s.addConnection c).2.IsMirrored := by
  unfold Store.addConnection
  split_ifs
  · exact h
  · split
    · refine h.emit ?_
      rw [Mirror.receive_connectionCreated, Mirror.ofGraph, Mirror.ofGraph, Table.mapValues_insert]
    · exact h

theorem IsMirrored.removeConnection (h : s.IsMirrored) (hs : s.graph.IsSound) (id : String) :
    (s.removeConnection id).2.IsMirrored := by
  unfold Store.removeConnection
  split
  · exact h
  · rename_i c hc
    have hid : c.id = id := (hs.connections.lookup_eq_some.1 hc).2
    refine h.emit ?_
    rw [Mirror.receive_connectionDeleted, hid, Mirror.ofGraph, Mirror.ofGraph, Table.mapValues_erase]

theorem IsMirrored.removeConnections (h : s.IsMirrored) (hs : s.HasIntegrity) (ids : List String) :
    (s.removeConnections ids).IsMirrored := by
  induction ids generalizing s with
  | nil => exact h
  | cons id r ih => exact ih (h.removeConnection hs.graph id) (hs.removeConnection id)

theorem IsMirrored.removeNode (h : s.IsMirrored) (hs : s.HasIntegrity) (id : String) : (s.removeNode id).2.IsMirrored := by
  unfold Store.removeNode
  split
  · exact h
  · rename_i n hn
    have hid : n.id = id := (hs.graph.node?_eq_some.1 hn).2
    refine (h.removeConnections hs _).emit ?_
    rw [Mirror.receive_nodeDeleted, hid, Mirror.ofGraph, Mirror.ofGraph, Table.mapValues_erase]

theorem IsMirrored.act (h : s.IsMirrored) (hs : s.HasIntegrity) (hst : Act s t) : t.IsMirrored := by
  cases hst with
  | nothing => exact h
  | issueNodeId => exact ⟨h.now, h.each⟩
  | issueConnectionId => exact ⟨h.now, h.each⟩
  | addNode n => exact h.addNode n
  | removeNode id => exact h.removeNode hs id
  | updateNode id updates => exact h.updateNodeWith hs.graph id updates
  | moveNode id x y => exact h.moveNode hs.graph id x y
  | updateNodes updates => exact h.updateNodesWith updates
  | addConnection c => exact h.addConnection c
  | removeConnection id => exact h.removeConnection hs.graph id

/-- Does a call leave the graph as a whole in its place? -/
def Call.IsGradual : Call → Prop
  | .load .. => False
  | .clear _ => False
  | .request name _ => name ∉ wholeOperations
  | _ => True

theorem Call.IsGradual.act {c : Call} (h : c.IsGradual) : Act s (s.after c) := by
  cases c with
  | addNode n => exact .addNode n
  | removeNode id => exact .removeNode id
  | updateNode id updates => exact .updateNode id updates
  | moveNode id x y => exact .moveNode id x y
  | updateNodes updates => exact .updateNodes updates
  | addConnection c => exact .addConnection c
  | removeConnection id => exact .removeConnection id
  | load => exact h.elim
  | clear => exact h.elim
  | request name arguments => exact (act_request s name arguments).resolve_right fun hwhole => h hwhole.1

theorem IsMirrored.afterAll {cs : List Call} (h : s.IsMirrored) (hs : s.HasIntegrity) (hcs : ∀ c ∈ cs, c.IsGradual) :
    (s.afterAll cs).IsMirrored := by
  induction cs generalizing s with
  | nil => exact h
  | cons c r ih =>
    have hfirst : (s.after c).IsMirrored := h.act hs (hcs c List.mem_cons_self).act
    exact ih hfirst (hs.after c) fun d hd => hcs d (List.mem_cons_of_mem _ hd)

/-- A listener that keeps what the notifications say has at each of them the graph as it was then, and after any run of calls, those
that fail included, the graph as it is. It never has a connection without having both ends of it. -/
theorem runs_are_mirrored (capacity : Option Nat) (cs : List Call) (h : ∀ c ∈ cs, c.IsGradual) :
    let s := (empty capacity).afterAll cs
    Mirror.told s.outbox = .ofGraph s.graph ∧
      (∀ ns n, ns ++ [n] <+: s.outbox → Mirror.told (ns ++ [n]) = .ofGraph n.seen) ∧
        ∀ ns, ns <+: s.outbox → (Mirror.told ns).HasEnds := by
  intro s
  have hs : s.IsMirrored := (isMirrored_empty capacity).afterAll (hasIntegrity_empty capacity) h
  have hseen : s.HasIntegrity := (hasIntegrity_empty capacity).afterAll cs
  refine ⟨hs.now, hs.each, fun ns hns => ?_⟩
  rcases List.eq_nil_or_concat' ns with rfl | ⟨ms, n, rfl⟩
  · exact Mirror.hasEnds_ofGraph Graph.isForest_empty.toIsSound
  · rw [hs.each ms n hns]
    exact Mirror.hasEnds_ofGraph (hseen.seen n (hns.subset (by simp)))

/-- Two nodes and a connection, changes that succeed and fail, and the node at one end goes. -/
def journaledRun : List Call :=
  [.addNode ⟨"a", "Sequence", "composite", "A", 0.0, 0.0, []⟩, .addNode ⟨"b", "AlwaysSuccess", "action", "B", 0.0, 100.0, []⟩,
    .addConnection ⟨"c", "a", "b"⟩, .addConnection ⟨"c", "a", "b"⟩, .moveNode "b" (.float 50.0) .null,
    .updateNodes (.list [.object [("id", .text "b"), ("name", .text "leaf")], .object [("id", .text "x")]]),
    .request "remove_node" [.text "b"]]

/-- The connection is told of before the node that was at its end. -/
theorem journaledRun_is_mirrored :
    let s := (empty none).afterAll journaledRun
    (∀ c ∈ journaledRun, c.IsGradual) ∧
      s.outbox.map (fun n => (n.change.topic, n.change.kind)) = [(.node, "created"), (.node, "created"), (.connection, "created"),
        (.node, "batch-updated"), (.connection, "deleted"), (.node, "deleted")] ∧
      Mirror.told s.outbox = .ofGraph s.graph ∧ Table.keys (Mirror.told s.outbox).nodes = ["a"] := by
  intro s
  have hgradual : ∀ c ∈ journaledRun, c.IsGradual := by
    simp only [journaledRun, List.forall_mem_cons, Call.IsGradual, List.not_mem_nil, false_implies, implies_true, and_true, true_and]
    decide
  obtain ⟨hnow, _, _⟩ := runs_are_mirrored none journaledRun hgradual
  exact ⟨hgradual, by decide +kernel, hnow, by decide +kernel⟩

end Store

end BehaviorTree
