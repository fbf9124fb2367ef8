import BehaviorTree.Proofs.Session.Soundness
import BehaviorTree.Proofs.Session.Transient

/-!
What deleting several nodes leaves. The nodes go and the connections at them, and whatever in the transient state named them; the rest
stays as it was. It plays no part in which order the nodes go, which ids come twice and which name no node: the session is the same
afterwards, up to what it has told of on the way.
-/

set_option autoImplicit false

namespace BehaviorTree

theorem Table.erase_comm {α : Type} (t : Table α) (k j : String) : erase (erase t k) j = erase (erase t j) k := by
  induction t with
  | nil => rfl
  | cons r t ih => grind [erase]

namespace Graph

variable {g : Graph} {ids js : List String}

theorem without_comm (g : Graph) (a b : String) : (g.without a).without b = (g.without b).without a := by
  simp only [without, List.filter_filter, Bool.and_comm]

def present (g : Graph) (ids : List String) : List String := (ids.filter g.hasNode).eraseDups

theorem present_cons_of_absent {id : String} (h : g.hasNode id = false) : g.present (id :: ids) = g.present ids := by
  rw [present, List.filter_cons_of_neg (by simp [h]), present]

theorem hasNode_without (hs : g.IsSound) (a b : String) : (g.without a).hasNode b = (g.hasNode b && !(b == a)) := by
  rw [Bool.eq_iff_iff, hasNode, hasNode, Table.holds_iff, ← hs.without.ids_eq_keys, mem_ids_without hs, hs.ids_eq_keys,
    ← Table.holds_iff]
  simp

theorem present_cons_of_there {id : String} (hs : g.IsSound) (h : g.hasNode id = true) :
    g.present (id :: ids) = id :: (g.without id).present ids := by
  rw [present, List.filter_cons_of_pos h, List.eraseDups_cons, List.filter_filter, present]
  congr 3
  funext b
  rw [hasNode_without hs, Bool.and_comm]

theorem mem_present (hs : g.IsSound) {id : String} : id ∈ g.present ids ↔ id ∈ ids ∧ id ∈ g.ids := by
  rw [present, List.mem_eraseDups, List.mem_filter, hs.ids_eq_keys, hasNode, Table.holds_iff]

theorem nodup_present (g : Graph) (ids : List String) : (g.present ids).Nodup := nodup_eraseDups _

theorem length_present (hs : g.IsSound) (ids : List String) : (g.present ids).length = (ids.toFinset ∩ g.ids.toFinset).card := by
  have hsame : (g.present ids).toFinset = ids.toFinset ∩ g.ids.toFinset := by
    ext id
    simp [mem_present hs]
  rw [← hsame, List.toFinset_card_of_nodup (nodup_present g ids)]

theorem present_perm (hs : g.IsSound) (h : ids.Perm js) : (g.present ids).Perm (g.present js) := by
  refine (List.perm_ext_iff_of_nodup (nodup_present g ids) (nodup_present g js)).2 fun id => ?_
  rw [mem_present hs, mem_present hs, h.mem_iff]

end Graph

namespace Session

variable {s t : Session} {id : String}

/-- The session as if nothing had been told of it yet. -/
def silent (s : Session) : Session := { s with store := s.store.silent }

/-- The session without a node that it had, without the connections at it and without what named it. -/
def lose (s : Session) (id : String) : Session :=
  forget { s with store := { s.store with graph := s.graph.without id } } id

theorem deleteNode_of_absent (h : s.graph.hasNode id = false) : s.deleteNode id = (false, s) := by
  have hnone : s.store.graph.node? id = none := Option.isNone_iff_eq_none.1 (Option.isSome_eq_false_iff.1 h)
  unfold deleteNode Store.removeNode
  rw [hnone]
  rfl

theorem removed_of_there (h : s.graph.hasNode id = true) : (s.store.removeNode id).1 = true := by
  obtain ⟨n, hn⟩ := Option.isSome_iff_exists.1 h
  unfold Store.removeNode
  rw [show s.store.graph.node? id = some n from hn]

theorem isCopyable_removeConnections (s : Store) (ids : List String) : (s.removeConnections ids).isCopyable = s.isCopyable := by
  induction ids generalizing s with
  | nil => rfl
  | cons id r ih =>
    rw [Store.removeConnections, ih, Store.removeConnection]
    split <;> rfl

theorem isCopyable_removeNode (s : Store) (id : String) : (s.removeNode id).2.isCopyable = s.isCopyable := by
  unfold Store.removeNode
  split
  · rfl
  · exact isCopyable_removeConnections s _

theorem deleteNode_of_there (hs : s.graph.IsSound) (h : s.graph.hasNode id = true) :
    (s.deleteNode id).1 = true ∧ (s.deleteNode id).2.silent = s.silent.lose id := by
  have hremoved := removed_of_there h
  have hcontent : (s.store.removeNode id).2.content = { s.store.content with graph := s.store.content.graph.without id } :=
    Store.content_removeNode hs
  have hcopyable : (s.store.removeNode id).2.isCopyable = s.store.isCopyable := isCopyable_removeNode s.store id
  unfold deleteNode
  generalize s.store.removeNode id = r at hremoved hcontent hcopyable ⊢
  obtain ⟨removed, g, ns, cs, journal, outbox, isCopyable⟩ := r
  obtain rfl : removed = true := hremoved
  obtain rfl : isCopyable = s.store.isCopyable := hcopyable
  obtain ⟨rfl, rfl, rfl⟩ := Content.mk.inj hcontent
  exact ⟨rfl, rfl⟩

/-- Deleting nodes takes away those that are there, one after the other, and the answer is their number. -/
theorem deleteNodes_eq (hs : s.graph.IsSound) (ids : List String) :
    (s.deleteNodes ids).1 = (s.graph.present ids).length ∧
      (s.deleteNodes ids).2.silent = (s.graph.present ids).foldl lose s.silent := by
  induction ids generalizing s with
  | nil => exact ⟨rfl, rfl⟩
  | cons id r ih =>
    have hcount : (s.deleteNodes (id :: r)).1 =
        if (s.deleteNode id).1 then ((s.deleteNode id).2.deleteNodes r).1 + 1 else ((s.deleteNode id).2.deleteNodes r).1 := rfl
    have hrest : (s.deleteNodes (id :: r)).2 = ((s.deleteNode id).2.deleteNodes r).2 := rfl
    cases hthere : s.graph.hasNode id with
    | false =>
      rw [hcount, hrest, deleteNode_of_absent hthere, Graph.present_cons_of_absent hthere]
      exact ih hs
    | true =>
      obtain ⟨hremoved, hlost⟩ := deleteNode_of_there hs hthere
      have hgraph := graph_deleteNode id hs
      obtain ⟨hlength, hsession⟩ := ih (s := (s.deleteNode id).2) (hgraph ▸ hs.without)
      rw [hcount, hrest, if_pos hremoved, hlength, hsession, hlost, hgraph, Graph.present_cons_of_there hs hthere]
      exact ⟨rfl, rfl⟩

def outlasts (g : Graph) (c : String) : Bool := c.isEmpty || (g.connection? c).isSome

theorem outlasts_of_without {g : Graph} {c : String} (h : outlasts (g.without id) c) : outlasts g c := by
  have hsub : Table.keys (g.without id).connections ⊆ Table.keys g.connections := (List.filter_sublist.map _).subset
  rw [outlasts, Bool.or_eq_true, Graph.connection?, Table.lookup_isSome] at h ⊢
  exact h.imp_right fun hmem => hsub hmem

theorem lose_lose (s : Session) (a b : String) : (s.lose a).lose b =
    { s with
      store := { s.store with graph := (s.graph.without a).without b }
      selection := {
        nodes := (s.selection.nodes.erase a).erase b
        connection := s.selection.connection.filter (outlasts ((s.graph.without a).without b)) }
      pending := s.pending.filter fun p => p.node ≠ a && p.node ≠ b
      monitor := { s.monitor with states := Table.erase (Table.erase s.monitor.states a) b } } := by
  have hstays : outlasts ((s.graph.without a).without b) =
      fun c => outlasts (s.graph.without a) c && outlasts ((s.graph.without a).without b) c := by
    funext c
    cases hlast : outlasts ((s.graph.without a).without b) c with
    | true => rw [outlasts_of_without hlast, Bool.and_true]
    | false => rw [Bool.and_false]
  rw [hstays, ← Option.filter_filter, ← Option.filter_filter]
  rfl

theorem lose_comm (s : Session) (a b : String) : (s.lose a).lose b = (s.lose b).lose a := by
  rw [lose_lose, lose_lose, Graph.without_comm, List.erase_comm, Table.erase_comm]
  simp only [Bool.and_comm]

theorem deleteNodes_of_perm {ids js : List String} (hs : s.graph.IsSound) (h : ids.Perm js) :
    (s.deleteNodes js).1 = (s.deleteNodes ids).1 ∧ (s.deleteNodes js).2.silent = (s.deleteNodes ids).2.silent := by
  have hperm := Graph.present_perm hs h
  obtain ⟨hcount, hsession⟩ := deleteNodes_eq hs ids
  obtain ⟨hcount', hsession'⟩ := deleteNodes_eq hs js
  rw [hcount, hcount', hsession, hsession', hperm.length_eq]
  exact ⟨rfl, (hperm.foldl_eq' (fun a _ b _ t => lose_comm t a b) s.silent).symm⟩

/-- Is a session another one but for the graph, the selection, the pending connection and the reported statuses? -/
def SameSettings (s t : Session) : Prop :=
  t = { s with
    store := { s.store with graph := t.graph }
    selection := t.selection
    pending := t.pending
    monitor := t.monitor }

theorem sameSettings_foldl_lose (s : Session) (gone : List String) : SameSettings s (gone.foldl lose s) := by
  induction gone generalizing s with
  | nil => rfl
  | cons id r ih => exact ih (s.lose id)

theorem sameSettings_deleteNodes (hs : s.graph.IsSound) (ids : List String) : SameSettings s.silent (s.deleteNodes ids).2.silent :=
  (deleteNodes_eq hs ids).2 ▸ sameSettings_foldl_lose s.silent _

/-- Whatever a session was asked before: the number of nodes that are deleted is that of the different ids in the list that name a node.
These nodes go and all connections at them; the other nodes and connections stay as they are, in their order, and so do the numbers of the
next ids, the custom types, the grid and the viewport. In another order of the list the answer is the same, and the same is left of the
session, but for what has been told on the way. -/
theorem deletions_are_exact (config : EditorConfig) (catalog : Catalog) (cs : List Call) (ids : List String) :
    let s := (start config catalog).afterAll cs
    let t := (s.deleteNodes ids).2
    let gone := s.graph.ids.filter fun id => id ∈ ids
    (s.deleteNodes ids).1 = (ids.toFinset ∩ s.graph.ids.toFinset).card ∧
      t.graph.nodeList = s.graph.nodeList.filter (fun n => n.id ∉ gone) ∧
        t.graph.connectionList = s.graph.connectionList.filter (fun c => c.source ∉ gone ∧ c.target ∉ gone) ∧
          (t.store.nodeIds = s.store.nodeIds ∧ t.store.connectionIds = s.store.connectionIds ∧ t.customTypes = s.customTypes ∧
            t.grid = s.grid ∧ t.viewport = s.viewport) ∧
            ∀ js : List String, ids.Perm js → (s.deleteNodes js).1 = (s.deleteNodes ids).1 ∧ (s.deleteNodes js).2.silent = t.silent := by
  intro s t gone
  have hs : s.graph.IsSound := isSound_afterAll (start_isForest config catalog).toIsSound cs
  have hgraph : t.graph = s.graph.withoutAll ids := graph_deleteNodes hs ids
  have hgone : ∀ id ∈ s.graph.ids, (id ∉ ids ↔ id ∉ gone) := fun id hid => by simp [gone, hid]
  have hsame : SameSettings s.silent t.silent := sameSettings_deleteNodes hs ids
  refine ⟨?_, ?_, ?_, ?_, fun js h => deleteNodes_of_perm hs h⟩
  · rw [(deleteNodes_eq hs ids).1, Graph.length_present hs]
  · rw [hgraph, hs.nodeList_withoutAll]
    refine List.filter_congr fun n hn => ?_
    rw [decide_eq_decide]
    exact hgone n.id (List.mem_map_of_mem hn)
  · rw [hgraph, Graph.connectionList_withoutAll]
    refine List.filter_congr fun c hc => ?_
    obtain ⟨hsource, htarget⟩ := hs.ends c hc
    rw [decide_eq_decide, hgone _ hsource, hgone _ htarget]
  · exact ⟨congrArg (fun u => u.store.nodeIds) hsame, congrArg (fun u => u.store.connectionIds) hsame,
      congrArg (fun u => u.customTypes) hsame, congrArg (fun u => u.grid) hsame, congrArg (fun u => u.viewport) hsame⟩

/-- Two of the three nodes are selected and go, with a click pending at one of them and the connection between the others selected. One of
the ids is listed twice, and one names no node. -/
theorem selectingRun_deletions_are_exact :
    let s := (start {} .standard).afterAll selectingRun.dropLast
    let ids := ["leaf", "nobody", "node_007", "leaf"]
    let js := ["node_007", "leaf", "leaf", "nobody"]
    let t := (s.deleteNodes ids).2
    (s.selection.nodes = ["leaf", "node_007"] ∧ s.selection.connection = some "conn_2" ∧ s.pending = some ⟨"leaf", "child"⟩) ∧
      (s.deleteNodes ids).1 = 2 ∧ t.graph.ids = ["node_\u0663"] ∧ t.graph.connectionList = [] ∧ t.store.nodeIds.next = 8 ∧
        (t.selection.nodes = [] ∧ t.selection.connection = none ∧ t.pending = none) ∧ (s.deleteNodes js).1 = 2 ∧
          (s.deleteNodes js).2.silent = t.silent := by
  intro s ids js t
  obtain ⟨hcount, hnodes, hconnections, ⟨hnext, -⟩, hperm⟩ := deletions_are_exact {} .standard selectingRun.dropLast ids
  obtain ⟨hsame, hsilent⟩ := hperm js (by decide)
  have htwo : (s.deleteNodes ids).1 = 2 := hcount.trans (by decide +kernel)
  have hids : t.graph.ids = ["node_\u0663"] := by
    rw [Graph.ids, hnodes]
    decide +kernel
  exact ⟨by decide +kernel, htwo, hids, hconnections.trans (by decide +kernel), by rw [hnext]; decide +kernel, by decide +kernel,
    hsame.trans htwo, hsilent⟩

end Session

end BehaviorTree
