import BehaviorTree.Proofs.Session.Atomicity
import BehaviorTree.Proofs.Session.FreshIds
import BehaviorTree.Proofs.Session.Selection

/-!
What the transient state refers to. The selection, the pending connection and the reported statuses name nodes and connections. Acts
that take nothing away leave them as they are, and whatever takes nodes or connections away has to drop what named them. It does, but
for one thing: a selected connection without a name is not dropped together with one of its ends.
-/

set_option autoImplicit false

namespace BehaviorTree

open Relation

theorem IdSequence.render_ne_empty {s : IdSequence} (h : s.tag = "conn_") (n : Int) : s.render n ≠ "" := by
  intro he
  have hlength := congrArg String.length he
  simp [render, h] at hlength

theorem IdSequence.ne_empty_of_issues {s t : IdSequence} {js : List String} (h : s.tag = "conn_") (hjs : s.Issues js t) :
    ∀ id ∈ js, id ≠ "" := by
  induction js generalizing s with
  | nil => simp
  | cons id r ih =>
    obtain ⟨⟨rfl, _⟩, hr⟩ := hjs
    intro a ha
    rcases List.mem_cons.1 ha with rfl | ha
    · exact render_ne_empty h _
    · exact ih (s := s.issue.2) h hr a ha

/-- Is there a connection without a name only if that may be? The ids of new connections have a name. -/
structure Content.NamesConnections (blank : Prop) (k : Content) : Prop where
  tag : k.connectionIds.tag = "conn_"
  named : "" ∈ Table.keys k.graph.connections → blank

theorem Content.Step.namesConnections {lookup : String → String → Option NodeType} {k l : Content} {blank : Prop}
    (h : Step lookup k l) (hk : k.NamesConnections blank) : l.NamesConnections blank := by
  cases h with
  | nodeIssued => exact ⟨hk.tag, hk.named⟩
  | connectionIssued => exact ⟨hk.tag, hk.named⟩
  | nodeAdded => exact ⟨hk.tag, hk.named⟩
  | nodesChanged => exact ⟨hk.tag, hk.named⟩
  | nodeRemoved id => exact ⟨hk.tag, fun hmem => hk.named ((List.filter_sublist.map _).subset hmem)⟩
  | connectionRemoved id => exact ⟨hk.tag, fun hmem => hk.named ((List.filter_sublist.map _).subset hmem)⟩
  | connected source target fresh accepted =>
    refine ⟨hk.tag, fun hmem => hk.named ?_⟩
    rw [Graph.keys_addConnections, List.mem_append] at hmem
    refine hmem.resolve_right fun hnew => ?_
    exact IdSequence.render_ne_empty hk.tag _ (List.mem_singleton.1 hnew).symm
  | copied copy ds ids copying twins copies issued =>
    refine ⟨(IdSequence.tag_of_issues issued).trans hk.tag, fun hmem => hk.named ?_⟩
    rw [Graph.keys_addConnections, List.mem_append] at hmem
    exact hmem.resolve_right fun hnew => IdSequence.ne_empty_of_issues hk.tag issued _ hnew rfl
  | cleared => exact ⟨hk.tag, fun hmem => absurd hmem List.not_mem_nil⟩

namespace Monitor

variable {g : Graph} {states : Table Status}

theorem keys_statesOf (hg : g.IsSound) (hn : (Table.keys states).Nodup) (hstates : Table.keys states ⊆ Table.keys g.nodes)
    (entries : List (Value × Value)) :
    (Table.keys (statesOf g states entries)).Nodup ∧ Table.keys (statesOf g states entries) ⊆ Table.keys g.nodes := by
  induction entries generalizing states with
  | nil => exact ⟨hn, hstates⟩
  | cons e r ih =>
    obtain ⟨name, status⟩ := e
    rw [statesOf]
    split
    · exact ih hn hstates
    · rename_i n hfound
      have hmem : n.id ∈ Table.keys g.nodes := hg.ids_eq_keys ▸ List.mem_map_of_mem (List.mem_of_find?_eq_some hfound)
      refine ih (Table.nodup_keys_insert hn) ?_
      rw [Table.keys_insert]
      split_ifs
      · exact hstates
      · exact List.append_subset.2 ⟨hstates, by simpa using hmem⟩

end Monitor

namespace Session

variable {s t u : Session} {blank : Prop} {id : String}

/-- Does the transient state refer to nodes and connections that there are? A selected connection may be missing only if it has no
name and such connections may be. -/
structure Refers (blank : Prop) (s : Session) : Prop where
  sound : s.graph.IsSound
  content : s.store.content.NamesConnections blank
  distinct : s.selection.nodes.Nodup
  selected : ∀ id ∈ s.selection.nodes, id ∈ Table.keys s.graph.nodes
  connection : ∀ c, s.selection.connection = some c → c ∈ Table.keys s.graph.connections ∨ blank ∧ c = ""
  pending : ∀ p, s.pending = some p → p.node ∈ Table.keys s.graph.nodes ∧ isSide p.side
  apart : (Table.keys s.monitor.states).Nodup
  monitored : ∀ id ∈ Table.keys s.monitor.states, id ∈ Table.keys s.graph.nodes

theorem Edited.namesConnections (h : Edited s t) (hs : s.graph.IsSound) (hc : s.store.content.NamesConnections blank) :
    t.store.content.NamesConnections blank := by
  refine Core.kept_by_steps (P := fun c => c.content.NamesConnections blank) (h hs) (fun c d hstep hc => ?_) hc
  cases hstep with
  | edited k step => exact step.namesConnections hc
  | typeAdded => exact hc
  | typeRemoved => exact hc
  | gridChanged => exact hc

theorem Refers.emit (h : Refers blank s) (c : Change) : Refers blank (s.emit c) := { h with }

theorem Refers.grown (h : Refers blank s) (hst : Undisturbed s t) (hedited : Edited s t) : Refers blank t where
  sound := hedited.isSound h.sound
  content := hedited.namesConnections h.sound h.content
  distinct := hst.selection ▸ h.distinct
  selected id hid := hst.graph.nodes.subset (h.selected id (hst.selection ▸ hid))
  connection c hc := (h.connection c (hst.selection ▸ hc)).imp_left fun hmem => hst.graph.connections.subset hmem
  pending p hp := (h.pending p (hst.pending ▸ hp)).imp_left fun hmem => hst.graph.nodes.subset hmem
  apart := hst.monitor ▸ h.apart
  monitored id hid := hst.graph.nodes.subset (h.monitored id (hst.monitor ▸ hid))

theorem Refers.setSelected {ids : List String} (h : Refers blank s) (hn : ids.Nodup)
    (hids : ∀ id ∈ ids, id ∈ Table.keys s.graph.nodes) : Refers blank (s.setSelected ids) :=
  { h with distinct := hn, selected := hids }

theorem Refers.selectNodes (h : Refers blank s) (ids : List String) : Refers blank (s.selectNodes ids) :=
  h.setSelected (isDistinct_selectNodes (s := s) ids) fun _ hid => Table.holds_iff.1 (List.of_mem_filter hid)

theorem Refers.selectAlso {others : List String} (h : Refers blank s) (hn : others.Nodup)
    (hothers : ∀ j ∈ others, j ∈ Table.keys s.graph.nodes) (hid : id ∈ Table.keys s.graph.nodes) :
    Refers blank (s.setSelected (if others.contains id then others else others ++ [id])) := by
  refine h.setSelected (nodup_selectAlso hn id) fun j hj => ?_
  split_ifs at hj
  · exact hothers j hj
  · rcases List.mem_append.1 hj with hj | hj
    · exact hothers j hj
    · exact List.mem_singleton.1 hj ▸ hid

theorem Refers.selectNode (h : Refers blank s) (id : String) (add : Bool) : Refers blank (s.selectNode id add).2 := by
  unfold Session.selectNode
  split
  · exact h
  · rename_i hthere
    have hid : id ∈ Table.keys s.graph.nodes := Table.holds_iff.1 (by simpa [Graph.hasNode] using hthere)
    cases add with
    | false => exact h.selectAlso List.nodup_nil (by simp) hid
    | true => exact h.selectAlso h.distinct h.selected hid

theorem Refers.deselectNode (h : Refers blank s) (id : String) : Refers blank (s.deselectNode id) := by
  unfold Session.deselectNode
  split_ifs
  · exact h.setSelected (h.distinct.erase id) fun j hj => h.selected j (List.mem_of_mem_erase hj)
  · exact h

theorem Refers.clearSelection (h : Refers blank s) : Refers blank s.clearSelection :=
  h.setSelected List.nodup_nil (by simp)

theorem Refers.endBox (h : Refers blank s) (add : Bool) : Refers blank (s.endBox add).2 := by
  unfold Session.endBox
  split
  · exact h
  · have hclosed : Refers blank { s with box := { s.box with active := false } } := { h with }
    dsimp only
    split
    · exact hclosed
    · exact hclosed.selectNodes _

theorem Refers.selectConnection (h : Refers blank s) (id : String) : Refers blank (s.selectConnection id).2 := by
  unfold Session.selectConnection
  split
  · exact h
  · rename_i c hc
    have hmem : id ∈ Table.keys s.graph.connections := Table.lookup_isSome.1 (Option.isSome_of_eq_some hc)
    exact { h with connection := fun d hd => .inl (Option.some.inj hd ▸ hmem) }

theorem Refers.deselectConnection (h : Refers blank s) : Refers blank s.deselectConnection := by
  unfold Session.deselectConnection
  split
  · exact h
  · exact { h with connection := nofun }

theorem Refers.withoutPending (h : Refers blank s) : Refers blank { s with pending := none } :=
  { h with pending := nofun }

theorem Refers.startPending (h : Refers blank s) (node side : String) : Refers blank (s.startPending node side).2 := by
  unfold Session.startPending
  split_ifs with hside hthere
  · exact h
  · exact h
  · have hnode : node ∈ Table.keys s.graph.nodes := Table.holds_iff.1 (by simpa [Graph.hasNode] using hthere)
    refine { h with pending := fun p hp => ?_ }
    obtain rfl := Option.some.inj hp
    exact ⟨hnode, by simpa using hside⟩

theorem Refers.createConnection (h : Refers blank s) (source target : String) : Refers blank (s.createConnection source target).2 :=
  h.grown (undisturbed_of_adds (adds_createConnection s source target)) (edited_createConnection s source target)

theorem Refers.completePending (h : Refers blank s) (node side : String) : Refers blank (s.completePending node side).2 := by
  unfold Session.completePending
  split
  · exact h
  · dsimp only
    split_ifs
    · exact h.withoutPending
    · exact h.withoutPending
    · exact h.withoutPending.createConnection _ _
    · exact h.withoutPending.createConnection _ _

theorem Refers.cancelPending (h : Refers blank s) : Refers blank s.cancelPending := by
  unfold Session.cancelPending
  split
  · exact h
  · exact { h with pending := nofun }

theorem mem_keys_without {g : Graph} (hg : g.IsSound) {a : String} (ha : a ∈ Table.keys g.nodes) (hne : a ≠ id) :
    a ∈ Table.keys (g.without id).nodes := by
  rw [← hg.without.ids_eq_keys, Graph.mem_ids_without hg, hg.ids_eq_keys]
  exact ⟨ha, hne⟩

/-- Once a node and the connections at it are gone, what named them is forgotten, but for a selected connection without a name. -/
theorem Refers.forget (h : Refers blank s) (hsound : t.graph.IsSound) (hcontent : t.store.content.NamesConnections blank)
    (hgraph : t.graph = s.graph.without id) (hselection : t.selection = s.selection) (hpending : t.pending = s.pending)
    (hmonitor : t.monitor = s.monitor) : Refers blank (t.forget id) := by
  have hkept (a : String) (ha : a ∈ Table.keys s.graph.nodes) (hne : a ≠ id) : a ∈ Table.keys t.graph.nodes := by
    rw [hgraph]
    exact mem_keys_without h.sound ha hne
  have hstates : Table.keys (t.forget id).monitor.states = (Table.keys s.monitor.states).erase id := by
    rw [← hmonitor]
    exact Table.keys_erase _ _
  have hnodes : (t.forget id).selection.nodes = s.selection.nodes.erase id := by rw [← hselection]; rfl
  refine ⟨hsound, hcontent, ?_, fun a ha => ?_, fun c hc => ?_, fun p hp => ?_, ?_, fun a ha => ?_⟩
  · rw [hnodes]
    exact h.distinct.erase id
  · rw [hnodes, h.distinct.mem_erase_iff] at ha
    exact hkept a (h.selected a ha.2) ha.1
  · obtain ⟨hheld, hstays⟩ := Option.filter_eq_some_iff.1 hc
    rw [hselection] at hheld
    rcases Bool.or_eq_true_iff.1 hstays with hempty | hthere
    · have hc : c = "" := by simpa using hempty
      refine .inr ⟨?_, hc⟩
      rcases h.connection c hheld with hmem | ⟨hblank, _⟩
      · exact h.content.named (hc ▸ hmem)
      · exact hblank
    · exact .inl (Table.lookup_isSome.1 hthere)
  · obtain ⟨hheld, hne⟩ := Option.filter_eq_some_iff.1 hp
    obtain ⟨hnode, hside⟩ := h.pending p (hpending ▸ hheld)
    exact ⟨hkept p.node hnode (by simpa using hne), hside⟩
  · rw [hstates]
    exact h.apart.erase id
  · rw [hstates, h.apart.mem_erase_iff] at ha
    exact hkept a (h.monitored a ha.2) ha.1

theorem Refers.deleteNode (h : Refers blank s) (id : String) : Refers blank (s.deleteNode id).2 := by
  have hsound : (s.deleteNode id).2.graph.IsSound := edited_deleteNode.isSound h.sound
  have hcontent : (s.deleteNode id).2.store.content.NamesConnections blank := edited_deleteNode.namesConnections h.sound h.content
  have hgraph : (s.deleteNode id).2.graph = s.graph.without id := graph_deleteNode id h.sound
  unfold Session.deleteNode at hsound hcontent hgraph ⊢
  cases hremoved : (s.store.removeNode id).1 with
  | true =>
    simp only [hremoved, ↓reduceIte] at hsound hcontent hgraph ⊢
    exact Refers.forget (t := { s with store := (s.store.removeNode id).2 }) h hsound hcontent hgraph rfl rfl rfl
  | false =>
    have hstore : (s.store.removeNode id).2 = s.store := by
      unfold Store.removeNode at hremoved ⊢
      split at hremoved
      · rfl
      · cases hremoved
    simp only [hremoved, hstore, Bool.false_eq_true, ↓reduceIte]
    exact h

theorem Refers.deleteNodes (h : Refers blank s) (ids : List String) : Refers blank (s.deleteNodes ids).2 := by
  induction ids generalizing s with
  | nil => exact h
  | cons id r ih => exact ih (h.deleteNode id)

theorem Refers.deleteSelectedNodes (h : Refers blank s) : Refers blank s.deleteSelectedNodes.2 := by
  unfold Session.deleteSelectedNodes
  split
  · exact h
  · exact (h.deleteNodes s.selection.nodes).clearSelection

theorem Refers.removeCustomType (h : Refers blank s) (type : String) : Refers blank (s.removeCustomType type).2 := by
  unfold Session.removeCustomType
  split
  · exact h
  · have hdeleted := h.deleteNodes ((s.graph.nodeList.filter fun n => n.type = type).map Node.id)
    exact { hdeleted with }

theorem Refers.deleteConnection (h : Refers blank s) (id : String) : Refers blank (s.deleteConnection id).2 := by
  have hedited : Edited s (s.deleteConnection id).2 := edited_deleteConnection s id
  have hsound : (s.deleteConnection id).2.graph.IsSound := hedited.isSound h.sound
  have hcontent := hedited.namesConnections h.sound h.content
  unfold Session.deleteConnection Store.removeConnection at hsound hcontent ⊢
  cases hfound : s.store.graph.connection? id with
  | none =>
    simp only [Bool.false_and, Bool.false_eq_true, ↓reduceIte]
    exact h
  | some c =>
    simp only [hfound, Bool.true_and, decide_eq_true_eq] at hsound hcontent ⊢
    split_ifs at hsound hcontent ⊢ with hselected
    · exact { h with sound := hsound, content := hcontent, connection := nofun }
    · refine { h with sound := hsound, content := hcontent, connection := fun d hd => ?_ }
      have hne : d ≠ id := fun he => hselected (he ▸ hd)
      refine (h.connection d hd).imp_left fun hmem => ?_
      have hstays : d ∈ Table.keys (Table.erase s.graph.connections id) := by
        rw [Table.keys_erase]
        exact (List.mem_erase_of_ne hne).2 hmem
      exact hstays

theorem Refers.report (h : Refers blank s) (report answer : Value) :
    Refers blank (s.onMonitor (s.monitor.apply s.store report) answer).2 := by
  have hnone : (Table.keys ([] : Table Status)).Nodup ∧ Table.keys ([] : Table Status) ⊆ Table.keys s.graph.nodes := by
    simp [Table.keys]
  obtain ⟨hn, hmem⟩ := Monitor.keys_statesOf h.sound hnone.1 hnone.2 (Monitor.entries report)
  exact { h with apart := hn, monitored := hmem }

theorem Refers.clearReports (h : Refers blank s) (answer : Value) :
    Refers blank (s.onMonitor (s.monitor.clear s.store) answer).2 := by
  rw [clear_eq]
  split_ifs <;> exact { h with apart := List.nodup_nil, monitored := nofun }

theorem refers_resetTransient (hsound : s.graph.IsSound) (hcontent : s.store.content.NamesConnections blank) :
    Refers blank s.resetTransient := by
  have hcore : s.resetTransient.store.content = s.store.content := congrArg Core.content (core_resetTransient s)
  have hgraph : s.resetTransient.graph = s.graph := congrArg Content.graph hcore
  have hstates : s.resetTransient.monitor.states = [] := by
    unfold resetTransient
    rw [clear_eq]
  refine ⟨hgraph ▸ hsound, hcore ▸ hcontent, List.nodup_nil, nofun, nofun, nofun, ?_, ?_⟩
  · rw [hstates]
    exact List.nodup_nil
  · rw [hstates]
    exact nofun

theorem Refers.reset (h : Refers blank s) : Refers blank s.reset := by
  have hcontent : (s.store.clear false).content.NamesConnections blank := ⟨h.content.tag, nofun⟩
  refine Refers.emit (refers_resetTransient ?_ hcontent) _
  exact Graph.isForest_empty.toIsSound

theorem Refers.apply {l : Loaded} (h : Refers blank s) (hl : "" ∈ l.connections.map Connection.id → blank) :
    Refers blank (s.apply l).2 := by
  unfold Session.apply Store.load
  cases hg : Store.graphOf l.nodes l.connections with
  | error f => exact h
  | ok g =>
    obtain ⟨hsound, _, hconnections⟩ := Store.graphOf_eq_ok hg
    have hnamed : "" ∈ Table.keys g.connections → blank := by
      rw [← hsound.connectionIds_eq_keys, hconnections]
      exact hl
    dsimp only
    refine Refers.emit (refers_resetTransient ?_ ?_) _
    · exact hsound
    · exact ⟨h.content.tag, hnamed⟩

theorem Refers.act {asked : String} (h : Refers blank s) (hst : Act s asked t) : Refers blank t := by
  have hedited : Edited s t := edited_act hst
  cases hst with
  | nothing => exact h
  | addCustomType definition => exact h.grown (undisturbed_addCustomType definition) hedited
  | removeCustomType type => exact h.removeCustomType type
  | toggleCollapsed => exact { h with }
  | createNode type category x y name => exact h.grown (undisturbed_of_adds (adds_createNode s type category x y name)) hedited
  | deleteNode id => exact h.deleteNode id
  | deleteNodes ids => exact h.deleteNodes ids
  | deleteSelectedNodes => exact h.deleteSelectedNodes
  | cloneNode id offsetX offsetY => exact h.grown (undisturbed_of_adds (adds_cloneNode s id offsetX offsetY)) hedited
  | cloneEach ids offsetX offsetY => exact h.grown (undisturbed_of_adds (adds_cloneEach s ids offsetX offsetY [])) hedited
  | cloneNodes ids offsetX offsetY => exact h.grown (undisturbed_of_adds (adds_cloneNodes s ids offsetX offsetY)) hedited
  | updateNodeProperties id properties => exact h.grown (undisturbed_updateNodeProperties id properties) hedited
  | renameNode id name => exact h.grown (undisturbed_renameNode id name) hedited
  | moveNode id x y => exact h.grown (undisturbed_moveNode id x y) hedited
  | alignSelectedNodes how => exact h.grown (undisturbed_alignSelectedNodes how) hedited
  | createConnection source target => exact h.createConnection source target
  | deleteConnection id => exact h.deleteConnection id
  | selectConnection id => exact h.selectConnection id
  | deselectConnection => exact h.deselectConnection
  | startPending node side => exact h.startPending node side
  | completePending node side => exact h.completePending node side
  | dropPending => exact h.withoutPending
  | cancelPending => exact h.cancelPending
  | selectNode id add => exact h.selectNode id add
  | selectNodes ids => exact h.selectNodes ids
  | deselectNode id => exact h.deselectNode id
  | clearSelection => exact h.clearSelection
  | startBox => exact { h with }
  | updateBox x y => exact h.grown (undisturbed_updateBox x y) hedited
  | endBox add => exact h.endBox add
  | updateGrid updates => exact h.grown (undisturbed_updateGrid updates) hedited
  | updateViewport updates => exact h.grown (undisturbed_updateViewport updates) hedited
  | autoLayout => exact h.grown (undisturbed_autoLayout s) hedited
  | reset => exact h.reset
  | report message answer => exact h.report message answer
  | clearReports answer => exact h.clearReports answer

theorem refers_start (blank : Prop) (config : EditorConfig) (catalog : Catalog) : Refers blank (start config catalog) :=
  ⟨Graph.isForest_empty.toIsSound, ⟨rfl, nofun⟩, List.nodup_nil, nofun, nofun, nofun, List.nodup_nil, nofun⟩

theorem Refers.afterAll {cs : List Call} (h : Refers blank s)
    (hcs : ∀ c ∈ cs, c.TakesOver fun l => "" ∈ l.connections.map Connection.id → blank) : Refers blank (s.afterAll cs) :=
  kept_by_calls (fun _ _ _ hst hs => hs.act hst) (fun _ _ hl hs => hs.apply hl) hcs h

/-- In every state that a session reaches by itself, the selected nodes are different nodes of the graph, the pending connection starts
at one of the two sides of such a node, and every reported status belongs to one. The selected connection is one of the graph, or its id
is empty and it may be gone; where no document brought an empty id, it is one of the graph. -/
theorem runs_keep_references (config : EditorConfig) (catalog : Catalog) (cs : List Call) (h : ∀ c ∈ cs, c.TakesOver fun _ => True) :
    let s := (start config catalog).afterAll cs
    (s.selection.nodes.Nodup ∧ ∀ id ∈ s.selection.nodes, id ∈ s.graph.ids) ∧
      (∀ id, s.selection.connection = some id → id ∈ s.graph.connectionList.map Connection.id ∨ id = "") ∧
        (∀ p, s.pending = some p → p.node ∈ s.graph.ids ∧ (p.side = "parent" ∨ p.side = "child")) ∧
          (∀ id ∈ Table.keys s.monitor.states, id ∈ s.graph.ids) ∧
            ((∀ c ∈ cs, c.TakesOver fun l => "" ∉ l.connections.map Connection.id) →
              ∀ id, s.selection.connection = some id → id ∈ s.graph.connectionList.map Connection.id) := by
  intro s
  have hs : Refers True s := (refers_start True config catalog).afterAll (by simpa using h)
  rw [hs.sound.ids_eq_keys, hs.sound.connectionIds_eq_keys]
  refine ⟨⟨hs.distinct, hs.selected⟩, fun id hid => (hs.connection id hid).imp_right And.right, fun p hp => ?_, hs.monitored,
    fun hnamed id hid => ?_⟩
  · obtain ⟨hnode, hside⟩ := hs.pending p hp
    exact ⟨hnode, (Bool.or_eq_true_iff.1 hside).imp of_decide_eq_true of_decide_eq_true⟩
  · have hs : Refers False s := (refers_start False config catalog).afterAll hnamed
    exact (hs.connection id hid).resolve_right And.left

/-- A document with a connection that has no name, which is selected when the leaf at its end goes. -/
def namelessRun : List Call :=
  [.loadSource (documentOf [plainNode "r" "Sequence" "composite", plainNode "a" "AlwaysSuccess" "action"] [⟨"", "r", "a"⟩]),
    .request "select_connection" [.text ""], .request "delete_node" [.text "a"]]

/-- The connection went with the leaf and is still selected. -/
theorem namelessRun_loses_reference :
    let s := (start {} .standard).afterAll namelessRun
    (∀ c ∈ namelessRun, c.TakesOver fun _ => True) ∧ s.graph.ids = ["r"] ∧ s.graph.connectionList = [] ∧
      s.selection.connection = some "" := by
  refine ⟨?_, by decide +kernel, by decide +kernel, by decide +kernel⟩
  simp only [namelessRun, List.forall_mem_cons, Call.TakesOver, List.not_mem_nil, false_implies, implies_true, and_true, true_and]
  decide +kernel

def selectingRun : List Call :=
  [.loadSource foreignDocument, .request "select_nodes" [.list [.text "leaf", .text "node_007", .text "leaf"]],
    .request "start_pending_connection" [.text "leaf", .text "child"], .request "select_connection" [.text "conn_2"],
    .request "delete_node" [.text "node_007"]]

theorem selectingRun_keeps_references :
    let s := (start {} .standard).afterAll selectingRun
    s.selection.nodes = ["leaf"] ∧ "leaf" ∈ s.graph.ids ∧ s.pending = some ⟨"leaf", "child"⟩ ∧
      (∀ p, s.pending = some p → p.node ∈ s.graph.ids ∧ (p.side = "parent" ∨ p.side = "child")) ∧
        ∀ id, s.selection.connection = some id → id ∈ s.graph.connectionList.map Connection.id := by
  intro s
  have hown : ∀ c ∈ selectingRun, c.TakesOver fun l => "" ∉ l.connections.map Connection.id := by
    simp only [selectingRun, List.forall_mem_cons, Call.TakesOver, List.not_mem_nil, false_implies, implies_true, and_true]
    refine ⟨fun l hl => ?_, by decide +kernel, by decide +kernel, by decide +kernel, by decide +kernel⟩
    obtain rfl := Except.ok.inj (decode_foreignDocument.symm.trans hl)
    decide
  have hall : ∀ c ∈ selectingRun, c.TakesOver fun _ => True := by
    simp only [selectingRun, List.forall_mem_cons, Call.TakesOver, List.not_mem_nil, false_implies, implies_true, and_true, true_and]
    decide +kernel
  obtain ⟨⟨_, hselected⟩, _, hpending, _, hconnection⟩ := runs_keep_references {} .standard selectingRun hall
  have hnodes : s.selection.nodes = ["leaf"] := by decide +kernel
  exact ⟨hnodes, hselected "leaf" (hnodes ▸ List.mem_singleton_self _), by decide +kernel, hpending, hconnection hown⟩

end Session

end BehaviorTree
