import BehaviorTree.Proofs.Document.Decode
import BehaviorTree.Proofs.Session.Calls

/-!
Fresh ids. The two sequences of a session are ahead of the ids in its store: after every edit, because an id that is issued is left
behind, and after every load, because the document set them so. No new node or connection is then refused because of its id.
-/

set_option autoImplicit false

namespace BehaviorTree

open Relation

namespace IdSequence

variable {s t : IdSequence} {ids js : List String}

theorem IsAheadOf.issues (h : s.IsAheadOf ids) (hjs : s.Issues js t) : t.IsAheadOf (ids ++ js) := by
  induction js generalizing s ids with
  | nil =>
    obtain rfl : t = s := hjs
    rwa [List.append_nil]
  | cons id r ih =>
    obtain ⟨⟨rfl, _⟩, hr⟩ := hjs
    simpa using ih h.issue hr

theorem tag_of_issues (hjs : s.Issues js t) : t.tag = s.tag := by
  induction js generalizing s with
  | nil => exact congrArg tag hjs
  | cons id r ih =>
    have hfirst : s.issue.2.tag = s.tag := rfl
    exact (ih hjs.2).trans hfirst

end IdSequence

namespace Content

structure IsAhead (k : Content) : Prop where
  nodeTag : k.nodeIds.tag = "node_"
  connectionTag : k.connectionIds.tag = "conn_"
  nodes : k.nodeIds.IsAheadOf (Table.keys k.graph.nodes)
  connections : k.connectionIds.IsAheadOf (Table.keys k.graph.connections)

variable {lookup : String → String → Option NodeType} {k l : Content}

theorem keys_of_alike {nodes ms : Table Node} (h : Table.mapValues Node.kind nodes = Table.mapValues Node.kind ms) :
    Table.keys nodes = Table.keys ms := by
  rw [← Table.keys_mapValues, h, Table.keys_mapValues]

theorem Step.isAhead (h : Step lookup k l) (hk : k.IsAhead) : l.IsAhead := by
  cases h with
  | nodeIssued => exact { hk with nodes := hk.nodes.issue.mono (List.subset_append_left _ _) }
  | connectionIssued => exact { hk with connections := hk.connections.issue.mono (List.subset_append_left _ _) }
  | nodeAdded n issued fresh typed =>
    refine { hk with nodes := ?_ }
    rw [Graph.keys_addNode, issued]
    exact hk.nodes.issue
  | nodesChanged nodes alike =>
    refine { hk with nodes := ?_ }
    rw [withNodes, keys_of_alike alike]
    exact hk.nodes
  | nodeRemoved id =>
    exact { hk with
      nodes := hk.nodes.mono (List.filter_sublist.map _).subset
      connections := hk.connections.mono (List.filter_sublist.map _).subset }
  | connectionRemoved id => exact { hk with connections := hk.connections.mono (List.filter_sublist.map _).subset }
  | connected source target fresh accepted =>
    refine { hk with connections := ?_ }
    rw [Graph.keys_addConnections]
    exact hk.connections.issue
  | copied copy ds ids copying twins copies issued distinct fresh =>
    refine { hk with connectionTag := (IdSequence.tag_of_issues issued).trans hk.connectionTag, connections := ?_ }
    rw [Graph.keys_addConnections]
    exact hk.connections.issues issued
  | cleared =>
    exact { hk with
      nodes := IdSequence.isAheadOf_nil rfl
      connections := IdSequence.isAheadOf_nil rfl }

end Content

namespace Session

variable {s t : Session} {α β δ : Type} {id : String} {n : Node} {c : Connection} {offsetX offsetY : Value}

structure HasFreshIds (s : Session) : Prop where
  sound : s.graph.IsSound
  ahead : s.store.content.IsAhead

theorem start_hasFreshIds (config : EditorConfig) (catalog : Catalog) : (start config catalog).HasFreshIds where
  sound := Graph.isForest_empty.toIsSound
  ahead := ⟨rfl, rfl, IdSequence.isAheadOf_nil rfl, IdSequence.isAheadOf_nil rfl⟩

theorem Edited.hasFreshIds (h : Edited s t) (hs : s.HasFreshIds) : t.HasFreshIds where
  sound := h.isSound hs.sound
  ahead := by
    refine Core.kept_by_steps (P := fun c => c.content.IsAhead) (h hs.sound) (fun c d hstep hc => ?_) hs.ahead
    cases hstep with
    | edited k step => exact step.isAhead hc
    | typeAdded => exact hc
    | typeRemoved => exact hc
    | gridChanged => exact hc

theorem HasFreshIds.apply {l : Loaded} (hs : s.HasFreshIds)
    (hnodes : IdSequence.IsAheadOf ⟨"node_", l.nextNode⟩ (l.nodes.map Node.id))
    (hconnections : IdSequence.IsAheadOf ⟨"conn_", l.nextConnection⟩ (l.connections.map Connection.id)) :
    (s.apply l).2.HasFreshIds := by
  rcases apply_cases s l with ⟨f, happly⟩ | ⟨g, t, hg, happly, hcore⟩
  · rw [happly]
    exact hs
  · rw [happly]
    obtain ⟨hsound, hnodeList, hconnectionList⟩ := Store.graphOf_eq_ok hg
    have hnodeTag : s.store.nodeIds.tag = "node_" := hs.ahead.nodeTag
    have hconnectionTag : s.store.connectionIds.tag = "conn_" := hs.ahead.connectionTag
    have hcontent : t.store.content = ⟨g, ⟨"node_", l.nextNode⟩, ⟨"conn_", l.nextConnection⟩⟩ := by
      rw [← hnodeTag, ← hconnectionTag]
      exact congrArg Core.content hcore
    rw [← hnodeList, show g.nodeList.map Node.id = Table.keys g.nodes from hsound.ids_eq_keys] at hnodes
    rw [← hconnectionList, hsound.connectionIds_eq_keys] at hconnections
    refine ⟨?_, hcontent ▸ ⟨rfl, rfl, hnodes, hconnections⟩⟩
    rw [show t.graph = g from congrArg Content.graph hcontent]
    exact hsound

/-- Is an id refused because there is one already? -/
def Fault.isTaken : Fault → Bool
  | .store (.duplicateNode _) => true
  | .store (.duplicateConnection _) => true
  | _ => false

/-- Does a result say that an id is there already? -/
def Clashes (r : Except Fault α) : Prop := ∃ f, r = .error f ∧ f.isTaken

theorem not_clashes_ok (a : α) : ¬ Clashes (.ok a) := by
  rintro ⟨f, h, _⟩
  cases h

theorem not_clashes_error {f : Fault} (h : f.isTaken = false) : ¬ Clashes (.error f : Except Fault α) := by
  rintro ⟨g, hg, htaken⟩
  obtain rfl := Except.error.inj hg
  exact absurd htaken (by simp [h])

theorem not_clashes_mapError {x : Except δ α} {f : δ → Fault} (h : ∀ e, (f e).isTaken = false) : ¬ Clashes (x.mapError f) := by
  cases x with
  | error e => exact not_clashes_error (h e)
  | ok a => exact not_clashes_ok a

theorem clashes_map {r : Except Fault α} {f : α → β} : Clashes (r.map f) ↔ Clashes r := by
  cases r with
  | error e => simp [Clashes, Except.map]
  | ok a => simp [Clashes, Except.map]

theorem not_clashes_bind {r : Except Fault α} {f : α → Except Fault β} (hr : ¬ Clashes r) (hf : ∀ a, ¬ Clashes (f a)) :
    ¬ Clashes (r >>= f) := by
  cases r with
  | error e => simpa [Clashes, bind, Except.bind] using hr
  | ok a => exact hf a

theorem not_clashes_of_eq_error {r : Except Fault α} {f : Fault} (hr : ¬ Clashes r) (h : r = .error f) :
    ¬ Clashes (.error f : Except Fault β) := by
  rintro ⟨g, hg, htaken⟩
  obtain rfl := Except.error.inj hg
  exact hr ⟨f, h, htaken⟩

theorem not_clashes_issued {ids : IdSequence} : ¬ Clashes ((Store.issued ids).mapError Fault.store) := by
  unfold Store.issued
  split_ifs
  · exact not_clashes_error rfl
  · exact not_clashes_ok _

theorem not_clashes_addNode {store : Store} (h : n.id ∉ Table.keys store.graph.nodes) :
    ¬ Clashes (s.onStore (store.addNode n)).1 := by
  have hfresh : store.graph.hasNode n.id = false := by simpa [Graph.hasNode, ← Table.holds_iff] using h
  rw [Store.addNode, hfresh]
  exact not_clashes_ok _

theorem not_clashes_addConnection {store : Store} (h : c.id ∉ Table.keys store.graph.connections) :
    ¬ Clashes (s.onStore (store.addConnection c)).1 := by
  have hfresh : ¬ Table.holds store.graph.connections c.id := fun hheld => h (Table.holds_iff.1 hheld)
  rw [Store.addConnection, if_neg hfresh]
  split
  · exact not_clashes_ok _
  · exact not_clashes_error rfl

theorem not_clashes_newNode {g : GridSettings} {type category x y name : Value} {d : NodeType} :
    ¬ Clashes (newNode g id type category x y name d) :=
  not_clashes_bind (not_clashes_mapError fun _ => rfl) fun _ =>
    not_clashes_bind (not_clashes_mapError fun _ => rfl) fun _ => not_clashes_mapError fun _ => rfl

theorem not_clashes_createNode (hs : s.HasFreshIds) (type category x y name : Value) :
    ¬ Clashes (s.createNode type category x y name).1 := by
  unfold createNode
  split
  · rename_i e he
    exact not_clashes_of_eq_error (not_clashes_mapError fun _ => rfl) he
  · exact not_clashes_error rfl
  · split
    · rename_i e t hissue
      exact not_clashes_of_eq_error not_clashes_issued (congrArg Prod.fst hissue)
    · rename_i id t hissue
      split
      · rename_i e he
        exact not_clashes_of_eq_error not_clashes_newNode he
      · rename_i n hn
        obtain ⟨rfl, rfl⟩ := issueNodeId_eq_ok hissue
        refine not_clashes_addNode ?_
        rw [(newNode_reads hn).1]
        exact hs.ahead.nodes.issue_notMem

theorem not_clashes_cloneNode (hs : s.HasFreshIds) (id : String) (offsetX offsetY : Value) :
    ¬ Clashes (s.cloneNode id offsetX offsetY).1 := by
  unfold cloneNode
  split
  · exact not_clashes_ok _
  · split
    · rename_i e t hissue
      exact not_clashes_of_eq_error not_clashes_issued (congrArg Prod.fst hissue)
    · rename_i new t hissue
      split
      · exact not_clashes_error rfl
      · rename_i m hm
        obtain ⟨rfl, rfl⟩ := issueNodeId_eq_ok hissue
        refine fun hclash => not_clashes_addNode ?_ (clashes_map.1 hclash)
        rw [(cloneOf_eq_ok hm).1]
        exact hs.ahead.nodes.issue_notMem

theorem not_clashes_cloneEach (hs : s.HasFreshIds) (clones : Table String) (ids : List String) :
    ¬ Clashes (s.cloneEach offsetX offsetY clones ids).1 := by
  induction ids generalizing s clones with
  | nil => exact not_clashes_ok _
  | cons id r ih =>
    have hone : ¬ Clashes (s.cloneNode id offsetX offsetY).1 := not_clashes_cloneNode hs id offsetX offsetY
    have hnext : (s.cloneNode id offsetX offsetY).2.HasFreshIds := edited_cloneNode.hasFreshIds hs
    unfold cloneEach
    split
    · rename_i hr
      rw [hr] at hone
      exact not_clashes_of_eq_error hone rfl
    · rename_i hr
      rw [hr] at hnext
      exact ih hnext _
    · rename_i hr
      rw [hr] at hnext
      exact ih hnext _

theorem not_clashes_cloneConnections (hs : s.store.connectionIds.IsAheadOf (Table.keys s.graph.connections))
    (clones : Table String) (cs : List Connection) : ¬ Clashes (s.cloneConnections clones cs).1 := by
  induction cs generalizing s with
  | nil => exact not_clashes_ok _
  | cons c r ih =>
    unfold cloneConnections
    split
    · rename_i source target _ _
      split
      · rename_i e t hissue
        exact not_clashes_of_eq_error not_clashes_issued (congrArg Prod.fst hissue)
      · rename_i id t hissue
        obtain ⟨rfl, rfl⟩ := issueConnectionId_eq_ok hissue
        let c : Connection := ⟨s.store.connectionIds.issue.1, source, target⟩
        have hadd : ¬ Clashes (s.onStore (s.store.issueConnectionId.2.addConnection c)).1 :=
          not_clashes_addConnection hs.issue_notMem
        split
        · rename_i hr
          exact not_clashes_of_eq_error hadd (congrArg Prod.fst hr)
        · rename_i u hr
          rcases Store.content_addConnection s.store.issueConnectionId.2 c with ⟨f, hrefused⟩ | ⟨_, store, hadded, hcontent⟩
          · simp [hrefused, c, onStore, Except.mapError] at hr
          · rw [hadded] at hr
            obtain ⟨_, rfl⟩ := Prod.mk.inj hr
            have hids : store.connectionIds = s.store.connectionIds.issue.2 := congrArg Content.connectionIds hcontent
            have hgraph : store.graph = s.graph.addConnections [c] := congrArg Content.graph hcontent
            refine ih (s := { s with store := store }) ?_
            rw [graph, hids, hgraph, Graph.keys_addConnections]
            exact hs.issue
    · exact ih hs

theorem not_clashes_cloneNodes (hs : s.HasFreshIds) (ids : List String) (offsetX offsetY : Value) :
    ¬ Clashes (s.cloneNodes ids offsetX offsetY).1 := by
  have heach : ¬ Clashes (s.cloneEach offsetX offsetY [] ids).1 := not_clashes_cloneEach hs [] ids
  have hcloned : (s.cloneEach offsetX offsetY [] ids).2.HasFreshIds := (edited_cloneEach ids).hasFreshIds hs
  unfold cloneNodes
  split
  · rename_i hr
    rw [hr] at heach
    exact not_clashes_of_eq_error heach rfl
  · rename_i clones t hr
    rw [hr] at hcloned
    have hconnections := not_clashes_cloneConnections hcloned.ahead.connections clones t.graph.connectionList
    split
    · rename_i hr'
      rw [hr'] at hconnections
      exact not_clashes_of_eq_error hconnections rfl
    · exact not_clashes_ok _

theorem not_clashes_createConnection (hs : s.HasFreshIds) (source target : String) :
    ¬ Clashes (s.createConnection source target).1 := by
  unfold createConnection
  split
  · exact not_clashes_ok _
  · split
    · rename_i e t hissue
      exact not_clashes_of_eq_error not_clashes_issued (congrArg Prod.fst hissue)
    · rename_i id t hissue
      obtain ⟨rfl, rfl⟩ := issueConnectionId_eq_ok hissue
      exact fun hclash => not_clashes_addConnection hs.ahead.connections.issue_notMem (clashes_map.1 hclash)

theorem not_clashes_completePending (hs : s.HasFreshIds) (node side : String) :
    ¬ Clashes (s.completePending node side).1 := by
  unfold completePending
  split
  · exact not_clashes_ok _
  · have hcleared : HasFreshIds { s with pending := none } := ⟨hs.sound, hs.ahead⟩
    dsimp only
    split_ifs
    · exact not_clashes_ok _
    · exact not_clashes_ok _
    · exact not_clashes_createConnection hcleared _ _
    · exact not_clashes_createConnection hcleared _ _

theorem not_clashes_cloneNodesWith (hs : s.HasFreshIds) (ids offsetX offsetY : Value) :
    ¬ Clashes (s.cloneNodesWith ids offsetX offsetY).1 := by
  unfold cloneNodesWith
  split
  · exact not_clashes_error rfl
  · exact fun hclash => not_clashes_cloneNodes hs _ _ _ (clashes_map.1 hclash)
  · rename_i ids _
    have heach : ¬ Clashes (s.cloneEach offsetX offsetY [] ids).1 := not_clashes_cloneEach hs [] ids
    split
    · rename_i hr
      rw [hr] at heach
      exact not_clashes_of_eq_error heach rfl
    · exact not_clashes_error rfl

/-- What a session offers itself: the requests that do not go to the store directly, loading, and applying what was decoded. -/
def Call.IsOwn : Call → Prop
  | .request name _ => name.startsWith storeMark = false
  | .loadSource _ => True
  | .loadFile _ _ => True
  | .apply l => ∃ source, Document.decode source = .ok l

theorem Call.IsOwn.takesOver {c : Call} (h : c.IsOwn) : c.TakesOver fun l => ∃ source, Document.decode source = .ok l := by
  cases c with
  | request name arguments => exact h
  | loadSource source => exact fun l hl => ⟨source, hl⟩
  | loadFile files path => exact fun text l _ hl => ⟨.text text, hl⟩
  | apply l => exact h

/-- What editing keeps, and what a session has again whenever a decoded document was applied to it, it never loses by itself. -/
theorem kept_by_own {P : Session → Prop} (hedited : ∀ s t, Edited s t → P s → P t)
    (happlied : ∀ s source l, Document.decode source = .ok l → P s → P (s.apply l).2) {cs : List Call} (hown : ∀ c ∈ cs, c.IsOwn)
    (hs : P s) : P (s.afterAll cs) :=
  kept_by_calls (fun s t _ hst => hedited s t (edited_act hst)) (fun s l ⟨source, hl⟩ => happlied s source l hl)
    (fun c hc => (hown c hc).takesOver) hs

theorem HasFreshIds.applyDecoded {source : Value} {l : Loaded} (hs : s.HasFreshIds) (h : Document.decode source = .ok l) :
    (s.apply l).2.HasFreshIds :=
  hs.apply (Document.isAheadOf_of_decode h).1 (Document.isAheadOf_of_decode h).2

theorem HasFreshIds.afterAll {cs : List Call} (hs : s.HasFreshIds) (h : ∀ c ∈ cs, c.IsOwn) : (s.afterAll cs).HasFreshIds :=
  kept_by_own (fun _ _ hst hs => hst.hasFreshIds hs) (fun _ _ _ hl hs => hs.applyDecoded hl) h hs

/-- After any run from a fresh session, loading included, no node and no connection has an id that is still to be issued. Nothing
that makes nodes or connections then fails because an id is there already. -/
theorem runs_keep_ids_fresh (config : EditorConfig) (catalog : Catalog) (cs : List Call) (h : ∀ c ∈ cs, c.IsOwn) :
    let s := (start config catalog).afterAll cs
    (∀ k : Int, s.store.nodeIds.next ≤ k → "node_" ++ Value.intText k ∉ s.graph.ids) ∧
      (∀ k : Int, s.store.connectionIds.next ≤ k → "conn_" ++ Value.intText k ∉ s.graph.connectionList.map Connection.id) ∧
        (∀ type category x y name, ¬ Clashes (s.createNode type category x y name).1) ∧
          (∀ id offsetX offsetY, ¬ Clashes (s.cloneNode id offsetX offsetY).1) ∧
            (∀ ids offsetX offsetY, ¬ Clashes (s.cloneNodes ids offsetX offsetY).1) ∧
              (∀ ids offsetX offsetY, ¬ Clashes (s.cloneNodesWith ids offsetX offsetY).1) ∧
                ¬ Clashes s.cloneSelectedNodes.1 ∧ (∀ source target, ¬ Clashes (s.createConnection source target).1) ∧
                  ∀ node side, ¬ Clashes (s.completePending node side).1 := by
  intro s
  have hs : s.HasFreshIds := (start_hasFreshIds config catalog).afterAll h
  have hnodeTag : s.store.nodeIds.tag = "node_" := hs.ahead.nodeTag
  have hconnectionTag : s.store.connectionIds.tag = "conn_" := hs.ahead.connectionTag
  refine ⟨fun k hk => ?_, fun k hk => ?_, not_clashes_createNode hs, not_clashes_cloneNode hs, not_clashes_cloneNodes hs,
    not_clashes_cloneNodesWith hs, not_clashes_cloneNodes hs _ _ _, not_clashes_createConnection hs,
    not_clashes_completePending hs⟩
  · rw [hs.sound.ids_eq_keys, ← hnodeTag]
    exact hs.ahead.nodes.unissued k hk
  · rw [hs.sound.connectionIds_eq_keys, ← hconnectionTag]
    exact hs.ahead.connections.unissued k hk

/-- A document with ids of another origin: a number with zeros in front, a number in the digits of another script, and none. -/
def foreignDocument : Value :=
  documentOf [plainNode "node_007" "Sequence" "composite", plainNode "node_\u0663" "AlwaysSuccess" "action",
    plainNode "leaf" "AlwaysSuccess" "action"] [⟨"conn_2", "node_007", "node_\u0663"⟩]

def foreignGraph : Loaded where
  nodes := [⟨"node_007", "Sequence", "composite", "Sequence", 0.0, 0.0, []⟩,
    ⟨"node_\u0663", "AlwaysSuccess", "action", "AlwaysSuccess", 0.0, 0.0, []⟩,
    ⟨"leaf", "AlwaysSuccess", "action", "AlwaysSuccess", 0.0, 0.0, []⟩]
  connections := [⟨"conn_2", "node_007", "node_\u0663"⟩]
  nextNode := 8
  nextConnection := 3
  gridPresent := false

set_option maxRecDepth 20000 in
theorem decode_foreignDocument : Document.decode foreignDocument = .ok foreignGraph := rfl

def foreignRun : List Call :=
  [.loadSource foreignDocument, .request "reset" [], .apply foreignGraph,
    .request "create_connection" [.text "node_007", .text "leaf"],
    .request "clone_nodes" [.list [.text "node_007", .text "leaf"]]]

/-- The clones get numbers above seven, and their connection one above three. -/
theorem foreignRun_keeps_ids_fresh :
    let s := (start { grid := { snap := false } } .standard).afterAll foreignRun
    (∀ c ∈ foreignRun, c.IsOwn) ∧ s.graph.ids = ["node_007", "node_\u0663", "leaf", "node_8", "node_9"] ∧
      s.graph.connectionList.map Connection.id = ["conn_2", "conn_3", "conn_4"] ∧ s.store.nodeIds.next = 10 ∧
        (∀ k : Int, 10 ≤ k → "node_" ++ Value.intText k ∉ s.graph.ids) ∧
          ¬ Clashes (s.createNode (.text "Sequence") (.text "composite") (.float 0.0) (.float 0.0) .null).1 ∧
            ¬ Clashes (s.createConnection "node_8" "node_\u0663").1 := by
  intro s
  have howned : ∀ c ∈ foreignRun, c.IsOwn := by
    simp only [foreignRun, List.forall_mem_cons, Call.IsOwn, List.not_mem_nil, false_implies, implies_true, and_true, true_and]
    exact ⟨by decide +kernel, ⟨foreignDocument, decode_foreignDocument⟩, by decide +kernel, by decide +kernel⟩
  obtain ⟨hnodes, _, hcreate, _, _, _, _, hconnect, _⟩ :=
    runs_keep_ids_fresh { grid := { snap := false } } .standard foreignRun howned
  have hnext : s.store.nodeIds.next = 10 := by decide +kernel
  exact ⟨howned, by decide +kernel, by decide +kernel, hnext, hnext ▸ hnodes, hcreate _ _ _ _ _, hconnect _ _⟩

end Session

end BehaviorTree
