import BehaviorTree.Proofs.Session.ChildLimits
import BehaviorTree.Proofs.Session.Configuration
import BehaviorTree.Proofs.Session.Kinds

/-!
Nodes and the definitions of their types. A node is made if there is a definition for its type and category. A custom type, however, is
taken for every category, so that the definition may be of another one than the node. So nodes agree with their definitions exactly as
long as none is made of a type and a category that no definition has both of.
-/

set_option autoImplicit false

namespace BehaviorTree.Session

/-- Is there a definition of both the type and the category, in the catalog or among the custom types? -/
def Offers (s : Session) (type category : String) : Prop := ∃ d ∈ s.availableTypes, d.type = type ∧ d.category = category

instance (s : Session) (type category : String) : Decidable (s.Offers type category) :=
  inferInstanceAs (Decidable (∃ d ∈ s.availableTypes, _ ∧ _))

/-- Has a node a definition, and one of its own type and category? -/
def IsTyped (s : Session) (n : Node) : Prop :=
  ∃ d, s.definition? n.type n.category = some d ∧ d.type = n.type ∧ d.category = n.category

instance (s : Session) (n : Node) : Decidable (s.IsTyped n) :=
  inferInstanceAs (Decidable (∃ d ∈ s.definition? n.type n.category, _ ∧ _))

variable {s t : Session} {n : Node} {d : NodeType} {type category asked : String}

theorem mem_availableTypes : d ∈ s.availableTypes ↔ (∃ e ∈ s.catalog.types, e.2 = d) ∨ d ∈ s.customTypes := by
  simp [availableTypes, Catalog.list]

theorem definition?_eq_some (hkeyed : s.catalog.Filled fun _ => True) (h : s.definition? type category = some d) :
    d ∈ s.availableTypes ∧ d.type = type ∧ (d.category = category ∨ d ∈ s.customTypes) := by
  unfold definition? Catalog.find? at h
  split at h
  · rename_i e he
    obtain rfl := Option.some.inj h
    have hmem : e ∈ s.catalog.types := List.mem_of_find?_eq_some he
    have hkey : e.1 = (category, type) := by simpa using List.find?_some he
    have hown : (e.2.category, e.2.type) = (category, type) := (hkeyed e hmem).1.symm.trans hkey
    obtain ⟨hcategory, htype⟩ := Prod.mk.inj hown
    exact ⟨mem_availableTypes.2 (.inl ⟨e, hmem, rfl⟩), htype, .inl hcategory⟩
  · have hmem : d ∈ s.customTypes := List.mem_of_find?_eq_some h
    exact ⟨mem_availableTypes.2 (.inr hmem), by simpa using List.find?_some h, .inr hmem⟩

theorem isTyped_iff (hkeyed : s.catalog.Filled fun _ => True) (hdistinct : (s.customTypes.map NodeType.type).Nodup) :
    s.IsTyped n ↔ s.Offers n.type n.category := by
  constructor
  · rintro ⟨d, hd, htype, hcategory⟩
    exact ⟨d, (definition?_eq_some hkeyed hd).1, htype, hcategory⟩
  · rintro ⟨d, hd, htype, hcategory⟩
    cases hregistered : s.catalog.types.find? fun e => e.1 = (n.category, n.type) with
    | some e =>
      have hfound : s.definition? n.type n.category = some e.2 := by
        rw [definition?, Catalog.find?, hregistered]
      have hmem : e ∈ s.catalog.types := List.mem_of_find?_eq_some hregistered
      have hkey : e.1 = (n.category, n.type) := by simpa using List.find?_some hregistered
      obtain ⟨hcategory', htype'⟩ := Prod.mk.inj ((hkeyed e hmem).1.symm.trans hkey)
      exact ⟨e.2, hfound, htype', hcategory'⟩
    | none =>
      rcases mem_availableTypes.1 hd with ⟨e, he, rfl⟩ | hcustom
      · have hnone := List.find?_eq_none.1 hregistered e he
        exact absurd ((hkeyed e he).1.trans (by rw [htype, hcategory])) (by simpa using hnone)
      · have hfound : s.definition? n.type n.category = s.customTypes.find? fun t => t.type = n.type := by
          rw [definition?, Catalog.find?, hregistered]
        obtain ⟨u, hu⟩ : ∃ u, s.customTypes.find? (fun t => t.type = n.type) = some u :=
          Option.isSome_iff_exists.1 (List.find?_isSome.2 ⟨d, hcustom, by simpa using htype⟩)
        have hsame : u.type = d.type := by simpa [htype] using List.find?_some hu
        obtain rfl := List.inj_on_of_nodup_map hdistinct (List.mem_of_find?_eq_some hu) hcustom hsame
        exact ⟨u, hfound.trans hu, htype, hcategory⟩

theorem availableTypes_eq (hcatalog : t.catalog = s.catalog) (hcustom : t.customTypes = s.customTypes) :
    t.availableTypes = s.availableTypes := by
  rw [availableTypes, hcatalog, hcustom, availableTypes]

theorem mem_customTypes_removeCustomType {gone : String} (h : d ∈ s.customTypes) (hother : d.type ≠ gone) :
    d ∈ (s.removeCustomType gone).2.customTypes := by
  unfold removeCustomType
  split
  · exact h
  · dsimp only [emit]
    rw [customTypes_deleteNodes]
    exact (List.mem_eraseP_of_neg (by simpa using hother)).2 h

theorem offers_act (h : Act s asked t) (hs : s.graph.IsSound) (hn : n ∈ t.graph.nodeList) (ho : s.Offers n.type n.category) :
    t.Offers n.type n.category := by
  obtain ⟨d, hd, htype, hcategory⟩ := ho
  refine ⟨d, ?_, htype, hcategory⟩
  obtain ⟨_, hcatalog, _, hsame | ⟨definition, rfl⟩ | ⟨gone, rfl⟩⟩ := keeps_act h
  · rwa [availableTypes_eq hcatalog hsame]
  · rw [mem_availableTypes, hcatalog]
    refine (mem_availableTypes.1 hd).imp_right fun hcustom => ?_
    unfold addCustomType
    split
    · exact hcustom
    · split_ifs
      · exact hcustom
      · exact hcustom
      · exact List.mem_append_left _ hcustom
  · rw [mem_availableTypes, hcatalog]
    refine (mem_availableTypes.1 hd).imp_right fun hcustom => ?_
    cases hfound : s.customTypes.find? fun u => u.type = gone with
    | none =>
      rw [removeCustomType, hfound]
      exact hcustom
    | some u =>
      have hremoved : (s.removeCustomType gone).1 = true := by rw [removeCustomType, hfound]
      have hother : n.type ≠ gone := (removeCustomType_eq_true hs (Prod.ext hremoved rfl)).1 n hn
      exact mem_customTypes_removeCustomType hcustom (htype ▸ hother)

theorem newNode_kind {g : GridSettings} {id : String} {type category x y name : Value}
    (h : newNode g id type category x y name d = .ok n) : Schema.text type = .ok n.type ∧ Schema.text category = .ok n.category := by
  obtain ⟨a, _, h⟩ := bind_eq_ok.1 h
  obtain ⟨b, _, h⟩ := bind_eq_ok.1 h
  rw [mapError_eq_ok, Schema.Checked.report_eq_ok] at h
  obtain ⟨_, ht, hc, _⟩ := Node.ofMembers_eq_ok h
  exact ⟨Schema.Checked.below_eq_ok.1 ht, Schema.Checked.below_eq_ok.1 hc⟩

theorem createNode_cases (s : Session) (type category x y name : Value) :
    (∃ f t, s.createNode type category x y name = (.error f, t) ∧ t.graph = s.graph) ∨
      ∃ n t, s.createNode type category x y name = (.ok n.id, t) ∧ t.graph = s.graph.addNode n ∧
        Schema.text type = .ok n.type ∧ Schema.text category = .ok n.category := by
  unfold createNode
  split
  · exact .inl ⟨_, _, rfl, rfl⟩
  · exact .inl ⟨_, _, rfl, rfl⟩
  · split
    · rename_i hissue
      obtain ⟨_, rfl⟩ := Prod.mk.inj hissue
      exact .inl ⟨_, _, rfl, rfl⟩
    · rename_i hissue
      obtain ⟨rfl, rfl⟩ := issueNodeId_eq_ok hissue
      split
      · exact .inl ⟨_, _, rfl, rfl⟩
      · rename_i n hn
        rcases Store.content_addNode s.store.issueNodeId.2 n with ⟨f, hadd⟩ | ⟨_, store, hadd, hcontent⟩
        · refine .inl ⟨.store f, { s with store := s.store.issueNodeId.2 }, ?_, rfl⟩
          dsimp only
          rw [hadd]
          rfl
        · refine .inr ⟨n, { s with store := store }, ?_, congrArg Content.graph hcontent, newNode_kind hn⟩
          dsimp only
          rw [hadd]
          rfl

/-- A request for a new node either fails and leaves the graph alone, or it makes one of the kind that it names. -/
theorem request_createNode_cases (s : Session) (arguments : List Value) :
    let r := s.request "create_node" arguments
    r.2.availableTypes = s.availableTypes ∧
      ((∃ f, r.1 = .error f ∧ r.2.graph = s.graph) ∨
        ∃ type category more n, arguments = type :: category :: more ∧ r.1 = .ok (.text n.id) ∧ r.2.graph = s.graph.addNode n ∧
          Schema.text type = .ok n.type ∧ Schema.text category = .ok n.category) := by
  have hown : "create_node".startsWith storeMark = false := by decide +kernel
  have hrequest : s.request "create_node" arguments = s.refused ∨
      ∃ type category more x y name, arguments = type :: category :: more ∧
        s.request "create_node" arguments = answered .text (s.createNode type category x y name) := by
    rw [request, hown]
    rcases arguments with _ | ⟨type, _ | ⟨category, more⟩⟩
    · exact .inl rfl
    · exact .inl rfl
    · simp only [Bool.false_eq_true, ↓reduceIte]
      split_ifs
      · exact .inr ⟨type, category, more, _, _, _, rfl, rfl⟩
      · exact .inl rfl
  intro r
  rcases hrequest with hrefused | ⟨type, category, more, x, y, name, harguments, hcreate⟩
  · rw [show r = s.refused from hrefused]
    exact ⟨rfl, .inl ⟨_, rfl, rfl⟩⟩
  · have hfixtures : (s.createNode type category x y name).2.fixtures = s.fixtures :=
      fixtures_of_adds (adds_createNode s type category x y name)
    rw [show r = answered .text (s.createNode type category x y name) from hcreate]
    refine ⟨availableTypes_eq (congrArg (fun f => f.2.1) hfixtures) (congrArg (fun f => f.2.2.1) hfixtures), ?_⟩
    rcases createNode_cases s type category x y name with ⟨f, t, ht, hgraph⟩ | ⟨n, t, ht, hgraph, hkind⟩
    · rw [ht]
      exact .inl ⟨f, rfl, hgraph⟩
    · rw [ht]
      exact .inr ⟨type, category, more, n, harguments, rfl, hgraph, hkind⟩

/-- If a call makes a node, is there a definition at that moment of both the type and the category that it asks for? -/
def MakesOffered (s : Session) (c : Call) : Prop :=
  ∀ type category more v k l, c = .request "create_node" (type :: category :: more) →
    (s.request "create_node" (type :: category :: more)).1 = .ok v → Schema.text type = .ok k → Schema.text category = .ok l →
      s.Offers k l

theorem makesOffered_of_ne {name : String} (h : name ≠ "create_node") (arguments : List Value) :
    s.MakesOffered (.request name arguments) := fun _ _ _ _ _ _ hcreate => absurd (Call.request.inj hcreate).1 h

theorem makesOffered_of_offers {more : List Value} (h : s.Offers type category) :
    s.MakesOffered (.request "create_node" (.text type :: .text category :: more)) := by
  intro _ _ _ v k l hcreate _ hk hl
  obtain ⟨_, harguments⟩ := Call.request.inj hcreate
  injection harguments with htype hrest
  injection hrest with hcategory _
  subst htype hcategory
  obtain rfl := Except.ok.inj hk
  obtain rfl := Except.ok.inj hl
  exact h

theorem offers_after {c : Call} (hs : s.graph.IsSound) (hall : ∀ n ∈ s.graph.nodeList, s.Offers n.type n.category) (hc : c.isEdit)
    (hmakes : s.MakesOffered c) : ∀ n ∈ (s.after c).graph.nodeList, (s.after c).Offers n.type n.category := by
  cases c with
  | request name arguments =>
    have hown : name.startsWith storeMark = false := by simpa [Call.isEdit] using hc
    have hact : Act s name (s.after (.request name arguments)) := act_request s arguments hown
    intro n hn
    refine offers_act hact hs hn ?_
    by_cases hname : name = "create_node"
    · subst hname
      obtain ⟨_, ⟨f, _, hgraph⟩ | ⟨type, category, more, m, rfl, hok, hgraph, htype, hcategory⟩⟩ :=
        request_createNode_cases s arguments
      · exact hall n (hgraph ▸ hn)
      · rw [after, hgraph, Graph.nodeList_addNode, List.mem_append, List.mem_singleton] at hn
        rcases hn with hn | rfl
        · exact hall n hn
        · exact hmakes type category more _ _ _ rfl hok htype hcategory
    · obtain ⟨m, hm, htype, hcategory⟩ := inherits_act hact hname hs n hn
      exact htype ▸ hcategory ▸ hall m hm
  | loadSource source => cases hc
  | loadFile files path => cases hc
  | apply l => cases hc

theorem isOwn_of_isEdit {c : Call} (h : c.isEdit) : c.IsOwn := by
  cases c with
  | request name arguments => simpa [Call.isEdit, Call.IsOwn] using h
  | loadSource source => cases h
  | loadFile files path => cases h
  | apply l => cases h

theorem admits_of_edits (config : EditorConfig) {catalog : Catalog} {cs : List Call} (hcs : ∀ c ∈ cs, c.isEdit) :
    ((start config catalog).afterAll cs).catalog = catalog ∧ catalog.Admits ((start config catalog).afterAll cs).customTypes := by
  have hown : ∀ c ∈ cs, c.IsOwn := fun c hc => isOwn_of_isEdit (hcs c hc)
  refine ⟨catalog_afterAll (start_hasFreshIds config catalog) hown, admits_afterAll config catalog hown fun p c l hp htakes => ?_⟩
  have hc : c.isEdit := hcs c (hp.subset (by simp))
  cases c with
  | request name arguments => cases htakes
  | loadSource source => cases hc
  | loadFile files path => cases hc
  | apply l => cases hc

/-- In a run from a fresh session without documents, with whatever plugins and entry points the catalog was filled, every node has a
definition of its own type and category at every moment, exactly if there is one for every node that is made when it is made. Without
that condition, each node has a definition of its type, and if that is of another category, it is a custom one. -/
theorem nodes_match_types_iff (config : EditorConfig) (catalog : Catalog) (cs : List Call) (hcatalog : catalog.Reachable)
    (hcs : ∀ c ∈ cs, c.isEdit) :
    let after (p : List Call) : Session := (start config catalog).afterAll p
    ((∀ p, p <+: cs → ∀ n ∈ (after p).graph.nodeList, (after p).IsTyped n) ↔
        ∀ p c, p ++ [c] <+: cs → (after p).MakesOffered c) ∧
      ∀ p, p <+: cs → ∀ n ∈ (after p).graph.nodeList, ∃ d, (after p).definition? n.type n.category = some d ∧ d.type = n.type ∧
        (d.category = n.category ∨ d ∈ (after p).customTypes) := by
  intro after
  have hedits (p : List Call) (hp : p <+: cs) : ∀ c ∈ p, c.isEdit := fun c hc => hcs c (hp.subset hc)
  have hkeyed (p : List Call) (hp : p <+: cs) : (after p).catalog.Filled fun _ => True := by
    rw [(admits_of_edits config (hedits p hp)).1]
    exact hcatalog.keyed
  have htyped (p : List Call) (hp : p <+: cs) (n : Node) : (after p).IsTyped n ↔ (after p).Offers n.type n.category :=
    isTyped_iff (hkeyed p hp) (admits_of_edits config (hedits p hp)).2.distinct
  have hstart : (start config catalog).graph.IsSound := (start_isForest config catalog).toIsSound
  have hnext (p : List Call) (c : Call) : after (p ++ [c]) = (after p).after c := afterAll_concat _ p c
  refine ⟨⟨fun hall p c hp type category more v k l hcreate hok hk hl => ?_, fun hmakes p hp n hn => ?_⟩, fun p hp n hn => ?_⟩
  · subst hcreate
    obtain ⟨hsame, ⟨f, hf, _⟩ | ⟨_, _, _, n, harguments, _, hgraph, htype, hcategory⟩⟩ :=
      request_createNode_cases (after p) (type :: category :: more)
    · cases hf.symm.trans hok
    · injection harguments with hfirst hrest
      injection hrest with hsecond _
      subst hfirst hsecond
      obtain rfl := Except.ok.inj (htype.symm.trans hk)
      obtain rfl := Except.ok.inj (hcategory.symm.trans hl)
      have hmade : n ∈ (after (p ++ [.request "create_node" (type :: category :: more)])).graph.nodeList := by
        rw [hnext, Session.after, hgraph]
        simp
      have hoffers := (htyped _ hp n).1 (hall _ hp n hmade)
      rw [hnext] at hoffers
      unfold Offers at hoffers ⊢
      rwa [Session.after, hsame] at hoffers
  · refine (htyped p hp n).2 ?_
    induction p using List.reverseRecOn generalizing n with
    | nil => cases hn
    | append_singleton p c ih =>
      have hbefore : p <+: cs := (List.prefix_append p _).trans hp
      have hs : (after p).graph.IsSound := (edited_afterAll (hedits p hbefore)).isSound hstart
      rw [hnext] at hn ⊢
      exact offers_after hs (fun m hm => ih hbefore m hm) (hcs c (hp.subset (by simp))) (hmakes p c hp) n hn
  · have hlimits := Core.steps_withinLimits (edited_afterAll (hedits p hp) hstart) (start_withinLimits config hcatalog)
    obtain ⟨d, hd, _⟩ := hlimits.fits n hn
    obtain ⟨_, htype, hcategory⟩ := definition?_eq_some (hkeyed p hp) hd
    exact ⟨d, hd, htype, hcategory⟩

/-- A custom type with a node, which is cloned; it is removed when a node of a standard type has come. -/
def patrolRun : List Call :=
  [.request "add_custom_node_type" [.object [("type", .text "Patrol"), ("category", .text "action")]],
    .request "create_node" [.text "Patrol", .text "action", .float 0.0, .float 0.0],
    .request "clone_node" [.text "node_0"],
    .request "create_node" [.text "Sequence", .text "composite", .float 0.0, .float 0.0],
    .request "remove_custom_node_type" [.text "Patrol"]]

theorem patrolRun_matches_types :
    let after (p : List Call) : Session := (start { grid := { snap := false } } .standard).afterAll p
    (∀ c ∈ patrolRun, c.isEdit) ∧ (after (patrolRun.take 4)).graph.nodeList.map Node.type = ["Patrol", "Patrol", "Sequence"] ∧
      (∀ p, p <+: patrolRun → ∀ n ∈ (after p).graph.nodeList, (after p).IsTyped n) ∧ (after patrolRun).graph.ids = ["node_2"] := by
  intro after
  have hedits : ∀ c ∈ patrolRun, c.isEdit := by decide +kernel
  have hmatch := (nodes_match_types_iff { grid := { snap := false } } .standard patrolRun Catalog.standard_reachable hedits).1
  refine ⟨hedits, by decide +kernel, hmatch.2 fun p c hp => ?_, by decide +kernel⟩
  obtain ⟨i, hi, rfl, rfl⟩ := exists_of_concat_prefix hp
  match i, hi with
  | 0, _ => exact makesOffered_of_ne (by decide) _
  | 1, _ => exact makesOffered_of_offers (by decide +kernel)
  | 2, _ => exact makesOffered_of_ne (by decide) _
  | 3, _ => exact makesOffered_of_offers (by decide +kernel)
  | 4, _ => exact makesOffered_of_ne (by decide) _

/-- A custom action is made as a condition, though no condition of the name is known. -/
theorem custom_action_as_condition :
    let s := (start {} .standard).after
      (.request "add_custom_node_type" [.object [("type", .text "Patrol"), ("category", .text "action")]])
    let t := (s.createNode (.text "Patrol") (.text "condition") (.float 0.0) (.float 0.0) .null).2
    ¬ s.Offers "Patrol" "condition" ∧ (s.createNode (.text "Patrol") (.text "condition") (.float 0.0) (.float 0.0) .null).1.isOk ∧
      t.graph.nodeList.map Node.category = ["condition"] ∧ ¬ ∀ n ∈ t.graph.nodeList, t.IsTyped n := by
  decide +kernel

end BehaviorTree.Session
