import BehaviorTree.Proofs.Session.FreshIds

/-!
Custom node types. A type is added only with a name and a category, and only if neither the catalog nor another custom type has its
name. Nothing else brings one, but for documents: they are taken over with whatever types they list. So the names stay apart exactly
as long as those of every document do.
-/

set_option autoImplicit false

namespace BehaviorTree

/-- Could the types be custom types all at once? Each has a name and a category, and no name of the catalog or of another of them. -/
structure Catalog.Admits (c : Catalog) (ts : List NodeType) : Prop where
  complete : ∀ t ∈ ts, t.type ≠ "" ∧ t.category ≠ ""
  distinct : (ts.map NodeType.type).Nodup
  unregistered : ∀ t ∈ ts, c.isRegistered t.type = false

namespace Catalog

variable {c : Catalog} {ts us : List NodeType} {t : NodeType}

instance (c : Catalog) (ts : List NodeType) : Decidable (c.Admits ts) :=
  decidable_of_iff ((∀ t ∈ ts, t.type ≠ "" ∧ t.category ≠ "") ∧ (ts.map NodeType.type).Nodup ∧
      ∀ t ∈ ts, c.isRegistered t.type = false)
    ⟨fun ⟨hcomplete, hdistinct, hunregistered⟩ => ⟨hcomplete, hdistinct, hunregistered⟩, fun h => ⟨h.1, h.2, h.3⟩⟩

theorem admits_nil (c : Catalog) : c.Admits [] := ⟨nofun, List.nodup_nil, nofun⟩

theorem Admits.sublist (h : c.Admits ts) (hus : us.Sublist ts) : c.Admits us where
  complete t ht := h.complete t (hus.subset ht)
  distinct := h.distinct.sublist (hus.map _)
  unregistered t ht := h.unregistered t (hus.subset ht)

theorem Admits.snoc (h : c.Admits ts) (hcomplete : t.type ≠ "" ∧ t.category ≠ "") (hunregistered : c.isRegistered t.type = false)
    (hfresh : ∀ u ∈ ts, u.type ≠ t.type) : c.Admits (ts ++ [t]) where
  complete u hu := by
    rcases List.mem_append.1 hu with hu | hu
    · exact h.complete u hu
    · exact List.mem_singleton.1 hu ▸ hcomplete
  distinct := by
    have hnew : t.type ∉ ts.map NodeType.type := fun hmem => by
      obtain ⟨u, hu, he⟩ := List.mem_map.1 hmem
      exact hfresh u hu he
    rw [List.map_append]
    exact List.nodup_append_comm.2 (List.nodup_cons.2 ⟨hnew, h.distinct⟩)
  unregistered u hu := by
    rcases List.mem_append.1 hu with hu | hu
    · exact h.unregistered u hu
    · exact List.mem_singleton.1 hu ▸ hunregistered

end Catalog

theorem Core.Step.admits {c d : Core} (step : Step c d) (h : c.catalog.Admits c.customTypes) :
    d.catalog.Admits d.customTypes := by
  cases step with
  | edited => exact h
  | typeAdded t read named unregistered fresh => exact h.snoc named unregistered fresh
  | typeRemoved type unused => exact h.sublist List.eraseP_sublist
  | gridChanged => exact h

theorem Core.Step.catalog_eq {c d : Core} (step : Step c d) : d.catalog = c.catalog := by
  cases step <;> rfl

namespace Session

variable {s t : Session} {c : Call} {cs : List Call} {l : Loaded} {type : String}

/-- Does a call put the document in place of what there is? -/
def Takes (s : Session) (l : Loaded) : Call → Prop
  | .request _ _ => False
  | .loadSource source => (s.loadSource source).1 = .ok l
  | .loadFile files path => (s.loadFile files path).1 = .ok l
  | .apply m => m = l ∧ (s.apply m).1 = .ok ()

theorem loadFile_cases (s : Session) (files : Files) (path : Path) :
    (∃ f, s.loadFile files path = (.error f, s)) ∨ ∃ source, s.loadFile files path = s.loadSource source := by
  unfold loadFile
  split
  · exact .inl ⟨_, rfl⟩
  · exact .inr ⟨_, rfl⟩

theorem of_loadSource {source : Value} (h : (s.loadSource source).1 = .ok l) :
    Document.decode source = .ok l ∧ s.apply l = (.ok (), (s.loadSource source).2) := by
  rcases loadSource_cases s source with ⟨f, hload⟩ | ⟨m, t, hm, _, happly, hload⟩
  · rw [hload] at h
    cases h
  · rw [hload] at h ⊢
    obtain rfl := Except.ok.inj h
    exact ⟨hm, happly⟩

theorem Takes.apply_eq (h : s.Takes l c) : s.apply l = (.ok (), s.after c) := by
  cases c with
  | request name arguments => cases h
  | loadSource source => exact (of_loadSource h).2
  | loadFile files path =>
    have hloaded : (s.loadFile files path).1 = .ok l := h
    rw [after]
    rcases loadFile_cases s files path with ⟨f, hload⟩ | ⟨source, hload⟩
    · rw [hload] at hloaded
      cases hloaded
    · rw [hload] at hloaded ⊢
      exact (of_loadSource hloaded).2
  | apply m =>
    obtain ⟨rfl, hm⟩ := h
    exact Prod.ext hm rfl

theorem edited_loadSource {source : Value} (h : ∀ l, (s.loadSource source).1 ≠ .ok l) : Edited s (s.loadSource source).2 := by
  rcases loadSource_cases s source with ⟨f, hload⟩ | ⟨l, t, _, _, _, hload⟩
  · rw [hload]
    exact edited_refl s
  · exact absurd (congrArg Prod.fst hload) (h l)

theorem edited_of_not_takes (hc : c.IsOwn) (h : ∀ l, ¬ s.Takes l c) : Edited s (s.after c) := by
  cases c with
  | request name arguments => exact edited_request s arguments hc
  | loadSource source => exact edited_loadSource h
  | loadFile files path =>
    have hfailed : ∀ l, (s.loadFile files path).1 ≠ .ok l := h
    rw [after]
    rcases loadFile_cases s files path with ⟨f, hload⟩ | ⟨source, hload⟩
    · rw [hload]
      exact edited_refl s
    · rw [hload] at hfailed ⊢
      exact edited_loadSource hfailed
  | apply l =>
    rcases apply_cases s l with ⟨f, happly⟩ | ⟨_, t, _, happly, _⟩
    · rw [after, happly]
      exact edited_refl s
    · exact absurd ⟨rfl, congrArg Prod.fst happly⟩ (h l)

theorem customTypes_of_apply (h : s.apply l = (.ok (), t)) : t.customTypes = l.customTypes := by
  rcases apply_cases s l with ⟨f, hfailed⟩ | ⟨_, u, _, happlied, hcore⟩
  · rw [hfailed] at h
    cases h
  · rw [happlied] at h
    obtain ⟨_, rfl⟩ := Prod.mk.inj h
    exact congrArg Core.customTypes hcore

theorem Edited.catalog_eq (h : Edited s t) (hs : s.graph.IsSound) : t.catalog = s.catalog :=
  Core.kept_by_steps (P := fun c => c.catalog = s.catalog) (h hs) (fun _ _ step hc => step.catalog_eq.trans hc) rfl

theorem Edited.admits (h : Edited s t) (hs : s.graph.IsSound) (hadmits : s.catalog.Admits s.customTypes) :
    t.catalog.Admits t.customTypes :=
  Core.kept_by_steps (P := fun c => c.catalog.Admits c.customTypes) (h hs) (fun _ _ step hc => step.admits hc) hadmits

/-- After a call the types are still admitted, if those of the document are that it may have put in place. -/
theorem admits_after (hs : s.graph.IsSound) (hc : c.IsOwn) (hadmits : s.catalog.Admits s.customTypes)
    (htaken : ∀ l, s.Takes l c → s.catalog.Admits l.customTypes) : s.catalog.Admits (s.after c).customTypes := by
  by_cases htakes : ∃ l, s.Takes l c
  · obtain ⟨l, hl⟩ := htakes
    rw [customTypes_of_apply hl.apply_eq]
    exact htaken l hl
  · have hedited : Edited s (s.after c) := edited_of_not_takes hc (not_exists.1 htakes)
    rw [← hedited.catalog_eq hs]
    exact hedited.admits hs hadmits

theorem countP_eraseP {α : Type} {p : α → Bool} {as : List α} {a : α} (h : as.find? p = some a) :
    (as.eraseP p).countP p + 1 = as.countP p := by
  induction as with
  | nil => cases h
  | cons b r ih =>
    cases hb : p b with
    | true => rw [List.eraseP_cons_of_pos hb, List.countP_cons_of_pos hb]
    | false =>
      rw [List.find?_cons_of_neg (by simp [hb])] at h
      rw [List.eraseP_cons_of_neg (by simp [hb]), List.countP_cons_of_neg (by simp [hb]), List.countP_cons_of_neg (by simp [hb]), ih h]

theorem customTypes_deleteNodes (ids : List String) : (s.deleteNodes ids).2.customTypes = s.customTypes := by
  induction ids generalizing s with
  | nil => rfl
  | cons id r ih =>
    have hone : (s.deleteNode id).2.customTypes = s.customTypes := by
      unfold deleteNode
      dsimp only
      split_ifs <;> rfl
    exact ih.trans hone

theorem removeCustomType_eq_true (hs : s.graph.IsSound) (h : s.removeCustomType type = (true, t)) :
    (∀ n ∈ t.graph.nodeList, n.type ≠ type) ∧
      t.customTypes.countP (fun u => u.type = type) + 1 = s.customTypes.countP fun u => u.type = type := by
  unfold removeCustomType at h
  split at h
  · cases h
  · rename_i d hd
    obtain ⟨_, rfl⟩ := Prod.mk.inj h
    refine ⟨fun n hn htype => ?_, ?_⟩
    · obtain ⟨hmem, hid⟩ := mem_nodeList_deleteNodes hs hn
      exact hid (List.mem_map_of_mem (List.mem_filter.2 ⟨hmem, decide_eq_true htype⟩))
    · rw [emit]
      dsimp only
      rw [customTypes_deleteNodes]
      exact countP_eraseP hd

theorem catalog_apply (s : Session) (l : Loaded) : (s.apply l).2.catalog = s.catalog := by
  rcases apply_cases s l with ⟨f, happly⟩ | ⟨_, t, _, happly, hcore⟩
  · rw [happly]
  · rw [happly]
    exact congrArg Core.catalog hcore

theorem catalog_afterAll (hs : s.HasFreshIds) (h : ∀ c ∈ cs, c.IsOwn) : (s.afterAll cs).catalog = s.catalog := by
  refine (kept_by_own (P := fun t => t.HasFreshIds ∧ t.catalog = s.catalog) ?_ ?_ h ⟨hs, rfl⟩).2
  · rintro t u htu ⟨ht, hcatalog⟩
    exact ⟨htu.hasFreshIds ht, (htu.catalog_eq ht.sound).trans hcatalog⟩
  · rintro t source l hl ⟨ht, hcatalog⟩
    exact ⟨ht.applyDecoded hl, (catalog_apply t l).trans hcatalog⟩

theorem afterAll_concat (s : Session) (cs : List Call) (c : Call) : s.afterAll (cs ++ [c]) = (s.afterAll cs).after c :=
  List.foldl_concat ..

theorem exists_of_concat_prefix {p : List Call} {c : Call} (h : p ++ [c] <+: cs) :
    ∃ i, ∃ hi : i < cs.length, p = cs.take i ∧ c = cs[i] := by
  obtain ⟨r, rfl⟩ := h
  exact ⟨p.length, by simp, by simp, by simp⟩

theorem admits_afterAll (config : EditorConfig) (catalog : Catalog) (hcs : ∀ c ∈ cs, c.IsOwn)
    (htaken : ∀ p c l, p ++ [c] <+: cs → ((start config catalog).afterAll p).Takes l c → catalog.Admits l.customTypes) :
    catalog.Admits ((start config catalog).afterAll cs).customTypes := by
  induction cs using List.reverseRecOn with
  | nil => exact Catalog.admits_nil catalog
  | append_singleton r c ih =>
    have hr : ∀ d ∈ r, d.IsOwn := fun d hd => hcs d (List.mem_append_left _ hd)
    have hadmits := ih hr fun p d l hp => htaken p d l (hp.trans (List.prefix_append r [c]))
    have hs : ((start config catalog).afterAll r).HasFreshIds := (start_hasFreshIds config catalog).afterAll hr
    have hcatalog : ((start config catalog).afterAll r).catalog = catalog := catalog_afterAll (start_hasFreshIds config catalog) hr
    have hlast := admits_after hs.sound (hcs c (by simp)) (by rwa [hcatalog]) fun l hl => by
      rw [hcatalog]
      exact htaken r c l (List.prefix_refl _) hl
    rwa [hcatalog, ← afterAll_concat] at hlast

/-- The names of the custom types stay apart throughout a run exactly if they are so in every document that it takes over. Removing a
type leaves no node of it, and no definition if there was one of that name only. -/
theorem types_stay_apart_iff (config : EditorConfig) (catalog : Catalog) (cs : List Call) (h : ∀ c ∈ cs, c.IsOwn) :
    let s := (start config catalog).afterAll cs
    ((∀ p, p <+: cs → catalog.Admits ((start config catalog).afterAll p).customTypes) ↔
        ∀ p c l, p ++ [c] <+: cs → ((start config catalog).afterAll p).Takes l c → catalog.Admits l.customTypes) ∧
      ∀ type t, s.removeCustomType type = (true, t) →
        (∀ n ∈ t.graph.nodeList, n.type ≠ type) ∧
          ((∀ u ∈ t.customTypes, u.type ≠ type) ↔ s.customTypes.countP (fun u => u.type = type) = 1) := by
  intro s
  refine ⟨⟨fun hall p c l hp hl => ?_, fun htaken p hp => ?_⟩, fun type t hremoved => ?_⟩
  · have hafter := hall (p ++ [c]) hp
    rwa [afterAll_concat, customTypes_of_apply hl.apply_eq] at hafter
  · exact admits_afterAll config catalog (fun c hc => h c (hp.subset hc)) fun q c l hq => htaken q c l (hq.trans hp)
  · have hs : s.HasFreshIds := (start_hasFreshIds config catalog).afterAll h
    obtain ⟨hnodes, hcount⟩ := removeCustomType_eq_true hs.sound hremoved
    refine ⟨hnodes, ?_⟩
    have hgone : (∀ u ∈ t.customTypes, u.type ≠ type) ↔ t.customTypes.countP (fun u => u.type = type) = 0 := by
      simp [List.countP_eq_zero]
    rw [hgone, ← hcount]
    omega

def typedDocument (names : List String) : Value :=
  .object [("nodes", .list [plainNode "a" "AlwaysSuccess" "action"]), ("connections", .list []),
    ("customNodeTypes", .list (names.map fun name => .object [("type", .text name), ("category", .text "action")]))]

/-- A type comes with a document and another is added and gets a node; the first one is not added again. -/
def typingRun : List Call :=
  [.loadSource (typedDocument ["Patrol"]),
    .request "add_custom_node_type" [.object [("type", .text "Guard"), ("category", .text "decorator")]],
    .request "add_custom_node_type" [.object [("type", .text "Patrol"), ("category", .text "condition")]],
    .request "create_node" [.text "Guard", .text "decorator", .float 0.0, .float 0.0]]

theorem typingRun_keeps_types_apart :
    let s := (start { grid := { snap := false } } .standard).afterAll typingRun
    (∀ c ∈ typingRun, c.IsOwn) ∧ s.customTypes.map NodeType.type = ["Patrol", "Guard"] ∧ s.graph.ids = ["a", "node_0"] ∧
      (∀ p, p <+: typingRun → Catalog.standard.Admits ((start { grid := { snap := false } } .standard).afterAll p).customTypes) ∧
        ∃ t, s.removeCustomType "Guard" = (true, t) ∧ (∀ n ∈ t.graph.nodeList, n.type ≠ "Guard") ∧
          ∀ u ∈ t.customTypes, u.type ≠ "Guard" := by
  intro s
  have hown : ∀ c ∈ typingRun, c.IsOwn := by
    simp only [typingRun, List.forall_mem_cons, Call.IsOwn, List.not_mem_nil, false_implies, implies_true, and_true, true_and]
    decide +kernel
  obtain ⟨hall, hremoved⟩ := types_stay_apart_iff { grid := { snap := false } } .standard typingRun hown
  refine ⟨hown, by decide +kernel, by decide +kernel, hall.2 fun p c l hp hl => ?_, ?_⟩
  · have hdocument : ∀ l ∈ (Document.decode (typedDocument ["Patrol"])).toOption, Catalog.standard.Admits l.customTypes := by
      decide +kernel
    have hc : c ∈ typingRun := hp.subset (by simp)
    rcases List.mem_cons.1 hc with rfl | hc
    · exact hdocument l (by rw [(of_loadSource hl).1]; rfl)
    · simp only [List.mem_cons, List.not_mem_nil, or_false] at hc
      rcases hc with rfl | rfl | rfl <;> cases hl
  · obtain ⟨hnodes, hgone⟩ := hremoved "Guard" (s.removeCustomType "Guard").2 (Prod.ext (by decide +kernel) rfl)
    exact ⟨_, Prod.ext (by decide +kernel) rfl, hnodes, hgone.2 (by decide +kernel)⟩

/-- The document lists a name twice, so that one of the two definitions stays when the type is removed. -/
theorem twice_listed_stays :
    let s := (start {} .standard).after (.loadSource (typedDocument ["Twice", "Twice"]))
    ¬ Catalog.standard.Admits s.customTypes ∧ (s.removeCustomType "Twice").1 = true ∧
      (s.removeCustomType "Twice").2.customTypes.map NodeType.type = ["Twice"] := by
  decide +kernel

end Session

end BehaviorTree
