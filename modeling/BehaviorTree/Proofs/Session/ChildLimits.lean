import BehaviorTree.Proofs.Catalog.Reachable
import BehaviorTree.Proofs.Session.Run

/-!
Limits on children. Every node of a session has a definition, and never more children than its definition allows. The rules ask for
the limit only where both definitions are known, so what has to be kept up is that none ever becomes unknown.
-/

set_option autoImplicit false

namespace BehaviorTree

variable {lookup : String → String → Option NodeType} {k l : Content} {n : Node} {cs ds : List Connection} {id : String}

def NodeType.Allows (t : NodeType) (cs : List Connection) (id : String) : Prop :=
  ∀ limit, t.maxChildren = some limit → ((outgoing cs id).length : Int) ≤ limit

theorem NodeType.Allows.mono {t : NodeType} (h : t.Allows cs id) (hle : (outgoing ds id).length ≤ (outgoing cs id).length) :
    t.Allows ds id := by
  intro limit hlimit
  have hcs := h limit hlimit
  omega

theorem NodeType.LimitNonneg.allows {t : NodeType} (h : t.LimitNonneg) (hnone : outgoing cs id = []) : t.Allows cs id := by
  intro limit hlimit
  simpa [hnone] using h limit hlimit

theorem outgoing_length_le (h : ds.Sublist cs) : (outgoing ds id).length ≤ (outgoing cs id).length := (h.filter _).length_le

def Node.Fits (lookup : String → String → Option NodeType) (cs : List Connection) (n : Node) : Prop :=
  ∃ d, lookup n.type n.category = some d ∧ d.Allows cs n.id

theorem Node.Fits.mono (h : n.Fits lookup cs) (hle : (outgoing ds n.id).length ≤ (outgoing cs n.id).length) : n.Fits lookup ds := by
  obtain ⟨d, hd, ha⟩ := h
  exact ⟨d, hd, ha.mono hle⟩

theorem Node.fits_of_unconnected (hl : ∀ type category d, lookup type category = some d → d.LimitNonneg)
    (hd : (lookup n.type n.category).isSome) (hnone : outgoing cs n.id = []) : n.Fits lookup cs := by
  obtain ⟨d, hd⟩ := Option.isSome_iff_exists.1 hd
  exact ⟨d, hd, (hl _ _ d hd).allows hnone⟩

theorem Graph.IsSound.outgoing_of_notMem {g : Graph} (h : g.IsSound) (hid : id ∉ g.ids) : outgoing g.connectionList id = [] := by
  rw [outgoing, List.filter_eq_nil_iff]
  intro c hc hs
  have hsource : c.source = id := of_decide_eq_true hs
  exact hid (hsource ▸ (h.ends c hc).1)

namespace Content

def Fits (lookup : String → String → Option NodeType) (k : Content) : Prop :=
  ∀ n ∈ k.graph.nodeList, n.Fits lookup k.graph.connectionList

theorem fits_connected {source target id : String} (hs : k.graph.IsSound) (h : k.Fits lookup)
    (accepted : EdgeRules.check k.graph.nodeList k.graph.connectionList lookup source target = .ok ())
    (hn : n ∈ k.graph.nodeList) : n.Fits lookup (k.graph.connectionList ++ [⟨id, source, target⟩]) := by
  obtain ⟨_, htarget, _, _, hroom, _⟩ := (EdgeRules.check_eq_ok hs.ids_nodup).1 accepted
  obtain ⟨t, ht, htid⟩ := List.mem_map.1 htarget
  obtain ⟨d, hd, hallows⟩ := h n hn
  obtain ⟨e, he, _⟩ := h t ht
  refine ⟨d, hd, fun limit hlimit => ?_⟩
  have hnow := hallows limit hlimit
  by_cases hsource : source = n.id
  · have hlast := hroom n hn t ht hsource.symm htid d e hd he limit hlimit
    rw [hsource] at hlast
    simpa [outgoing, List.filter_append, hsource] using hlast
  · simpa [outgoing, List.filter_append, hsource] using hnow

theorem fits_copied {copy : String → Option String} (hs : k.graph.IsSound) (h : k.Fits lookup)
    (copying : IsCopying k.graph.connectionList copy) (twins : ∀ a x, copy a = some x → Twins k.graph a x)
    (copies : CopiedFrom copy k.graph.connectionList ds) (hn : n ∈ k.graph.nodeList) :
    n.Fits lookup (k.graph.connectionList ++ ds) := by
  by_cases hcopy : ∃ a, copy a = some n.id
  · obtain ⟨a, ha⟩ := hcopy
    obtain ⟨o, ho, m, hm, rfl, hid, htype, hcategory⟩ := twins a n.id ha
    obtain rfl := List.inj_on_of_nodup_map hs.ids_nodup hm hn hid
    obtain ⟨d, hd, hallows⟩ := h o ho
    refine ⟨d, htype ▸ hcategory ▸ hd, fun limit hlimit => ?_⟩
    have horiginal := hallows limit hlimit
    have hle := copying.outgoing_copy_le copies ha
    omega
  · have hsame := copies.outgoing_append (not_exists.1 hcopy)
    exact (h n hn).mono (Nat.le_of_eq (congrArg List.length hsame))

theorem Step.fits (step : Step lookup k l) (hl : ∀ type category d, lookup type category = some d → d.LimitNonneg)
    (hs : k.graph.IsSound) (h : k.Fits lookup) : l.Fits lookup := by
  cases step with
  | nodeIssued => exact h
  | connectionIssued => exact h
  | nodeAdded m issued fresh typed =>
    intro n hn
    rw [Graph.nodeList_addNode, List.mem_append, List.mem_singleton] at hn
    rcases hn with hn | rfl
    · exact h n hn
    · have hnone := hs.outgoing_of_notMem (hs.ids_eq_keys ▸ fresh)
      refine Node.fits_of_unconnected hl ?_ hnone
      rcases typed with hsome | ⟨m, hm, htype, hcategory⟩
      · exact hsome
      -- a clone has the definition that its original has
      · obtain ⟨d, hd, _⟩ := h m hm
        rw [← htype, ← hcategory, hd]
        rfl
  | nodesChanged nodes alike =>
    intro n hn
    have hkind : n.kind ∈ (Table.values k.graph.nodes).map Node.kind := kinds_of_alike alike ▸ List.mem_map_of_mem hn
    obtain ⟨m, hm, hmn⟩ := List.mem_map.1 hkind
    obtain ⟨hid, htype, hcategory⟩ := Node.Kind.mk.inj hmn
    obtain ⟨d, hd, hallows⟩ := h m hm
    exact ⟨d, htype ▸ hcategory ▸ hd, hid ▸ hallows⟩
  | nodeRemoved id =>
    intro n hn
    rw [Graph.nodeList_without hs] at hn
    refine (h n (List.mem_filter.1 hn).1).mono (outgoing_length_le ?_)
    rw [Graph.connectionList_without]
    exact List.filter_sublist
  | connectionRemoved id =>
    intro n hn
    exact (h n hn).mono (outgoing_length_le Graph.connectionList_withoutConnection)
  | connected source target fresh accepted =>
    intro n hn
    rw [Graph.connectionList_addConnections]
    exact fits_connected hs h accepted hn
  | copied copy ds ids copying twins copies issued distinct fresh =>
    intro n hn
    rw [Graph.connectionList_addConnections]
    exact fits_copied hs h copying twins copies hn
  | cleared =>
    intro n hn
    cases hn

end Content

namespace Core

structure WithinLimits (c : Core) : Prop where
  sound : c.content.graph.IsSound
  catalog : c.catalog.Only NodeType.LimitNonneg
  custom : ∀ t ∈ c.customTypes, t.LimitNonneg
  fits : c.content.Fits c.lookup

variable {c d : Core} {type category : String} {t : NodeType}

theorem lookup_nonneg (h : c.WithinLimits) (ht : c.lookup type category = some t) : t.LimitNonneg := by
  unfold lookup Catalog.find? at ht
  split at ht
  · rename_i e he
    obtain rfl := Option.some.inj ht
    exact h.catalog e (List.mem_of_find?_eq_some he)
  · exact h.custom t (List.mem_of_find?_eq_some ht)

theorem lookup_typeAdded {u : NodeType} (h : c.lookup type category = some t) :
    Core.lookup { c with customTypes := c.customTypes ++ [u] } type category = some t := by
  unfold lookup Catalog.find? at h ⊢
  dsimp only
  split at h
  · exact h
  · rw [List.find?_append, h, Option.some_or]

theorem find?_eraseP_of_ne {ts : List NodeType} {gone : String} (hne : type ≠ gone) :
    (ts.eraseP fun t => t.type = gone).find? (fun t => t.type = type) = ts.find? fun t => t.type = type := by
  induction ts with
  | nil => rfl
  | cons t r ih =>
    by_cases hgone : t.type = gone
    · have hother : t.type ≠ type := fun he => hne (he.symm.trans hgone)
      simp [hgone, hne.symm]
    · rw [List.eraseP_cons_of_neg (by simpa using hgone)]
      simp only [List.find?_cons, ih]

theorem lookup_typeRemoved {gone : String} (hne : type ≠ gone) :
    Core.lookup { c with customTypes := c.customTypes.eraseP fun t => t.type = gone } type category = c.lookup type category := by
  unfold lookup Catalog.find?
  dsimp only
  split
  · rfl
  · exact find?_eraseP_of_ne hne

theorem Step.withinLimits (step : Step c d) (h : c.WithinLimits) : d.WithinLimits := by
  have hsound := step.isSound h.sound
  cases step with
  | edited k step => exact { h with sound := hsound, fits := step.fits (fun _ _ _ ht => lookup_nonneg h ht) h.sound h.fits }
  | typeAdded t read named unregistered fresh =>
    refine { h with custom := fun u hu => ?_, fits := fun n hn => ?_ }
    · rcases List.mem_append.1 hu with hu | hu
      · exact h.custom u hu
      · obtain ⟨v, w, hw, rfl⟩ := read
        have hlimit : w.LimitNonneg := NodeType.ofValue_limit_nonneg hw
        rw [List.mem_singleton.1 hu]
        exact hlimit
    · obtain ⟨e, he, hallows⟩ := h.fits n hn
      exact ⟨e, lookup_typeAdded he, hallows⟩
  | typeRemoved type unused =>
    refine { h with custom := fun u hu => h.custom u (List.mem_of_mem_eraseP hu), fits := fun n hn => ?_ }
    obtain ⟨e, he, hallows⟩ := h.fits n hn
    exact ⟨e, (lookup_typeRemoved (unused n hn)).trans he, hallows⟩
  | gridChanged => exact { h with }

theorem steps_withinLimits (h : Relation.ReflTransGen Step c d) (hc : c.WithinLimits) : d.WithinLimits :=
  kept_by_steps (P := WithinLimits) h (fun _ _ h => h.withinLimits) hc

end Core

namespace Session

theorem start_withinLimits (config : EditorConfig) {catalog : Catalog} (h : catalog.Reachable) :
    (start config catalog).core.WithinLimits where
  sound := (start_isForest config catalog).toIsSound
  catalog := h.limits_nonneg
  custom _ ht := absurd ht List.not_mem_nil
  fits _ hn := absurd hn List.not_mem_nil

/-- In every state that a fresh session reaches by editing, with whatever plugins and entry points the catalog was filled, every
node has a definition, and where that limits the children, the node is the source of no more connections. -/
theorem edits_keep_child_limits (config : EditorConfig) (catalog : Catalog) (cs : List Call) (hcatalog : catalog.Reachable)
    (hcs : ∀ c ∈ cs, c.isEdit) :
    let s := (start config catalog).afterAll cs
    ∀ n ∈ s.graph.nodeList, ∃ d, s.definition? n.type n.category = some d ∧
      ∀ limit, d.maxChildren = some limit → ((outgoing s.graph.connectionList n.id).length : Int) ≤ limit := by
  have hsound := (start_isForest config catalog).toIsSound
  exact (Core.steps_withinLimits (edited_afterAll hcs hsound) (start_withinLimits config hcatalog)).fits

/-- An inverter with a leaf, cloned together; there are two more leaves, one for each inverter. -/
def inverterRun : List Call :=
  [.request "create_node" [.text "Inverter", .text "decorator", .float 0.0, .float 0.0],
    .request "create_node" [.text "AlwaysSuccess", .text "action", .float 0.0, .float 0.0],
    .request "create_node" [.text "AlwaysFailure", .text "action", .float 0.0, .float 0.0],
    .request "create_connection" [.text "node_0", .text "node_1"],
    .request "create_connection" [.text "node_0", .text "node_2"],
    .request "clone_nodes" [.list [.text "node_0", .text "node_1", .text "node_2"]],
    .request "create_connection" [.text "node_3", .text "node_5"]]

/-- Neither the inverter nor its clone gets a second child. -/
theorem inverterRun_keeps_limits :
    let s := (start { grid := { snap := false } } .standard).afterAll inverterRun
    Catalog.standard.Reachable ∧ (∀ c ∈ inverterRun, c.isEdit) ∧
      s.graph.connectionList = [⟨"conn_0", "node_0", "node_1"⟩, ⟨"conn_1", "node_3", "node_4"⟩] ∧
      ∀ n ∈ s.graph.nodeList, ∃ d, s.definition? n.type n.category = some d ∧
        ∀ limit, d.maxChildren = some limit → ((outgoing s.graph.connectionList n.id).length : Int) ≤ limit := by
  intro s
  have hedits : ∀ c ∈ inverterRun, c.isEdit := by decide +kernel
  have hlimits := edits_keep_child_limits { grid := { snap := false } } .standard inverterRun Catalog.standard_reachable hedits
  exact ⟨Catalog.standard_reachable, hedits, by decide +kernel, hlimits⟩

end Session

end BehaviorTree
