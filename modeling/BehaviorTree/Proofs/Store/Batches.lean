import BehaviorTree.Proofs.Distinct
import BehaviorTree.Proofs.Store.Integrity
import BehaviorTree.Proofs.Store.Moves

/-!
Batches of updates. A batch merges its updates aside and writes all of them at once. It fails with the same fault as the updates for
known nodes when they are made one after the other, and otherwise it leaves the nodes as these would leave them and tells of it once. There
are two differences: single updates hand out copies, which can fail, and a batch fails at an id with which nothing can be looked up.
-/

set_option autoImplicit false

namespace BehaviorTree

namespace Table

variable {α : Type} {t u : Table α} {a : α} {j k : String}

theorem lookup_erase_of_ne (h : j ≠ k) : lookup (erase t k) j = lookup t j := by
  induction t with
  | nil => rfl
  | cons r t ih =>
    obtain ⟨i, b⟩ := r
    rw [erase]
    split_ifs with hi
    · rw [lookup, if_neg fun hij => h (hij.symm.trans hi)]
    · rw [lookup, lookup, ih]

theorem all_erase {p : String × α → Bool} (h : lookup t k = some a) (hp : p (k, a) = true) : (erase t k).all p = t.all p := by
  induction t with
  | nil => rfl
  | cons r t ih =>
    obtain ⟨i, b⟩ := r
    rw [lookup] at h
    rw [erase]
    split_ifs at h ⊢ with hi
    · obtain rfl := Option.some.inj h
      rw [List.all_cons, hi, hp, Bool.true_and]
    · rw [List.all_cons, List.all_cons, ih h]

theorem overlay_erase (hu : lookup u k = some a) (ht : lookup t k = some a) : overlay t (erase u k) = overlay t u := by
  induction u generalizing t with
  | nil => rfl
  | cons r u ih =>
    obtain ⟨i, b⟩ := r
    rw [lookup] at hu
    rw [erase]
    split_ifs at hu ⊢ with hi
    · obtain rfl := Option.some.inj hu
      rw [overlay, overlay, List.foldl_cons, hi, insert_same ht]
    · rw [overlay, overlay, List.foldl_cons, List.foldl_cons, ← overlay, ← overlay]
      exact ih hu (by rw [lookup_insert, if_neg hi, ht])

theorem IsKeyed.insert {id : α → String} (h : IsKeyed id t) (ha : id a = k) : IsKeyed id (insert t k a) where
  nodup := nodup_keys_insert h.nodup
  own r hr := by
    rcases mem_of_mem_insert hr with hr | rfl
    · exact h.own r hr
    · exact ha

theorem keys_insert_subset {ks : List String} (h : keys t ⊆ ks) (hk : k ∈ ks) : keys (insert t k a) ⊆ ks := by
  rw [keys_insert]
  split_ifs
  · exact h
  · exact List.append_subset.2 ⟨h, List.cons_subset.2 ⟨hk, List.nil_subset _⟩⟩

theorem overlay_insert (ht : (keys t).Nodup) (hu : (keys u).Nodup) (hsub : keys u ⊆ keys t) (hk : k ∈ keys t) :
    overlay t (insert u k a) = insert (overlay t u) k a := by
  have hkeys : keys (overlay t (insert u k a)) = keys t := keys_overlay_of_subset (keys_insert_subset hsub hk)
  have hsame : keys (insert (overlay t u) k a) = keys t := by
    rw [keys_insert, keys_overlay_of_subset hsub, if_pos hk]
  refine ext_lookup (hkeys.trans hsame.symm) (hkeys ▸ ht) fun j => ?_
  rw [lookup_overlay (nodup_keys_insert hu), lookup_insert, lookup_insert, lookup_overlay hu]
  split_ifs
  · rfl
  · rfl

end Table

theorem Merge.node_erase_id {n : Node} {u : Table Value} (h : Value.member u "id" = .text n.id) :
    node n (Table.erase u "id") = node n u := by
  have hid : Table.lookup u "id" = some (.text n.id) := by
    unfold Value.member at h
    cases hl : Table.lookup u "id" with
    | none => rw [hl] at h; cases h
    | some v => rw [hl] at h; exact congrArg some h
  have hkeepsId : keeps (Table.erase u "id") "id" n.id = keeps u "id" n.id :=
    Table.all_erase hid (by simp [Value.text?])
  have hkeepsCategory : keeps (Table.erase u "id") "category" n.category = keeps u "category" n.category :=
    Table.all_erase hid (by simp)
  have hproperties : properties n (Table.erase u "id") = properties n u := by
    rw [properties, properties, Table.lookup_erase_of_ne (by decide)]
  have hmembers : Table.overlay n.toMembers (Table.erase u "id") = Table.overlay n.toMembers u := Table.overlay_erase hid rfl
  rw [node, node, hkeepsId, hkeepsCategory, hproperties, hmembers]

/-- The node that an update is for, if the graph has it. -/
def Graph.known? (g : Graph) (u : Table Value) : Option String := (Value.member u "id").text?.filter g.hasNode

namespace Store

variable {s v : Store} {g : Graph} {staged result : Table Node} {us : List (Table Value)} {u : Table Value} {id : String} {n m : Node}

/-- What an update says about its node, with the id that it is for or without it. -/
def fieldsOf (whole : Bool) (u : Table Value) : Table Value := if whole then u else Table.erase u "id"

/-- Makes the updates for known nodes one after the other, each by itself. The first that fails ends it. -/
def updateEach (s : Store) (whole : Bool) : List (Table Value) → Outcome Unit
  | [] => (.ok (), s)
  | u :: r =>
    match s.graph.known? u with
    | none => updateEach s whole r
    | some id =>
      match s.updateNode id (fieldsOf whole u) with
      | (.ok _, t) => updateEach t whole r
      | (.error f, t) => (.error f, t)

/-- What the single updates hand out, as far as they come. -/
def handedOutEach (s : Store) (whole : Bool) : List (Table Value) → List Node
  | [] => []
  | u :: r =>
    match s.graph.known? u with
    | none => handedOutEach s whole r
    | some id =>
      match s.updateNode id (fieldsOf whole u) with
      | (.ok n, t) => n :: handedOutEach t whole r
      | (.error _, _) => []

def copyingAll (s : Store) : Store := { s with isCopyable := fun _ => true }

/-- Can something be looked up with the id that an update names, or with none? -/
def IsUsable (u : Table Value) : Prop := (Value.member u "id").key ≠ .unusable

theorem updateNode_copyingAll (s : Store) (id : String) (updates : Table Value) :
    (∃ f, s.updateNode id updates = (.error f, s) ∧ s.copyingAll.updateNode id updates = (.error f, s.copyingAll)) ∨
      ∃ n t, s.updateNode id updates = (s.handedOut n, t) ∧ s.copyingAll.updateNode id updates = (.ok n, t.copyingAll) ∧
        t.isCopyable = s.isCopyable := by
  have hnode : s.copyingAll.graph.node? id = s.graph.node? id := rfl
  unfold updateNode
  rw [hnode]
  cases s.graph.node? id with
  | none => exact .inl ⟨_, rfl, rfl⟩
  | some n =>
    dsimp only
    cases Merge.node n updates with
    | error e => exact .inl ⟨_, rfl, rfl⟩
    | ok m => exact .inr ⟨m, _, rfl, rfl, rfl⟩

/-- Single updates succeed if and only if they would succeed without the copies, and all that they hand out can be copied. They lead to the
same store then. -/
theorem updateEach_copyingAll (s : Store) (whole : Bool) (us : List (Table Value)) :
    ((s.updateEach whole us).1 = .ok () ↔
      (s.copyingAll.updateEach whole us).1 = .ok () ∧ ∀ n ∈ s.copyingAll.handedOutEach whole us, s.isCopyable n = true) ∧
      ((s.updateEach whole us).1 = .ok () → (s.updateEach whole us).2.copyingAll = (s.copyingAll.updateEach whole us).2) := by
  induction us generalizing s with
  | nil => exact ⟨⟨fun _ => ⟨rfl, fun _ hn => absurd hn List.not_mem_nil⟩, fun _ => rfl⟩, fun _ => rfl⟩
  | cons u r ih =>
    have hknown : s.copyingAll.graph.known? u = s.graph.known? u := rfl
    rw [updateEach, updateEach, handedOutEach, hknown]
    cases s.graph.known? u with
    | none => exact ih s
    | some id =>
      dsimp only
      rcases updateNode_copyingAll s id (fieldsOf whole u) with ⟨f, hs, hall⟩ | ⟨n, t, hs, hall, hsame⟩
      · rw [hs, hall]
        refine ⟨⟨fun h => ?_, fun h => ?_⟩, fun h => ?_⟩
        · cases h
        · cases h.1
        · cases h
      · rw [hs, hall, handedOut]
        split_ifs with hcopy
        · dsimp only
          rw [List.forall_mem_cons]
          have hrest := ih t
          rw [hsame] at hrest
          exact ⟨hrest.1.trans (and_congr_right fun _ => (and_iff_right hcopy).symm), hrest.2⟩
        · dsimp only
          rw [List.forall_mem_cons]
          refine ⟨⟨fun h => ?_, fun h => absurd h.2.1 hcopy⟩, fun h => ?_⟩ <;> cases h

theorem merge_fieldsOf (whole : Bool) (h : Value.member u "id" = .text n.id) :
    Merge.node n (fieldsOf whole u) = Merge.node n (Table.erase u "id") := by
  rw [fieldsOf]
  split_ifs
  · exact (Merge.node_erase_id h).symm
  · rfl

structure Carries (s : Store) (staged : Table Node) (v : Store) : Prop where
  nodes : v.graph.nodes = Table.overlay s.graph.nodes staged
  kept : Table.IsKeyed Node.id v.graph.nodes
  known : Table.keys staged ⊆ Table.keys s.graph.nodes
  distinct : (Table.keys staged).Nodup

theorem carries_nothing (h : Table.IsKeyed Node.id s.graph.nodes) : s.Carries [] s :=
  ⟨rfl, h, List.nil_subset _, List.nodup_nil⟩

theorem Carries.keys (h : s.Carries staged v) : Table.keys v.graph.nodes = Table.keys s.graph.nodes := by
  rw [h.nodes, Table.keys_overlay_of_subset h.known]

theorem Carries.node? (h : s.Carries staged v) (id : String) : v.graph.node? id = base? s.graph staged id := by
  rw [Graph.node?, h.nodes, Table.lookup_overlay h.distinct, base?, Graph.node?]

theorem Carries.write (h : s.Carries staged v) (hid : id ∈ Table.keys s.graph.nodes) (hm : m.id = id) (c : Change) :
    s.Carries (Table.insert staged id m) ((v.withNodes (Table.insert v.graph.nodes id m)).emit c) where
  nodes := by
    have hn : (Table.keys s.graph.nodes).Nodup := h.keys ▸ h.kept.nodup
    rw [Table.overlay_insert hn h.distinct h.known hid, ← h.nodes]
    rfl
  kept := h.kept.insert hm
  known := Table.keys_insert_subset h.known hid
  distinct := Table.nodup_keys_insert h.distinct

theorem isUsable_iff : IsUsable u ↔ (Value.member u "id").scalar?.isSome := by
  rw [IsUsable]
  cases Value.member u "id" <;> simp [Value.key, Value.scalar?]

theorem known?_of_text (h : Value.member u "id" = .text id) : g.known? u = if g.hasNode id then some id else none := by
  rw [Graph.known?, h]
  rfl

theorem known?_of_not_text (h : ∀ id, Value.member u "id" ≠ .text id) : g.known? u = none := by
  unfold Graph.known? Value.text?
  split
  · exact absurd ‹_› (h _)
  · rfl

theorem stage_of_text (h : Value.member u "id" = .text id) : stage g staged (u :: us) =
    match base? g staged id with
    | none => stage g staged us
    | some n =>
      match Merge.node n (Table.erase u "id") with
      | .error e => .error (.merge e)
      | .ok n => stage g (Table.insert staged id n) us := by
  rw [stage]
  split
  · rename_i other hother
    obtain rfl := Value.text.inj (hother.symm.trans h)
    rfl
  · rename_i hnone
    exact absurd h (hnone id)

theorem stage_of_not_text (h : ∀ id, Value.member u "id" ≠ .text id) : stage g staged (u :: us) =
    if (Value.member u "id").scalar?.isSome then stage g staged us else .error .unusableId := by
  rw [stage]
  split
  · exact absurd ‹_› (h _)
  · rfl

theorem Carries.node?_eq (h : s.Carries staged v) (hn : base? s.graph staged id = some n) :
    v.graph.node? id = some n ∧ n.id = id ∧ id ∈ Table.keys s.graph.nodes := by
  have hnode : v.graph.node? id = some n := (h.node? id).trans hn
  have hmem : (id, n) ∈ v.graph.nodes := Table.mem_of_lookup hnode
  exact ⟨hnode, h.kept.own _ hmem, h.keys ▸ List.mem_map_of_mem hmem⟩

/-- One single update is one step of staging. -/
theorem Carries.updateNode (h : s.Carries staged v) (hcopyable : ∀ n, v.isCopyable n = true)
    (hn : base? s.graph staged id = some n) (updates : Table Value) :
    (∃ e, Merge.node n updates = .error e ∧ v.updateNode id updates = (.error (.merge e), v)) ∨
      ∃ m t, Merge.node n updates = .ok m ∧ v.updateNode id updates = (.ok m, t) ∧ s.Carries (Table.insert staged id m) t ∧
        t.isCopyable = v.isCopyable := by
  obtain ⟨hnode, hown, hmem⟩ := h.node?_eq hn
  unfold Store.updateNode
  rw [hnode]
  dsimp only
  cases hm : Merge.node n updates with
  | error e => exact .inl ⟨e, rfl, rfl⟩
  | ok m =>
    have hhanded : v.handedOut m = .ok m := if_pos (hcopyable m)
    dsimp only
    rw [hhanded]
    exact .inr ⟨m, _, rfl, rfl, h.write hmem ((Merge.node_id hm).trans hown) _, rfl⟩

/-- Where everything can be copied, staging goes as far as the single updates do, and ends as they end; but all ids have to be usable. -/
theorem Carries.updateEach (h : s.Carries staged v) (hcopyable : ∀ n, v.isCopyable n = true) (whole : Bool) (us : List (Table Value)) :
    ((∀ u ∈ us, IsUsable u) → (v.updateEach whole us).1 = (stage s.graph staged us).map fun _ => ()) ∧
      ∀ result, stage s.graph staged us = .ok result → (∀ u ∈ us, IsUsable u) ∧ s.Carries result (v.updateEach whole us).2 := by
  -- on the updates, while what is staged and the store in which they are made grow together
  induction us generalizing staged v with
  | nil => exact ⟨fun _ => rfl, fun result hr => ⟨fun _ hu => absurd hu List.not_mem_nil, Except.ok.inj hr ▸ h⟩⟩
  | cons u r ih =>
    rw [List.forall_mem_cons, isUsable_iff, Store.updateEach]
    by_cases htext : ∃ id, Value.member u "id" = .text id
    · obtain ⟨id, hid⟩ := htext
      have husable : (Value.member u "id").scalar?.isSome := by rw [hid]; rfl
      rw [and_iff_right husable, known?_of_text hid, stage_of_text hid]
      cases hn : base? s.graph staged id with
      | none =>
        have hunknown : ¬ v.graph.hasNode id := by
          rw [Graph.hasNode, Table.holds, ← Graph.node?, h.node?, hn]
          exact Bool.false_ne_true
        rw [if_neg hunknown]
        exact ih h hcopyable
      | some n =>
        obtain ⟨hnode, hown, _⟩ := h.node?_eq hn
        have hknown : v.graph.hasNode id = true := by
          rw [Graph.hasNode, Table.holds, ← Graph.node?, hnode]
          rfl
        have hmerge : Merge.node n (fieldsOf whole u) = Merge.node n (Table.erase u "id") := merge_fieldsOf whole (hown ▸ hid)
        rw [if_pos hknown]
        dsimp only
        rw [← hmerge]
        rcases h.updateNode hcopyable hn (fieldsOf whole u) with ⟨e, hm, hv⟩ | ⟨m, t, hm, hv, ht, hsame⟩
        · rw [hm, hv]
          exact ⟨fun _ => rfl, fun _ hr => by cases hr⟩
        · rw [hm, hv]
          exact ih ht (hsame ▸ hcopyable)
    · have hid : ∀ id, Value.member u "id" ≠ .text id := fun id hid => htext ⟨id, hid⟩
      rw [known?_of_not_text hid, stage_of_not_text hid]
      split_ifs with husable
      · rw [and_iff_right husable]
        exact ih h hcopyable
      · exact ⟨fun hall => absurd hall.1 husable, fun _ hr => by cases hr⟩

theorem isSome_base? (h : Table.keys staged ⊆ Table.keys g.nodes) : (base? g staged id).isSome = g.hasNode id := by
  rw [base?, Option.isSome_or, Bool.eq_iff_iff, Bool.or_eq_true, Graph.hasNode, Table.holds_iff, Table.lookup_isSome, Graph.node?,
    Table.lookup_isSome]
  exact or_iff_right_of_imp fun hid => h hid

theorem keys_stage {ids : List String} (h : Table.keys staged = ids.eraseDups) (hsub : Table.keys staged ⊆ Table.keys g.nodes)
    (hr : stage g staged us = .ok result) : Table.keys result = (ids ++ us.filterMap g.known?).eraseDups := by
  induction us generalizing staged ids with
  | nil =>
    obtain rfl := Except.ok.inj hr
    rw [List.filterMap_nil, List.append_nil, h]
  | cons u r ih =>
    rw [stage] at hr
    split at hr
    · rename_i id hid
      have hknown : g.known? u = if g.hasNode id then some id else none := known?_of_text hid
      have hsome : (base? g staged id).isSome = g.hasNode id := isSome_base? hsub
      split at hr
      · rename_i hnone
        rw [hnone] at hsome
        rw [← hsome] at hknown
        rw [List.filterMap_cons_none hknown]
        exact ih h hsub hr
      · rename_i n hn
        rw [hn] at hsome
        rw [← hsome] at hknown
        split at hr
        · cases hr
        · rename_i m hm
          have hkeys : Table.keys (Table.insert staged id m) = (ids ++ [id]).eraseDups := by
            rw [Table.keys_insert, eraseDups_concat, h]
            simp only [List.mem_eraseDups]
          have hmore := Table.keys_insert_subset (a := m) hsub (Table.holds_iff.1 hsome.symm)
          rw [List.filterMap_cons_some hknown, ih hkeys hmore hr, List.append_assoc, List.singleton_append]
    · rename_i hid
      rw [List.filterMap_cons_none (known?_of_not_text hid)]
      split at hr
      · exact ih h hsub hr
      · cases hr

theorem updateNodes_ends (s : Store) (us : List (Table Value)) :
    (s.updateNodes us).1 = (stage s.graph [] us).map Table.keys := by
  unfold updateNodes
  split
  · rename_i e he
    rw [he]
    rfl
  · rename_i hnone
    rw [hnone]
    rfl
  · rename_i staged _ hstaged
    rw [hstaged]
    rfl

theorem updateNodes_eq_ok {ids : List String} {t : Store} (h : s.updateNodes us = (.ok ids, t)) :
    ∃ staged, stage s.graph [] us = .ok staged ∧ ids = Table.keys staged ∧
      t.graph = { s.graph with nodes := Table.overlay s.graph.nodes staged } ∧
      t.nodeIds = s.nodeIds ∧ t.connectionIds = s.connectionIds ∧
      t.outbox = s.outbox ++ if ids = [] then [] else [⟨.nodesUpdated ids, t.graph⟩] := by
  unfold updateNodes at h
  split at h
  · cases h
  · rename_i hstaged
    obtain ⟨rfl, rfl⟩ : [] = ids ∧ s = t := by simpa using h
    exact ⟨[], hstaged, rfl, rfl, rfl, rfl, (List.append_nil _).symm⟩
  · rename_i staged hsome hstaged
    have hkeys : Table.keys staged ≠ [] := fun he => hsome (List.map_eq_nil_iff.1 he)
    obtain ⟨rfl, rfl⟩ : Table.keys staged = ids ∧ _ = t := by simpa using h
    exact ⟨staged, hstaged, rfl, rfl, rfl, rfl, by rw [if_neg hkeys]; rfl⟩

/-- A batch of updates succeeds if and only if all ids that are given can be looked up, and the single updates for known nodes, with or
without the ids of their nodes, would succeed if everything could be copied; it fails with the same fault where all ids can be looked up.
The single updates succeed if and only if all that they hand out can be copied as well. What the batch makes of the nodes is what the
single updates make of them, the connections and both counters stay, the answer names the known nodes in the order in which they are named
first, and there is one notice of it if there is any such node, and else none. -/
theorem batch_is_single_updates_iff (s : Store) (h : Table.IsKeyed Node.id s.graph.nodes) (us : List (Table Value)) (whole : Bool) :
    ((∃ ids, (s.updateNodes us).1 = .ok ids) ↔ (∀ u ∈ us, IsUsable u) ∧ (s.copyingAll.updateEach whole us).1 = .ok ()) ∧
      ((∀ u ∈ us, IsUsable u) → ∀ f, (s.updateNodes us).1 = .error f ↔ (s.copyingAll.updateEach whole us).1 = .error f) ∧
      ((s.updateEach whole us).1 = .ok () ↔
        (s.copyingAll.updateEach whole us).1 = .ok () ∧ ∀ n ∈ s.copyingAll.handedOutEach whole us, s.isCopyable n = true) ∧
      ∀ ids t, s.updateNodes us = (.ok ids, t) →
        t.graph.nodes = (s.copyingAll.updateEach whole us).2.graph.nodes ∧
          ((s.updateEach whole us).1 = .ok () → t.graph.nodes = (s.updateEach whole us).2.graph.nodes) ∧
          t.graph.connections = s.graph.connections ∧ t.nodeIds = s.nodeIds ∧ t.connectionIds = s.connectionIds ∧
          ids = (us.filterMap s.graph.known?).eraseDups ∧
          t.outbox = s.outbox ++ if ids = [] then [] else [⟨.nodesUpdated ids, t.graph⟩] := by
  obtain ⟨hends, hcarries⟩ := (carries_nothing (s := s.copyingAll) h).updateEach (fun _ => rfl) whole us
  obtain ⟨hcopies, hsame⟩ := updateEach_copyingAll s whole us
  have hgraph : s.copyingAll.graph = s.graph := rfl
  rw [hgraph] at hends hcarries
  refine ⟨⟨fun ⟨ids, hids⟩ => ?_, fun ⟨husable, hok⟩ => ?_⟩, fun husable f => ?_, hcopies, fun ids t hbatch => ?_⟩
  · rw [updateNodes_ends] at hids
    obtain ⟨result, hresult, -⟩ := map_eq_ok.1 hids
    have husable := (hcarries result hresult).1
    exact ⟨husable, by rw [hends husable, hresult]; rfl⟩
  · rw [hends husable] at hok
    obtain ⟨result, hresult, -⟩ := map_eq_ok.1 hok
    exact ⟨Table.keys result, by rw [updateNodes_ends, hresult]; rfl⟩
  · rw [updateNodes_ends, hends husable, map_eq_error, map_eq_error]
  · obtain ⟨staged, hstaged, hids, hwritten, hnodeIds, hconnectionIds, houtbox⟩ := updateNodes_eq_ok hbatch
    have hsingles : (s.copyingAll.updateEach whole us).2.graph.nodes = Table.overlay s.graph.nodes staged := (hcarries staged hstaged).2.nodes
    have hnodes : t.graph.nodes = (s.copyingAll.updateEach whole us).2.graph.nodes := by rw [hwritten, hsingles]
    have hnothing : Table.keys ([] : Table Node) = ([] : List String).eraseDups := rfl
    have hnamed := keys_stage hnothing (List.nil_subset _) hstaged
    refine ⟨hnodes, fun hok => ?_, by rw [hwritten], hnodeIds, hconnectionIds, hids.trans hnamed, houtbox⟩
    rw [hnodes, ← hsame hok]
    rfl

def twoNodes : Store :=
  (empty none).afterAll
    [.addNode ⟨"a", "Script", "action", "A", 0.0, 0.0, [("code", .text "go()")]⟩, .addNode ⟨"b", "Script", "action", "B", 0.0, 0.0, []⟩]

/-- Two updates for one node, with another between them, one for an unknown node and one for none. -/
def mixedUpdates : List (Table Value) :=
  [[("id", .text "b"), ("properties", .object [("code", .text "run()")])], [("id", .text "z"), ("category", .text "decorator")],
    [("id", .text "a"), ("name", .text "First")], [("name", .text "Nobody")],
    [("id", .text "b"), ("properties", .object [("retry", .int 2)])]]

/-- Both readings of the single updates lead to the nodes of the batch, and the batch is told of once. -/
theorem mixedUpdates_are_single_updates :
    let (answer, t) := twoNodes.updateNodes mixedUpdates
    answer = .ok ["b", "a"] ∧ t.graph.nodes = (twoNodes.updateEach true mixedUpdates).2.graph.nodes ∧
      t.graph.nodes = (twoNodes.updateEach false mixedUpdates).2.graph.nodes ∧
      t.outbox = twoNodes.outbox ++ [⟨.nodesUpdated ["b", "a"], t.graph⟩] := by
  have hkeyed : Table.IsKeyed Node.id twoNodes.graph.nodes := ⟨by decide +kernel, by decide +kernel⟩
  have hanswer : (twoNodes.updateNodes mixedUpdates).1 = .ok ["b", "a"] := by rfl
  have hwhole := batch_is_single_updates_iff twoNodes hkeyed mixedUpdates true
  have hrest := batch_is_single_updates_iff twoNodes hkeyed mixedUpdates false
  obtain ⟨_, hnodes, _, _, _, _, houtbox⟩ := hwhole.2.2.2 ["b", "a"] _ (Prod.ext hanswer rfl)
  exact ⟨hanswer, hnodes rfl, (hrest.2.2.2 ["b", "a"] _ (Prod.ext hanswer rfl)).2.1 rfl, houtbox⟩

def listedUpdates : List (Table Value) := [[("id", .list [.int 1]), ("name", .text "x")], [("id", .text "a"), ("name", .text "y")]]

/-- The update for the node succeeds by itself and renames it, but the batch fails. -/
theorem listed_id_ends_batch :
    (twoNodes.updateEach true listedUpdates).1.isOk = true ∧
      (twoNodes.updateEach true listedUpdates).2.graph.nodeList.map Node.name = ["y", "B"] ∧
      (twoNodes.updateNodes listedUpdates).1.isOk = false ∧
      (twoNodes.updateNodes listedUpdates).2.graph.nodeList.map Node.name = ["A", "B"] := by
  decide +kernel

end Store

end BehaviorTree
