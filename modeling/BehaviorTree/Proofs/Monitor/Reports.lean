import BehaviorTree.Monitor.Overlay
import BehaviorTree.Proofs.Store.Graph

/-!
What a report does to the statuses. They come from the report alone: the first node of a name has the status of the last entry for that
name. An entry without a name in a list of nodes is taken for one that names a node "None", and nothing else comes between what a report
names and what it sets.
-/

set_option autoImplicit false

namespace BehaviorTree.Monitor

variable {g : Graph} {states : Table Status} {es fs : List (Value × Value)} {e : Value × Value} {n : Node} {id name : String}
  {status : Status} {v report : Value} {vs : List Value} {ms : Table Value}

def statusFor (name : String) (e : Value × Value) : Option Status :=
  if e.1.written = name then some (.ofReported e.2) else none

/-- The status that the last entry for a name gives to it. -/
def lastStatus (es : List (Value × Value)) (name : String) : Option Status := (es.filterMap (statusFor name)).getLast?

/-- The entry that an object is, if it has a name under the key. -/
def entryOf? (key : String) : Value → Option (Value × Value)
  | .object ms => (Table.lookup ms key).map fun name => (name, Value.member ms "status")
  | _ => none

/-- The entries of a report that carry a name: the objects in its list of nodes, or else the report itself or the objects in it. -/
def namedEntries : Value → List (Value × Value)
  | .object ms =>
    match Table.lookup ms "nodes" with
    | some (.list vs) => vs.filterMap (entryOf? "name")
    | _ => (entryOf? "node_name" (.object ms)).toList
  | .list vs => vs.filterMap (entryOf? "node_name")
  | _ => []

/-- Do the nodes that come first of their names have the statuses that the entries give to their names, and no other nodes any? -/
def Sets (g : Graph) (states : Table Status) (es : List (Value × Value)) : Prop :=
  ∀ id status, Table.lookup states id = some status ↔
    ∃ n, g.named? n.name = some n ∧ n.id = id ∧ lastStatus es n.name = some status

/-- Does every object in the list of nodes have a name? -/
def NamesAll (report : Value) : Prop :=
  ∀ ms vs, report = .object ms → Table.lookup ms "nodes" = some (.list vs) → ∀ o, .object o ∈ vs → Table.lookup o "name" ≠ none

/-- Does an object without a name stand behind all those of the name "None", with a status that these do not give? -/
def Strays (report : Value) : Prop :=
  ∃ ms before o after, report = .object ms ∧ Table.lookup ms "nodes" = some (.list (before ++ .object o :: after)) ∧
    Table.lookup o "name" = none ∧ (∀ p, .object p ∈ after → (Value.member p "name").written ≠ "None") ∧
    lastStatus (before.filterMap (entryOf? "name")) "None" ≠ some (.ofReported (Value.member o "status"))

theorem lastStatus_cons : lastStatus (e :: es) name = (lastStatus es name).or (statusFor name e) := by
  unfold lastStatus
  cases hstatus : statusFor name e with
  | none => rw [List.filterMap_cons_none hstatus, Option.or_none]
  | some status =>
    rw [List.filterMap_cons_some hstatus, List.getLast?_cons]
    cases (es.filterMap (statusFor name)).getLast? <;> rfl

theorem lastStatus_append : lastStatus (es ++ fs) name = (lastStatus fs name).or (lastStatus es name) := by
  rw [lastStatus, List.filterMap_append, List.getLast?_append]
  rfl

theorem lastStatus_of_others (h : ∀ e ∈ es, e.1.written ≠ name) : lastStatus es name = none := by
  have hnone : es.filterMap (statusFor name) = [] := List.filterMap_eq_nil_iff.2 fun e he => if_neg (h e he)
  rw [lastStatus, hnone, List.getLast?_nil]

theorem exists_of_lastStatus {f : Value → Option (Value × Value)} (h : lastStatus (vs.filterMap f) name = some status) :
    ∃ before v after e, vs = before ++ v :: after ∧ f v = some e ∧ statusFor name e = some status ∧
      lastStatus (after.filterMap f) name = none := by
  induction vs with
  | nil => cases h
  | cons v vs ih =>
    cases hrest : lastStatus (vs.filterMap f) name with
    | some other =>
      have hsame : lastStatus ((v :: vs).filterMap f) name = some other := by
        cases hv : f v with
        | none => rw [List.filterMap_cons_none hv, hrest]
        | some e => rw [List.filterMap_cons_some hv, lastStatus_cons, hrest, Option.some_or]
      obtain ⟨before, w, after, e, rfl, hw⟩ := ih (hrest.trans (hsame.symm.trans h))
      exact ⟨v :: before, w, after, e, rfl, hw⟩
    | none =>
      cases hv : f v with
      | none =>
        rw [List.filterMap_cons_none hv, hrest] at h
        cases h
      | some e =>
        rw [List.filterMap_cons_some hv, lastStatus_cons, hrest, Option.none_or] at h
        exact ⟨[], v, vs, e, rfl, hv, h, hrest⟩

theorem named?_name {m : Node} (h : g.named? name = some m) : m.name = name :=
  of_decide_eq_true (List.find?_some (p := fun n : Node => decide (n.name = name)) h)

theorem eq_of_first {m : Node} (hg : g.IsSound) (hm : g.named? m.name = some m) (hn : g.named? n.name = some n) (hid : m.id = n.id) :
    m = n :=
  List.inj_on_of_nodup_map hg.ids_nodup (List.mem_of_find?_eq_some hm) (List.mem_of_find?_eq_some hn) hid

theorem lookup_statesOf (hg : g.IsSound) (hn : g.named? n.name = some n) :
    Table.lookup (statesOf g states es) n.id = (lastStatus es n.name).or (Table.lookup states n.id) := by
  induction es generalizing states with
  | nil => rfl
  | cons e es ih =>
    obtain ⟨name, reported⟩ := e
    rw [statesOf, lastStatus_cons, statusFor]
    by_cases hname : name.written = n.name
    · rw [hname, hn]
      dsimp only
      rw [ih, Table.lookup_insert, if_pos rfl, if_pos rfl, Option.or_assoc, Option.some_or]
    · rw [if_neg hname, Option.or_none]
      cases hfound : g.named? name.written with
      | none => exact ih
      | some m =>
        have hother : m.id ≠ n.id := fun hid => hname <| by
          have hm : g.named? m.name = some m := by rw [named?_name hfound, hfound]
          rw [← named?_name hfound, eq_of_first hg hm hn hid]
        dsimp only
        rw [ih, Table.lookup_insert, if_neg hother]

theorem first_of_lookup_statesOf (h : Table.lookup (statesOf g states es) id = some status) :
    Table.lookup states id = some status ∨ ∃ n, g.named? n.name = some n ∧ n.id = id := by
  induction es generalizing states with
  | nil => exact .inl h
  | cons e es ih =>
    obtain ⟨name, reported⟩ := e
    rw [statesOf] at h
    cases hfound : g.named? name.written with
    | none =>
      rw [hfound] at h
      exact ih h
    | some n =>
      rw [hfound] at h
      refine (ih h).elim (fun hstates => ?_) .inr
      rw [Table.lookup_insert] at hstates
      split_ifs at hstates with hid
      · exact .inr ⟨n, by rw [named?_name hfound, hfound], hid⟩
      · exact .inl hstates

theorem sets_statesOf (hg : g.IsSound) (es : List (Value × Value)) : Sets g (statesOf g [] es) es := by
  intro id status
  constructor
  · intro h
    obtain ⟨n, hn, rfl⟩ := (first_of_lookup_statesOf h).resolve_left nofun
    rw [lookup_statesOf hg hn, Table.lookup_nil, Option.or_none] at h
    exact ⟨n, hn, rfl, h⟩
  · rintro ⟨n, hn, rfl, h⟩
    rw [lookup_statesOf hg hn, Table.lookup_nil, Option.or_none, h]

theorem Sets.lookup_eq (h : Sets g states es) (hg : g.IsSound) (hn : g.named? n.name = some n) :
    Table.lookup states n.id = lastStatus es n.name := by
  refine Option.ext fun status => (h n.id status).trans ⟨?_, fun hlast => ⟨n, hn, rfl, hlast⟩⟩
  rintro ⟨m, hm, hid, hlast⟩
  rwa [eq_of_first hg hm hn hid] at hlast

def takenFor : Value → Option (Value × Value)
  | .object o => some (Value.member o "name", Value.member o "status")
  | _ => none

theorem entries_of_nodes (h : Table.lookup ms "nodes" = some (.list vs)) :
    entries (.object ms) = vs.filterMap takenFor ∧ namedEntries (.object ms) = vs.filterMap (entryOf? "name") := by
  rw [entries, namedEntries, h]
  exact ⟨List.filterMap_congr fun v _ => by cases v <;> rfl, rfl⟩

theorem entryOf?_object (o : Table Value) (key : String) :
    entryOf? key (.object o) =
      if Table.holds o key then some (Value.member o key, Value.member o "status") else none := by
  unfold entryOf? Table.holds Value.member
  dsimp only
  cases Table.lookup o key <;> rfl

theorem own_entry (ms : Table Value) :
    (if Table.holds ms "node_name" then [(Value.member ms "node_name", Value.member ms "status")] else []) =
      (entryOf? "node_name" (.object ms)).toList := by
  rw [entryOf?_object]
  split <;> rfl

theorem entries_eq_or_nodes (report : Value) :
    entries report = namedEntries report ∨ ∃ ms vs, report = .object ms ∧ Table.lookup ms "nodes" = some (.list vs) := by
  cases report with
  | list vs =>
    refine .inl (List.filterMap_congr fun v _ => ?_)
    cases v with
    | object o => exact (entryOf?_object o "node_name").symm
    | _ => rfl
  | object ms =>
    cases hnodes : Table.lookup ms "nodes" with
    | none =>
      rw [entries, namedEntries, hnodes]
      exact .inl (own_entry ms)
    | some v =>
      cases v with
      | list vs => exact .inr ⟨ms, vs, rfl, hnodes⟩
      | _ =>
        rw [entries, namedEntries, hnodes]
        exact .inl (own_entry ms)
  | _ => exact .inl rfl

theorem takenFor_of_named {o : Table Value} (h : Table.lookup o "name" ≠ none) : entryOf? "name" (.object o) = takenFor (.object o) := by
  rw [entryOf?_object, Table.holds, if_pos (Option.isSome_iff_ne_none.2 h), takenFor]

theorem takenFor_of_unnamed {o : Table Value} (h : Table.lookup o "name" = none) :
    entryOf? "name" (.object o) = none ∧
      (takenFor (.object o)).bind (statusFor "None") = some (.ofReported (Value.member o "status")) := by
  have hmember : Value.member o "name" = .null := by rw [Value.member, h]; rfl
  rw [entryOf?, takenFor, h, hmember, Option.bind_some, statusFor, if_pos (by rfl)]
  exact ⟨rfl, rfl⟩

theorem lastStatus_entryOf? (h : name ≠ "None") :
    lastStatus (vs.filterMap takenFor) name = lastStatus (vs.filterMap (entryOf? "name")) name := by
  rw [lastStatus, lastStatus, List.filterMap_filterMap, List.filterMap_filterMap]
  congr 1
  refine List.filterMap_congr fun v _ => ?_
  cases v with
  | object o =>
    by_cases hnamed : Table.lookup o "name" = none
    · rw [entryOf?, hnamed, takenFor, Value.member, hnamed]
      exact if_neg (Ne.symm h)
    · rw [takenFor_of_named hnamed]
  | _ => rfl

theorem written_of_takenFor (h : lastStatus (vs.filterMap takenFor) name = none) (o : Table Value) (ho : .object o ∈ vs) :
    (Value.member o "name").written ≠ name := by
  intro hname
  rw [lastStatus, List.getLast?_eq_none_iff, List.filterMap_eq_nil_iff] at h
  have hnone := h _ (List.mem_filterMap.2 ⟨_, ho, rfl⟩)
  rw [statusFor, if_pos hname] at hnone
  cases hnone

theorem lastStatus_of_unnamed (h : ∀ o, .object o ∈ vs → (Value.member o "name").written ≠ name) :
    lastStatus (vs.filterMap takenFor) name = none ∧ lastStatus (vs.filterMap (entryOf? "name")) name = none := by
  constructor
  · refine lastStatus_of_others fun e he => ?_
    obtain ⟨v, hv, hentry⟩ := List.mem_filterMap.1 he
    cases v with
    | object o => exact Option.some.inj hentry ▸ h o hv
    | _ => cases hentry
  · refine lastStatus_of_others fun e he => ?_
    obtain ⟨v, hv, hentry⟩ := List.mem_filterMap.1 he
    cases v with
    | object o =>
      rw [entryOf?_object] at hentry
      split_ifs at hentry
      exact Option.some.inj hentry ▸ h o hv
    | _ => cases hentry

theorem lastStatus_split {f : Value → Option (Value × Value)} {before after : List Value}
    (hafter : lastStatus (after.filterMap f) name = none) :
    lastStatus ((before ++ v :: after).filterMap f) name =
      ((f v).bind (statusFor name)).or (lastStatus (before.filterMap f) name) := by
  rw [List.filterMap_append, lastStatus_append]
  cases hv : f v with
  | none => rw [List.filterMap_cons_none hv, hafter]; rfl
  | some e => rw [List.filterMap_cons_some hv, lastStatus_cons, hafter]; rfl

theorem lastStatus_of_ne (h : name ≠ "None") : lastStatus (entries report) name = lastStatus (namedEntries report) name := by
  obtain heq | ⟨ms, vs, rfl, hnodes⟩ := entries_eq_or_nodes report
  · rw [heq]
  · rw [(entries_of_nodes hnodes).1, (entries_of_nodes hnodes).2, lastStatus_entryOf? h]

/-- What the name "None" gets differs from what the entries with a name give to it exactly if an object without a name strays. -/
theorem lastStatus_ne_iff_strays :
    lastStatus (entries report) "None" ≠ lastStatus (namedEntries report) "None" ↔ Strays report := by
  constructor
  · intro hne
    obtain heq | ⟨ms, vs, rfl, hnodes⟩ := entries_eq_or_nodes report
    · exact absurd (by rw [heq]) hne
    obtain ⟨hentries, hnamed⟩ := entries_of_nodes hnodes
    rw [hentries, hnamed] at hne
    cases hlast : lastStatus (vs.filterMap takenFor) "None" with
    | none => exact absurd (by rw [hlast, (lastStatus_of_unnamed (written_of_takenFor hlast)).2]) hne
    | some status =>
      obtain ⟨before, v, after, e, rfl, hv, hstatus, hafter⟩ := exists_of_lastStatus hlast
      have hothers := written_of_takenFor hafter
      have hnone := (lastStatus_of_unnamed hothers).2
      cases v with
      | object o =>
        by_cases hname : Table.lookup o "name" = none
        · obtain ⟨hentry, htaken⟩ := takenFor_of_unnamed hname
          rw [lastStatus_split hafter, lastStatus_split hnone, hentry, htaken, Option.some_or] at hne
          exact ⟨ms, before, o, after, rfl, hnodes, hname, hothers, Ne.symm hne⟩
        · refine absurd ?_ hne
          rw [hlast, lastStatus_split hnone, takenFor_of_named hname, hv, Option.bind_some, hstatus, Option.some_or]
      | _ => cases hv
  · rintro ⟨ms, before, o, after, rfl, hnodes, hname, hothers, hne⟩
    obtain ⟨hentries, hnamed⟩ := entries_of_nodes hnodes
    obtain ⟨hafter, hnone⟩ := lastStatus_of_unnamed hothers
    obtain ⟨hentry, htaken⟩ := takenFor_of_unnamed hname
    rw [hentries, hnamed, lastStatus_split hafter, lastStatus_split hnone, hentry, htaken, Option.some_or]
    exact Ne.symm hne

theorem not_strays_of_namesAll (h : NamesAll report) : ¬ Strays report := by
  rintro ⟨ms, before, o, after, rfl, hnodes, hname, -⟩
  exact h ms _ rfl hnodes o (List.mem_append_right _ List.mem_cons_self) hname

theorem sets_congr (h : ∀ n, g.named? n.name = some n → lastStatus es n.name = lastStatus fs n.name) :
    Sets g states es ↔ Sets g states fs := by
  refine forall₂_congr fun id status => iff_congr Iff.rfl (exists_congr fun n => and_congr_right fun hn => ?_)
  rw [h n hn]

/-- A report gives statuses to exactly the first nodes of the names in its entries, whatever was reported before. So it does for its
entries with a name alone, unless there is a node "None" and an object without a name strays. -/
theorem report_sets_named_iff (m : Monitor) (s : Store) (hs : s.graph.IsSound) (report : Value) :
    let states := (m.apply s report).1.states
    (∀ (m' : Monitor) (t : Store), t.graph = s.graph → (m'.apply t report).1.states = states) ∧
      Sets s.graph states (entries report) ∧
      (Sets s.graph states (namedEntries report) ↔ s.graph.named? "None" = none ∨ ¬ Strays report) ∧
      (NamesAll report → Sets s.graph states (namedEntries report)) := by
  intro states
  have hsets : Sets s.graph states (entries report) := sets_statesOf hs _
  have hiff : Sets s.graph states (namedEntries report) ↔ s.graph.named? "None" = none ∨ ¬ Strays report := by
    rw [← lastStatus_ne_iff_strays, not_not]
    constructor
    · intro hnamed
      refine (s.graph.named? "None").eq_none_or_eq_some.imp_right fun ⟨n, hn⟩ => ?_
      obtain hname := named?_name hn
      rw [← hname] at hn ⊢
      rw [← hsets.lookup_eq hs hn, hnamed.lookup_eq hs hn]
    · intro h
      refine (sets_congr fun n hn => ?_).1 hsets
      by_cases hname : n.name = "None"
      · rw [hname] at hn ⊢
        exact h.resolve_left fun hnone => by rw [hnone] at hn; cases hn
      · exact lastStatus_of_ne hname
  refine ⟨fun m' t ht => ?_, hsets, hiff, fun hnames => hiff.2 (.inr (not_strays_of_namesAll hnames))⟩
  rw [apply, ht]
  rfl

def namedLike (id name : String) : Node := ⟨id, "AlwaysSuccess", "action", name, 0, 0, []⟩

def walkingStore : Store :=
  { graph := { nodes := Table.under Node.id [namedLike "a" "Walk", namedLike "b" "None", namedLike "c" "Walk"] } }

def walkingReport : Value :=
  .object [("nodes", .list [.object [("name", .text "Walk"), ("status", .text "failure")], .object [("status", .text "running")],
    .object [("name", .null), ("status", .text " SUCCESS ")], .object [("name", .text "Walk"), ("status", .text "Active")]])]

theorem walkingReport_sets_named :
    walkingStore.graph.IsSound ∧ ¬ Strays walkingReport ∧
      Sets walkingStore.graph (apply {} walkingStore walkingReport).1.states (namedEntries walkingReport) ∧
      (apply {} walkingStore walkingReport).1.states = [("a", .running), ("b", .success)] := by
  have hsound : walkingStore.graph.IsSound := ⟨⟨by decide, by decide⟩, ⟨by decide, by decide⟩, by decide⟩
  have hstays : ¬ Strays walkingReport := by
    rw [← lastStatus_ne_iff_strays]
    decide
  exact ⟨hsound, hstays, (report_sets_named_iff {} walkingStore hsound walkingReport).2.2.1.2 (.inr hstays), by decide⟩

def namelessReport : Value := .object [("nodes", .list [.object [("status", .text "running")]])]

theorem namelessReport_sets_node :
    let store : Store := { graph := { nodes := Table.under Node.id [namedLike "node_0" "None"] } }
    ¬ Sets store.graph (apply {} store namelessReport).1.states (namedEntries namelessReport) := by
  intro store hsets
  obtain ⟨n, -, -, hlast⟩ := (hsets "node_0" .running).1 (by decide)
  cases hlast

end BehaviorTree.Monitor
