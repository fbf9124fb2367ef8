import BehaviorTree.Proofs.Catalog.Reachable
import BehaviorTree.Proofs.Document.Decode
import BehaviorTree.Proofs.Text.Half

/-!
Reading back what was written. The reader is stricter than whatever makes nodes and types, but it accepts everything that a snapshot
is written as, field by field, and what it gets is the snapshot.
-/

set_option autoImplicit false

namespace BehaviorTree

variable {α β : Type}

namespace Schema

namespace Checked

theorem all_map_ok (as : List α) : all (as.map .ok) = .ok as := by
  induction as with
  | nil => rfl
  | cons a r ih => rw [List.map_cons, all, ih]

theorem mem_of_all {cs : List (Checked α)} {as : List α} {a : α} (h : all cs = .ok as) (ha : a ∈ as) : .ok a ∈ cs := by
  induction cs generalizing as with
  | nil =>
    obtain rfl := Except.ok.inj h
    cases ha
  | cons c r ih =>
    cases c with
    | error ps => cases h
    | ok b =>
      rw [all] at h
      split at h
      · rename_i bs hbs
        obtain rfl := Except.ok.inj h
        rcases List.mem_cons.1 ha with rfl | ha
        · exact List.mem_cons_self
        · exact List.mem_cons_of_mem _ (ih hbs ha)
      · cases h

end Checked

theorem listOf_map {write : β → Value} {read : Value → Checked α} {f : β → α} {bs : List β}
    (h : ∀ b ∈ bs, read (write b) = .ok (f b)) : listOf read (.list (bs.map write)) = .ok (bs.map f) := by
  have hall : ((bs.map write).mapIdx fun i v => (read v).below (.element i)) = (bs.map f).map .ok := by
    refine List.ext_getElem (by simp) fun i hi _ => ?_
    have hib : i < bs.length := by simpa using hi
    simp [h _ (List.getElem_mem hib), Checked.below]
  rw [listOf, hall, Checked.all_map_ok]

theorem exists_of_listOf {read : Value → Checked α} {v : Value} {as : List α} {a : α} (h : listOf read v = .ok as) (ha : a ∈ as) :
    ∃ w, read w = .ok a := by
  unfold listOf at h
  split at h
  · rename_i vs
    obtain ⟨i, hi, he⟩ := List.mem_iff_getElem.1 (Checked.mem_of_all h ha)
    rw [List.getElem_mapIdx] at he
    exact ⟨_, Checked.below_eq_ok.1 he⟩
  · cases h

theorem exists_of_optional {ms : Table Value} {name : String} {fallback a : α} {read : Value → Checked α}
    (h : optional ms name fallback read = .ok a) : a = fallback ∨ ∃ v, read v = .ok a := by
  unfold optional at h
  split at h
  · exact .inr ⟨_, Checked.below_eq_ok.1 h⟩
  · exact .inl (Except.ok.inj h).symm

theorem objectOf_boolean (t : Table Bool) : objectOf boolean (.object (t.map fun c => (c.1, .bool c.2))) = .ok t := by
  have hall : ((t.map fun c => (c.1, Value.bool c.2)).map fun m => ((boolean m.2).below (.member m.1)).map fun a => (m.1, a)) =
      t.map .ok := by
    rw [List.map_map]
    rfl
  rw [objectOf, hall, Checked.all_map_ok]

end Schema

theorem PropertyDef.check_toValue (p : PropertyDef) : check p.toValue = .ok p := rfl

namespace NodeType

/-- Does a type come out of the file as it was? Where its name is empty it has no name at all, since the type would be filled in. -/
structure IsReadable (t : NodeType) : Prop where
  named : t.name = "" → t.type = ""
  limit : t.LimitNonneg

theorem childCount_nonneg {n : Int} (h : 0 ≤ n) : childCount (.int n) = .ok n := by
  simp [childCount, Schema.atLeast, Schema.readInteger, Value.scalar?, Schema.Checked.ofCause, Int.not_lt.2 h]

variable {t : NodeType} {ms : Table Value} {v : Value} {s : String}

theorem ofMembers_eq_ok : ofMembers ms = .ok t ↔
    Schema.required ms "type" Schema.text = .ok t.type ∧ Schema.text (nameMember ms) = .ok t.name ∧
      Schema.required ms "category" Schema.text = .ok t.category ∧
        eitherName ms "maxChildren" "max_children" (ChildLimits.ofCategory ((Value.member ms "category").text?.getD "")).maxChildren
          (Schema.nullable childCount) = .ok t.maxChildren ∧
        eitherName ms "canBeChildless" "can_be_childless"
          (ChildLimits.ofCategory ((Value.member ms "category").text?.getD "")).canBeChildless Schema.boolean = .ok t.canBeChildless ∧
          Schema.optional ms "properties" [] (Schema.listOf PropertyDef.check) = .ok t.properties ∧
            Schema.optional ms "description" "" Schema.text = .ok t.description ∧
              Schema.optional ms "builtin" false Schema.boolean = .ok t.builtin := by
  unfold ofMembers
  dsimp only
  constructor
  · intro h
    split at h
    · rename_i htype hname hcategory hmax hchildless hproperties hdescription hbuiltin
      obtain rfl := Except.ok.inj h
      exact ⟨htype, Schema.Checked.below_eq_ok.1 hname, hcategory, hmax, hchildless, hproperties, hdescription, hbuiltin⟩
    · cases h
  · rintro ⟨htype, hname, hcategory, hmax, hchildless, hproperties, hdescription, hbuiltin⟩
    rw [htype, Schema.Checked.below_eq_ok.2 hname, hcategory, hmax, hchildless, hproperties, hdescription, hbuiltin]

theorem check_toValue (h : t.IsReadable) : check t.toValue = .ok t := by
  obtain ⟨type, name, category, maxChildren, canBeChildless, properties, description, builtin⟩ := t
  refine ofMembers_eq_ok.2 ⟨rfl, ?_, rfl, ?_, rfl, ?_, rfl, rfl⟩
  · rw [nameMember]
    split_ifs with htruthy
    · rfl
    · -- An empty name is read as the type, but then that is empty too.
      have hempty : name = "" := by simpa [Value.member, Table.lookup, Value.isTruthy] using htruthy
      rw [hempty, ← h.named hempty]
      rfl
  · cases maxChildren with
    | none => rfl
    | some n => exact Schema.Checked.below_eq_ok.2 (congrArg (Except.map some) (childCount_nonneg (h.limit n rfl)))
  · have hall := Schema.listOf_map (f := id) fun p (_ : p ∈ properties) => PropertyDef.check_toValue p
    rw [List.map_id] at hall
    exact Schema.Checked.below_eq_ok.2 hall

theorem ne_empty_of_text (hv : v.isTruthy) (h : Schema.text v = .ok s) : s ≠ "" := by
  cases v with
  | text u =>
    obtain rfl : u = s := Except.ok.inj h
    simpa [Value.isTruthy] using hv
  | bytes bs =>
    cases bs with
    | nil => cases hv
    | cons b r =>
      simp only [Schema.text, Value.scalar?, Schema.readText, Schema.decoded] at h
      split at h
      · rename_i cs hread
        obtain rfl : String.ofList (Text.ofChars cs) = s := Except.ok.inj h
        simpa using Text.ofChars_ne_nil (Text.ne_nil_of_utf8Chars hread)
      · cases h
  | _ => cases h

theorem isReadable_of_ofMembers (h : ofMembers ms = .ok t) : t.IsReadable := by
  refine ⟨fun hempty => ?_, ofMembers_limit_nonneg h⟩
  obtain ⟨htype, hname, _⟩ := ofMembers_eq_ok.1 h
  rw [nameMember] at hname
  split_ifs at hname with htruthy
  · exact absurd hempty (ne_empty_of_text htruthy hname)
  · unfold Schema.required at htype
    split at htype
    · rename_i v hv
      rw [hv, Option.getD_some] at hname
      rw [← hempty]
      exact Except.ok.inj ((Schema.Checked.below_eq_ok.1 htype).symm.trans hname)
    · cases htype

theorem isReadable_of_check (h : check v = .ok t) : t.IsReadable := by
  obtain ⟨ms, _, hms⟩ := Schema.Checked.andThen_eq_ok.1 h
  exact isReadable_of_ofMembers hms

end NodeType

namespace GridSettings

variable {g : GridSettings} {ms : Table Value}

theorem check_toValue (h : 1 ≤ g.size) : check g.toValue = .ok g := by
  obtain ⟨enabled, size, snap⟩ := g
  have hsize : Schema.atLeast 1 Schema.readInteger (some (.int size)) = .ok size := by
    simp [Schema.atLeast, Schema.readInteger, Int.not_lt.2 h]
  simp [check, toValue, toMembers, Schema.members, Schema.Checked.andThen, ofMembers, ofScalars, Table.lookup, Value.scalar?, hsize,
    Schema.readBoolean, Schema.Checked.ofCause, Schema.Checked.below]

theorem one_le_of_ofScalars {find? : String → Option (Option Scalar)} (h : ofScalars find? = .ok g) : 1 ≤ g.size := by
  unfold ofScalars at h
  dsimp only at h
  split at h
  · rename_i enabled size snap _ hsize _
    obtain rfl := Except.ok.inj h
    split at hsize
    · rename_i v _
      have hread := Schema.Checked.below_eq_ok.1 hsize
      unfold Schema.atLeast at hread
      cases hv : Schema.readInteger v with
      | error c => simp [hv, Schema.Checked.ofCause, Schema.Checked.fail] at hread
      | ok i =>
        rw [hv] at hread
        dsimp only at hread
        split_ifs at hread with hsmall
        · cases hread
        · obtain rfl : i = size := Except.ok.inj hread
          exact Int.not_lt.1 hsmall
    · have hdefault : 20 = size := Except.ok.inj hsize
      exact hdefault ▸ (by decide : (1 : Int) ≤ 20)
  · cases h

theorem one_le_of_ofMembers (h : ofMembers ms = .ok g) : 1 ≤ g.size := one_le_of_ofScalars h

theorem one_le_of_nullable {v : Value} (h : Schema.nullable check v = .ok (some g)) : 1 ≤ g.size := by
  unfold Schema.nullable at h
  split at h
  · cases h
  · obtain ⟨g', hg, he⟩ := map_eq_ok.1 h
    obtain rfl := Option.some.inj he
    obtain ⟨ms, _, hms⟩ := Schema.Checked.andThen_eq_ok.1 hg
    exact one_le_of_ofMembers hms

end GridSettings

namespace Document

def NodeRecord.ofNode (n : Node) : NodeRecord := ⟨n.id, n.type, n.category, some n.name, .float n.x, .float n.y, n.properties⟩

theorem NodeRecord.check_toValue (n : Node) : check n.toValue = .ok (ofNode n) := rfl

theorem NodeRecord.toNode_ofNode (n : Node) : (ofNode n).toNode = .ok n := rfl

theorem connection_toValue (c : Connection) : connection c.toValue = .ok c := rfl

end Document

structure Snapshot.IsReadable (s : Snapshot) : Prop where
  consistent : IsConsistent (s.nodes.map Node.id) s.connections
  nodeIds : ∀ n ∈ s.nodes, IdSequence.nodes.Reads n.id
  connectionIds : ∀ c ∈ s.connections, IdSequence.connections.Reads c.id
  customTypes : ∀ t ∈ s.customTypes, t.IsReadable
  grid : 1 ≤ s.grid.size

namespace Document

variable {s : Snapshot} {source : Value} {l : Loaded}

def Envelope.ofSnapshot (s : Snapshot) : Envelope :=
  ⟨s.nodes.map NodeRecord.ofNode, s.connections, s.customTypes, s.collapsed, some s.grid⟩

theorem Envelope.ofMembers_eq_ok {ms : Table Value} {e : Envelope} : ofMembers ms = .ok e ↔
    Schema.required ms "nodes" (Schema.listOf NodeRecord.check) = .ok e.nodes ∧
      Schema.required ms "connections" (Schema.listOf connection) = .ok e.connections ∧
        Schema.optional ms "customNodeTypes" [] (Schema.listOf NodeType.check) = .ok e.customTypes ∧
          Schema.optional ms "collapsedCategories" [] (Schema.objectOf Schema.boolean) = .ok e.collapsed ∧
            Schema.optional ms "grid" none (Schema.nullable GridSettings.check) = .ok e.grid := by
  unfold ofMembers
  dsimp only
  constructor
  · intro h
    split at h
    · rename_i hnodes hconnections htypes hcollapsed hgrid
      obtain rfl := Except.ok.inj h
      exact ⟨hnodes, hconnections, htypes, hcollapsed, hgrid⟩
    · cases h
  · rintro ⟨hnodes, hconnections, htypes, hcollapsed, hgrid⟩
    rw [hnodes, hconnections, htypes, hcollapsed, hgrid]

theorem envelope_eq_ok {ms : Table Value} {e : Envelope} : envelope (.object ms) = .ok e ↔ Envelope.ofMembers ms = .ok e := by
  unfold envelope
  dsimp only
  cases Envelope.ofMembers ms with
  | error ps => exact ⟨nofun, nofun⟩
  | ok d => simp [Schema.Checked.report]

theorem envelope_toValue (h : s.IsReadable) : envelope s.toValue = .ok (.ofSnapshot s) := by
  refine envelope_eq_ok.2 (Envelope.ofMembers_eq_ok.2 ⟨?_, ?_, ?_, ?_, ?_⟩)
  · exact Schema.Checked.below_eq_ok.2 (Schema.listOf_map fun n _ => NodeRecord.check_toValue n)
  · have hall := Schema.listOf_map (f := id) fun c (_ : c ∈ s.connections) => connection_toValue c
    rw [List.map_id] at hall
    exact Schema.Checked.below_eq_ok.2 hall
  · have hall := Schema.listOf_map (f := id) fun t ht => NodeType.check_toValue (h.customTypes t ht)
    rw [List.map_id] at hall
    exact Schema.Checked.below_eq_ok.2 hall
  · exact Schema.Checked.below_eq_ok.2 (Schema.objectOf_boolean s.collapsed)
  · exact Schema.Checked.below_eq_ok.2 (congrArg (Except.map some) (GridSettings.check_toValue h.grid))

theorem ids_ofNode (ns : List Node) : (ns.map NodeRecord.ofNode).map NodeRecord.id = ns.map Node.id := by
  rw [List.map_map]
  rfl

theorem toNode_ofNodes (ns : List Node) : (ns.map NodeRecord.ofNode).mapM NodeRecord.toNode = .ok ns := by
  rw [mapM_eq_ok, List.forall₂_map_left_iff]
  exact List.forall₂_same.2 fun n _ => NodeRecord.toNode_ofNode n

theorem decode_toValue (h : s.IsReadable) : ∃ l, decode s.toValue = .ok l ∧ l.toSnapshot = s ∧ l.gridPresent = true := by
  have hconsistent : IsConsistent ((Envelope.ofSnapshot s).nodes.map NodeRecord.id) s.connections := by
    rw [Envelope.ofSnapshot, ids_ofNode]
    exact h.consistent
  have hchecked : checked s.toValue = .ok (.ofSnapshot s) := checked_eq_ok.2 ⟨⟨_, rfl, envelope_toValue h⟩, hconsistent⟩
  have hlimits : (Envelope.ofSnapshot s).IsWithinLimits :=
    ⟨List.forall_mem_map.2 fun n _ => ⟨⟨n.x, rfl⟩, n.y, rfl⟩, List.forall_mem_map.2 h.nodeIds, h.connectionIds⟩
  obtain ⟨l, hl⟩ := exists_toLoaded.2 hlimits
  obtain ⟨hnodes, _, _, hconnections, htypes, hcollapsed, hgrid, hpresent⟩ := toLoaded_eq_ok.1 hl
  have hsame : l.nodes = s.nodes := Except.ok.inj (hnodes.symm.trans (toNode_ofNodes s.nodes))
  refine ⟨l, decode_eq_ok.2 ⟨_, hchecked, hl⟩, ?_, hpresent⟩
  obtain ⟨⟨_, _, _, _, _⟩, _, _, _⟩ := l
  obtain ⟨_, _, _, _, _⟩ := s
  simp_all [Envelope.ofSnapshot]

/-- What a readable snapshot is written as is decoded to the snapshot, if the text is read as the value that was written. -/
theorem decode_encode (h : s.IsReadable) (hjson : Json.parse s.encode.toList = .ok s.toValue) :
    ∃ l, decode (.text s.encode) = .ok l ∧ l.toSnapshot = s ∧ l.gridPresent = true := by
  have hparsed : parse (.text s.encode) = parse s.toValue := mapError_eq_ok.2 hjson
  have hsame : decode (.text s.encode) = decode s.toValue := by rw [decode, hparsed, ← decode]
  rw [hsame]
  exact decode_toValue h

theorem isReadable_of_decode (h : decode source = .ok l) : l.toSnapshot.IsReadable := by
  obtain ⟨e, hchecked, hl⟩ := decode_eq_ok.1 h
  obtain ⟨⟨v, _, hv⟩, _⟩ := checked_eq_ok.1 hchecked
  obtain ⟨_, _, _, _, htypes, _, hgrid, _⟩ := toLoaded_eq_ok.1 hl
  have husable := isUsable_of_decode h
  have hmembers : ∃ ms, Envelope.ofMembers ms = .ok e := by
    cases v with
    | object ms => exact ⟨ms, envelope_eq_ok.1 hv⟩
    | _ => cases hv
  obtain ⟨ms, hms⟩ := hmembers
  obtain ⟨_, _, htypesRead, _, hgridRead⟩ := Envelope.ofMembers_eq_ok.1 hms
  refine ⟨husable.consistent, fun n hn => ?_, fun c hc => ?_, fun t ht => ?_, ?_⟩
  · obtain ⟨found, hfound, _⟩ := husable.nodeIds n.id (List.mem_map_of_mem hn)
    exact ⟨found, hfound⟩
  · obtain ⟨found, hfound, _⟩ := husable.connectionIds c.id (List.mem_map_of_mem hc)
    exact ⟨found, hfound⟩
  · rw [htypes] at ht
    rcases Schema.exists_of_optional htypesRead with hnone | ⟨w, hw⟩
    · rw [hnone] at ht
      cases ht
    · obtain ⟨u, hu⟩ := Schema.exists_of_listOf hw ht
      exact NodeType.isReadable_of_check hu
  · rw [hgrid]
    cases hg : e.grid with
    | none => decide
    | some g =>
      rw [hg] at hgridRead
      rcases Schema.exists_of_optional hgridRead with hnone | ⟨w, hw⟩
      · cases hnone
      · exact GridSettings.one_le_of_nullable hw

end Document

namespace Value

theorem anyHasBytes_eq_false {vs : List Value} : anyHasBytes vs = false ↔ ∀ v ∈ vs, v.hasBytes = false := by
  induction vs with
  | nil => simp [anyHasBytes]
  | cons v r ih => simp [anyHasBytes, ih]

theorem anyMemberHasBytes_eq_false {ms : Table Value} : anyMemberHasBytes ms = false ↔ ∀ m ∈ ms, m.2.hasBytes = false := by
  induction ms with
  | nil => simp [anyMemberHasBytes]
  | cons m r ih =>
    obtain ⟨k, v⟩ := m
    simp [anyMemberHasBytes, ih]

end Value

/-- Are the values that nodes and types hold free of bytes? -/
def Snapshot.IsPlain (s : Snapshot) : Prop :=
  (∀ n ∈ s.nodes, ∀ p ∈ n.properties, p.2.hasBytes = false) ∧
    ∀ t ∈ s.customTypes, ∀ p ∈ t.properties, p.default.hasBytes = false

theorem Snapshot.isWritable_of_isPlain {s : Snapshot} (h : s.IsPlain) : s.isWritable := by
  have hnodes : ∀ n ∈ s.nodes, n.toValue.hasBytes = false := fun n hn => by
    have hproperties := Value.anyMemberHasBytes_eq_false.2 (h.1 n hn)
    simp [Node.toValue, Node.toMembers, Value.hasBytes, Value.anyMemberHasBytes, hproperties]
  have htypes : ∀ t ∈ s.customTypes, t.toValue.hasBytes = false := fun t ht => by
    have hproperties : ∀ p ∈ t.properties, p.toValue.hasBytes = false := fun p hp => by
      simp [PropertyDef.toValue, Value.hasBytes, Value.anyMemberHasBytes, h.2 t ht p hp]
    have hall := Value.anyHasBytes_eq_false.2 (List.forall_mem_map.2 hproperties)
    cases hlimit : t.maxChildren <;> simp [NodeType.toValue, Value.hasBytes, Value.anyMemberHasBytes, hlimit, hall]
  have hallNodes := Value.anyHasBytes_eq_false.2 (List.forall_mem_map.2 hnodes)
  have hallTypes := Value.anyHasBytes_eq_false.2 (List.forall_mem_map.2 htypes)
  have hconnections : Value.anyHasBytes (s.connections.map Connection.toValue) = false :=
    Value.anyHasBytes_eq_false.2 (List.forall_mem_map.2 fun _ _ => rfl)
  have hcollapsed : Value.anyMemberHasBytes (s.collapsed.map fun c => (c.1, .bool c.2)) = false :=
    Value.anyMemberHasBytes_eq_false.2 (List.forall_mem_map.2 fun _ _ => rfl)
  simp [isWritable, toValue, GridSettings.toValue, GridSettings.toMembers, Value.hasBytes, Value.anyMemberHasBytes, hallNodes,
    hallTypes, hconnections, hcollapsed]

end BehaviorTree
