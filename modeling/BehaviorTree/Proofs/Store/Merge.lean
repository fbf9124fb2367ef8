import BehaviorTree.Proofs.Result
import BehaviorTree.Proofs.Table
import BehaviorTree.Store.Merge

/-!
What an update leaves alone. A node keeps its id, its type and its category under every update that names none of them.
-/

set_option autoImplicit false

namespace BehaviorTree

variable {n m : Node} {ms updates : Table Value}

structure Node.Kind where
  id : String
  type : String
  category : String
  deriving DecidableEq

def Node.kind (n : Node) : Node.Kind := ⟨n.id, n.type, n.category⟩

namespace Schema

theorem required_text {name s t : String} (h : Table.lookup ms name = some (.text s)) (hr : required ms name text = .ok t) :
    t = s := by
  simp only [required, h, text, Value.scalar?, readText, Checked.ofCause, Checked.below] at hr
  exact (Except.ok.inj hr).symm

end Schema

theorem Node.ofMembers_eq_ok (h : Node.ofMembers ms = .ok m) :
    Schema.required ms "id" Schema.text = .ok m.id ∧ Schema.required ms "type" Schema.text = .ok m.type ∧
      Schema.required ms "category" Schema.text = .ok m.category ∧
        Schema.optional ms "properties" [] Schema.object = .ok m.properties := by
  unfold Node.ofMembers at h
  dsimp only at h
  split at h
  · obtain rfl := Except.ok.inj h
    exact ⟨‹_›, ‹_›, ‹_›, ‹_›⟩
  · cases h

theorem Node.kind_of_members {id type category : String} (h : Node.ofMembers ms = .ok m)
    (hid : Table.lookup ms "id" = some (.text id)) (htype : Table.lookup ms "type" = some (.text type))
    (hcategory : Table.lookup ms "category" = some (.text category)) : m.kind = ⟨id, type, category⟩ := by
  obtain ⟨hi, ht, hc, _⟩ := Node.ofMembers_eq_ok h
  rw [Node.kind, Schema.required_text hid hi, Schema.required_text htype ht, Schema.required_text hcategory hc]

def SparesKind (updates : Table Value) : Prop := ∀ k ∈ Table.keys updates, k ≠ "id" ∧ k ≠ "type" ∧ k ≠ "category"

namespace Merge

theorem keeps_iff {field current : String} :
    keeps updates field current = true ↔ ∀ u ∈ updates, u.1 = field → u.2 = .text current := by
  have htext (v : Value) : v.text? = some current ↔ v = .text current := by cases v <;> simp [Value.text?]
  simp only [keeps, List.all_eq_true, Bool.or_eq_true, decide_eq_true_eq, beq_iff_eq, htext, imp_iff_not_or, ne_eq]

def members (n : Node) (updates properties : Table Value) : Table Value :=
  Table.insert (Table.overlay n.toMembers updates) "properties" (.object properties)

theorem node_eq_ok (h : node n updates = .ok m) : ∃ ps, keeps updates "id" n.id = true ∧
    keeps updates "category" n.category = true ∧ properties n updates = .ok (ps, []) ∧
      Node.ofMembers (members n updates ps) = .ok m := by
  unfold node at h
  split_ifs at h with hid hcategory
  split at h
  · cases h
  rename_i ps problems hps
  dsimp only at h
  split at h
  · rename_i merged hmerged
    obtain rfl := Except.ok.inj h
    exact ⟨ps, by simpa using hid, by simpa using hcategory, hps, hmerged⟩
  · cases h

theorem lookup_members {ps : Table Value} {k : String} (hk : k ≠ "properties") :
    Table.lookup (members n updates ps) k = Table.lookup (Table.overlay n.toMembers updates) k := by
  rw [members, Table.lookup_insert, if_neg hk.symm]

theorem node_kind (h : node n updates = .ok m) (hu : SparesKind updates) : m.kind = n.kind := by
  obtain ⟨ps, _, _, _, hmerged⟩ := node_eq_ok h
  have hspared : ∀ k v, Table.lookup n.toMembers k = some v → k ≠ "properties" → k ∉ Table.keys updates →
      Table.lookup (members n updates ps) k = some v := by
    intro k v hv hp hk
    rw [lookup_members hp, Table.lookup_overlay_of_notMem hk, hv]
  exact Node.kind_of_members hmerged
    (hspared "id" _ rfl (by decide) fun hk => (hu _ hk).1 rfl)
    (hspared "type" _ rfl (by decide) fun hk => (hu _ hk).2.1 rfl)
    (hspared "category" _ rfl (by decide) fun hk => (hu _ hk).2.2 rfl)

theorem lookup_members_of_keeps {ps : Table Value} {field current : String} (hfield : field ≠ "properties")
    (hnow : Table.lookup n.toMembers field = some (.text current)) (hkeeps : keeps updates field current = true) :
    Table.lookup (members n updates ps) field = some (.text current) := by
  rw [lookup_members hfield]
  exact Table.lookup_overlay_of_same hnow (keeps_iff.1 hkeeps)

theorem node_id (h : node n updates = .ok m) : m.id = n.id := by
  obtain ⟨ps, hid, _, _, hmerged⟩ := node_eq_ok h
  exact Schema.required_text (lookup_members_of_keeps (by decide) rfl hid) (Node.ofMembers_eq_ok hmerged).1

theorem node_category (h : node n updates = .ok m) : m.category = n.category := by
  obtain ⟨ps, _, hcategory, _, hmerged⟩ := node_eq_ok h
  exact Schema.required_text (lookup_members_of_keeps (by decide) rfl hcategory) (Node.ofMembers_eq_ok hmerged).2.2.1

theorem keys_prefix_overlay (base : Table Value) (rows : List (Value × Value)) :
    Table.keys base <+: Table.keys (overlay base rows).1 := by
  induction rows generalizing base with
  | nil => exact List.prefix_rfl
  | cons r rows ih =>
    obtain ⟨k, v⟩ := r
    rw [overlay]
    split
    · exact (Table.keys_prefix_insert _ _ _).trans (ih _)
    · exact ih base

theorem keys_prefix_properties {ps : Table Value} {problems : List Schema.Problem}
    (h : properties n updates = .ok (ps, problems)) : Table.keys n.properties <+: Table.keys ps := by
  unfold properties at h
  split at h
  · cases h
    exact List.prefix_rfl
  · split_ifs at h
    · obtain ⟨rows, _, hrows⟩ := map_eq_ok.1 h
      have hkeys := keys_prefix_overlay n.properties (distinctRows rows)
      rwa [hrows] at hkeys
    · cases h
      exact List.prefix_rfl

theorem keys_prefix_node (h : node n updates = .ok m) : Table.keys n.properties <+: Table.keys m.properties := by
  obtain ⟨ps, _, _, hps, hmerged⟩ := node_eq_ok h
  have hread := (Node.ofMembers_eq_ok hmerged).2.2.2
  have hlookup : Table.lookup (members n updates ps) "properties" = some (.object ps) := by
    rw [members, Table.lookup_insert, if_pos rfl]
  rw [Schema.optional, hlookup] at hread
  obtain rfl : ps = m.properties := Except.ok.inj hread
  exact keys_prefix_properties hps

end Merge

end BehaviorTree
