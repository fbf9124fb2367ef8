import BehaviorTree.Proofs.Catalog.Reachable
import BehaviorTree.Proofs.Distinct
import BehaviorTree.Proofs.Table

/-!
The two tables of a catalog. One knows the types by category and name, the other knows where each name comes from. Whatever is added and
discovered, and wherever a discovery fails, they know the same types, each of them once.
-/

set_option autoImplicit false

namespace BehaviorTree.Catalog

variable {c d : Catalog} {t : NodeType} {type category : String} {entryPoints : List EntryPoint}

/-- Is each type under its own category and name, no name there twice, and does every name have an origin? -/
structure IsPaired (c : Catalog) : Prop where
  keyed : c.Filled fun _ => True
  apart : (c.types.map fun e => e.2.type).Nodup
  named : ∀ type, type ∈ Table.keys c.origins ↔ type ∈ c.types.map fun e => e.2.type

theorem lasts_isPaired : Lasts (fun _ => True) IsPaired := by
  intro c d origin t hc _ h
  have hkeyed := lasts_filled c d origin t hc.keyed trivial h
  unfold register at h
  split at h
  · cases h
  · rename_i hfresh
    obtain rfl := Except.ok.inj h
    have hkeys : t.type ∉ Table.keys c.origins := Table.lookup_eq_none.1 hfresh
    refine ⟨hkeyed, ?_, fun type => ?_⟩
    · rw [List.map_append]
      exact List.nodup_append_comm.2 (List.nodup_cons.2 ⟨fun ht => hkeys ((hc.named _).2 ht), hc.apart⟩)
    · rw [Table.keys_insert, if_neg hkeys, List.map_append, List.mem_append, List.mem_append, hc.named]
      rfl

theorem isPaired_empty (plugins : List Plugin) : IsPaired { types := [], origins := [], plugins := plugins } where
  keyed := fun _ he => absurd he List.not_mem_nil
  apart := List.nodup_nil
  named _ := Iff.rfl

theorem Reachable.isPaired (h : Reachable c) : c.IsPaired :=
  lasts_isPaired.reachable (fun _ _ => trivial) (fun _ _ _ => trivial) isPaired_empty
    (fun _ _ hc => ⟨hc.keyed, hc.apart, hc.named⟩) h

theorem list_none (c : Catalog) : c.list none = c.types.map Prod.snd := by
  have hall : (c.types.filter fun e => Option.all (· = e.1.1) none) = c.types := List.filter_eq_self.2 fun _ _ => rfl
  rw [list, hall]

theorem list_some (c : Catalog) (category : String) :
    c.list (some category) = (c.types.filter fun e => e.1.1 = category).map Prod.snd := by
  rw [list]
  refine congrArg _ (List.filter_congr fun e _ => ?_)
  exact decide_eq_decide.2 eq_comm

theorem types_list (c : Catalog) : (c.list none).map NodeType.type = c.types.map fun e => e.2.type := by
  rw [list_none, List.map_map]
  rfl

theorem IsPaired.isRegistered_iff (h : c.IsPaired) : c.isRegistered type = true ↔ ∃ t ∈ c.list none, t.type = type := by
  rw [isRegistered, Table.holds_iff, h.named, ← types_list, List.mem_map]

theorem IsPaired.of_find? {e : (String × String) × NodeType} (h : c.IsPaired)
    (he : c.types.find? (fun e => e.1 = (category, type)) = some e) : e ∈ c.types ∧ e.2.type = type ∧ e.2.category = category := by
  have hmem := List.mem_of_find?_eq_some he
  have hkey : e.1 = (category, type) := by simpa using List.find?_some he
  obtain ⟨hcategory, htype⟩ := Prod.mk.inj ((h.keyed e hmem).1.symm.trans hkey)
  exact ⟨hmem, htype, hcategory⟩

theorem IsPaired.find?_eq_some (h : c.IsPaired) :
    c.find? [] type category = some t ↔ t ∈ c.list none ∧ t.type = type ∧ t.category = category := by
  unfold find?
  rw [list_none]
  constructor
  · intro hfound
    split at hfound
    · rename_i e he
      obtain rfl := Option.some.inj hfound
      obtain ⟨hmem, hnames⟩ := h.of_find? he
      exact ⟨List.mem_map_of_mem hmem, hnames⟩
    · cases hfound
  · rintro ⟨hmem, rfl, rfl⟩
    obtain ⟨e, he, rfl⟩ := List.mem_map.1 hmem
    split
    · rename_i f hf
      obtain ⟨hmem, htype, -⟩ := h.of_find? hf
      rw [List.inj_on_of_nodup_map h.apart hmem he htype]
    · rename_i hnone
      exact absurd (decide_eq_true (h.keyed e he).1) (List.find?_eq_none.1 hnone e he)

theorem listed_by_category (c : Catalog) : (c.categories.flatMap fun category => c.list (some category)).Perm (c.list none) := by
  have hcategories : ∀ e ∈ c.types, e.1.1 ∈ c.categories := fun e he => List.mem_eraseDups.2 (List.mem_map_of_mem he)
  have hdistinct : c.categories.Nodup := nodup_eraseDups _
  have hmapped := (flatMap_filter_perm c.types (·.1.1) hdistinct hcategories).map Prod.snd
  rw [List.map_flatMap] at hmapped
  rw [list_none]
  exact (List.Perm.of_eq (List.flatMap_congr fun category _ => list_some c category)).trans hmapped

theorem lasts_plugins (plugins : List Plugin) : Lasts (fun _ => True) fun c => c.plugins = plugins := by
  intro c d origin t hc _ h
  unfold register at h
  split at h
  · cases h
  · obtain rfl := Except.ok.inj h
    exact hc

theorem plugins_discover (entryPoints : List EntryPoint) (c : Catalog) : (discover entryPoints c).2.plugins = c.plugins :=
  (lasts_plugins c.plugins).discover (fun _ _ => trivial) (fun _ _ _ => trivial) rfl

theorem discover_congr (h : d.plugins = c.plugins) : discover entryPoints d = discover entryPoints c := by
  unfold discover
  rw [h]

/-- In a reachable catalog each type stands under its own category and name and no name stands there twice. Its answers agree: a name is
registered exactly if a type has it, a type is found exactly by its category and name, the lists of the categories make up the list of all
types. To discover again with the same plugins gives the same types in the same order. -/
theorem reachable_catalogs_agree (h : Reachable c) :
    (∀ e ∈ c.types, e.1 = (e.2.category, e.2.type)) ∧
      ((c.list none).map NodeType.type).Nodup ∧
      (∀ type, c.isRegistered type = true ↔ ∃ t ∈ c.list none, t.type = type) ∧
      (∀ type category t, c.find? [] type category = some t ↔ t ∈ c.list none ∧ t.type = type ∧ t.category = category) ∧
      (c.categories.flatMap fun category => c.list (some category)).Perm (c.list none) ∧
      ∀ entryPoints d, d.plugins = c.plugins →
        let found := discover entryPoints c
        let again := discover entryPoints d
        found.2.plugins = c.plugins ∧ again.1 = found.1 ∧ again.2.list none = found.2.list none := by
  have hpaired := h.isPaired
  refine ⟨fun e he => (hpaired.keyed e he).1, ?_, fun _ => hpaired.isRegistered_iff, fun _ _ _ => hpaired.find?_eq_some,
    listed_by_category c, fun entryPoints d hd => ?_⟩
  · rw [types_list]
    exact hpaired.apart
  · intro found again
    have hsame : again = found := discover_congr hd
    exact ⟨plugins_discover entryPoints c, congrArg Prod.fst hsame, by rw [hsame]⟩

def clashingPlugin : Plugin :=
  ⟨"robot", .list [.object [("type", .text "MoveTo"), ("category", .text "action")],
    .object [("type", .text "Sequence"), ("category", .text "composite")]]⟩

theorem clashing_catalog_agrees :
    let found := discover [] (addPlugin {} clashingPlugin)
    (found.1.isOk = false) ∧ Reachable found.2 ∧ found.2.isRegistered "MoveTo" = true ∧
      ((found.2.list none).map NodeType.type).Nodup ∧
      (found.2.categories.flatMap fun category => found.2.list (some category)).Perm (found.2.list none) := by
  intro found
  have hreachable : Reachable found.2 := .discover [] _ (.addPlugin {} _ .empty)
  obtain ⟨-, hapart, hregistered, -, hlists, -⟩ := reachable_catalogs_agree hreachable
  refine ⟨by decide, hreachable, by decide, hapart, hlists⟩

end BehaviorTree.Catalog
