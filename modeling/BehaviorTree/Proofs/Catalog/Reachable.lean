import BehaviorTree.Catalog.Basic
import BehaviorTree.Proofs.Result
import Mathlib.Tactic.SplitIfs

/-!
Reachable catalogs. A catalog is filled by adding plugins and by discovery only, and so whatever holds of the standard types and of
everything that passes the check of a type holds of all its types. Limits on children, for one thing, are never negative. Each type is
found by its own category and name.
-/

set_option autoImplicit false

namespace BehaviorTree

namespace NodeType

def LimitNonneg (t : NodeType) : Prop := ∀ limit, t.maxChildren = some limit → 0 ≤ limit

instance (t : NodeType) : Decidable t.LimitNonneg :=
  match h : t.maxChildren with
  | none => isTrue fun limit hl => by simp [h] at hl
  | some n => decidable_of_iff (0 ≤ n) ⟨fun hn limit hl => by simp_all, fun ht => ht n h⟩

theorem limits_of_category_nonneg (category : String) (limit : Int)
    (h : (ChildLimits.ofCategory category).maxChildren = some limit) : 0 ≤ limit := by
  unfold ChildLimits.ofCategory at h
  split_ifs at h
  · obtain rfl := Option.some.inj h
    decide
  · obtain rfl := Option.some.inj h
    decide

theorem nullable_childCount_nonneg {v : Value} {limit : Int} (h : Schema.nullable childCount v = .ok (some limit)) : 0 ≤ limit := by
  unfold Schema.nullable at h
  split at h
  · cases h
  · obtain ⟨i, hi, he⟩ := map_eq_ok.1 h
    obtain rfl := Option.some.inj he
    unfold childCount Schema.atLeast at hi
    split at hi
    · split_ifs at hi with hneg
      · cases hi
      · obtain rfl := Except.ok.inj hi
        omega
    · cases hi

theorem limit_nonneg_of_read {ms : Table Value} {category : String} {limit : Int}
    (h : eitherName ms "maxChildren" "max_children" (ChildLimits.ofCategory category).maxChildren
      (Schema.nullable childCount) = .ok (some limit)) : 0 ≤ limit := by
  have hoptional (name : String) (ho : Schema.optional ms name (ChildLimits.ofCategory category).maxChildren
      (Schema.nullable childCount) = .ok (some limit)) : 0 ≤ limit := by
    unfold Schema.optional at ho
    split at ho
    · exact nullable_childCount_nonneg (Schema.Checked.below_eq_ok.1 ho)
    · exact limits_of_category_nonneg category limit (Except.ok.inj ho)
  unfold eitherName at h
  split_ifs at h
  · exact hoptional _ h
  · exact hoptional _ h

theorem ofMembers_limit_nonneg {ms : Table Value} {t : NodeType} (h : NodeType.ofMembers ms = .ok t) : t.LimitNonneg := by
  unfold NodeType.ofMembers at h
  dsimp only at h
  split at h
  · rename_i maxChildren _ _ _ _ _ _ _ hmax _ _ _ _
    obtain rfl := Except.ok.inj h
    intro limit (hl : maxChildren = some limit)
    exact limit_nonneg_of_read (hl ▸ hmax)
  · cases h

theorem ofValue_limit_nonneg {v : Value} {t : NodeType} (h : NodeType.ofValue v = .ok t) : t.LimitNonneg := by
  rw [NodeType.ofValue, Schema.Checked.report_eq_ok, NodeType.check, Schema.Checked.andThen_eq_ok] at h
  obtain ⟨ms, _, h⟩ := h
  exact ofMembers_limit_nonneg h

end NodeType

namespace Catalog

/-- What a catalog can be: it is empty at first, plugins are added to it, and it is filled anew, with or without success. -/
inductive Reachable : Catalog → Prop
  | empty : Reachable {}
  | addPlugin (c : Catalog) (p : Plugin) : Reachable c → Reachable (c.addPlugin p)
  | discover (entryPoints : List EntryPoint) (c : Catalog) : Reachable c → Reachable (discover entryPoints c).2

theorem standard_reachable : Reachable standard := .discover [] {} .empty

def Only (P : NodeType → Prop) (c : Catalog) : Prop := ∀ e ∈ c.types, P e.2

def Filled (P : NodeType → Prop) (c : Catalog) : Prop := ∀ e ∈ c.types, e.1 = (e.2.category, e.2.type) ∧ P e.2

variable {P : NodeType → Prop} {I : Catalog → Prop} {c d : Catalog} {origin : String} {entryPoints : List EntryPoint}

def Lasts (P : NodeType → Prop) (I : Catalog → Prop) : Prop :=
  ∀ c d origin t, I c → P t → register origin c t = .ok d → I d

theorem Lasts.registerAll {offers : List (Except Fault NodeType)} (h : Lasts P I) (hc : I c) (ho : ∀ t, .ok t ∈ offers → P t) :
    I (registerAll origin c offers).2 := by
  induction offers generalizing c with
  | nil => exact hc
  | cons offer r ih =>
    cases offer with
    | error e => exact hc
    | ok t =>
      rw [Catalog.registerAll]
      split
      · exact hc
      · rename_i d hd
        exact ih (h c d origin t hc (ho t List.mem_cons_self) hd) fun u hu => ho u (List.mem_cons_of_mem _ hu)

theorem only_offers {p : Plugin} {offers : List (Except Fault NodeType)} (hv : ∀ v t, NodeType.ofValue v = .ok t → P t)
    (h : Plugin.offers p = .ok offers) : ∀ t, .ok t ∈ offers → P t := by
  unfold Plugin.offers at h
  dsimp only at h
  split_ifs at h with htruthy
  · obtain rfl := Except.ok.inj h
    simp
  · split at h
    · obtain rfl := Except.ok.inj h
      intro t ht
      obtain ⟨v, _, hread⟩ := List.mem_map.1 ht
      exact hv v t (mapError_eq_ok.1 hread)
    · cases h

theorem Lasts.collectPlugins {ps : List Plugin} (h : Lasts P I) (hv : ∀ v t, NodeType.ofValue v = .ok t → P t) (hc : I c) :
    I (collectPlugins c ps).2 := by
  induction ps generalizing c with
  | nil => exact hc
  | cons p r ih =>
    rw [Catalog.collectPlugins]
    split
    · exact hc
    · rename_i offers ho
      have hall : I (Catalog.registerAll p.name c offers).2 := h.registerAll hc (only_offers hv ho)
      split
      · rename_i hr
        rw [hr] at hall
        exact ih hall
      · rename_i hr
        rw [hr] at hall
        exact hall

theorem Lasts.discover (h : Lasts P I) (hb : ∀ t ∈ builtinTypes, P t) (hv : ∀ v t, NodeType.ofValue v = .ok t → P t)
    (hempty : I { types := [], origins := [], plugins := c.plugins }) : I (discover entryPoints c).2 := by
  have hfilled : I (Catalog.registerAll builtinOrigin { types := [], origins := [], plugins := c.plugins } (builtinTypes.map .ok)).2 :=
    h.registerAll hempty fun t ht => by
      obtain ⟨u, hu, he⟩ := List.mem_map.1 ht
      exact Except.ok.inj he ▸ hb u hu
  unfold Catalog.discover
  dsimp only
  split
  · exact hempty
  · split
    · rename_i hr
      rw [hr] at hfilled
      exact hfilled
    · rename_i hr
      rw [hr] at hfilled
      exact h.collectPlugins hv hfilled

/-- What holds of catalogs without types and lasts holds of all that are reachable, if it has nothing to do with the plugins. -/
theorem Lasts.reachable (h : Lasts P I) (hb : ∀ t ∈ builtinTypes, P t) (hv : ∀ v t, NodeType.ofValue v = .ok t → P t)
    (hempty : ∀ plugins, I { types := [], origins := [], plugins := plugins }) (hplugin : ∀ c p, I c → I (c.addPlugin p))
    (hc : Reachable c) : I c := by
  induction hc with
  | empty => exact hempty []
  | addPlugin c p _ ih => exact hplugin c p ih
  | discover entryPoints c _ _ => exact h.discover hb hv (hempty c.plugins)

theorem lasts_filled : Lasts P (Filled P) := by
  intro c d origin t hc ht h
  unfold register at h
  split at h
  · cases h
  · obtain rfl := Except.ok.inj h
    intro e he
    rcases List.mem_append.1 he with he | he
    · exact hc e he
    · rw [List.mem_singleton.1 he]
      exact ⟨rfl, ht⟩

theorem Reachable.filled (h : Reachable c) (hb : ∀ t ∈ builtinTypes, P t) (hv : ∀ v t, NodeType.ofValue v = .ok t → P t) :
    c.Filled P :=
  lasts_filled.reachable hb hv (fun _ => by simp [Filled]) (fun _ _ hc => hc) h

theorem Reachable.limits_nonneg (h : Reachable c) : c.Only NodeType.LimitNonneg := fun e he =>
  (h.filled (by decide) (fun _ _ => NodeType.ofValue_limit_nonneg) e he).2

theorem Reachable.keyed (h : Reachable c) : c.Filled fun _ => True := h.filled (fun _ _ => trivial) fun _ _ _ => trivial

end Catalog

end BehaviorTree
