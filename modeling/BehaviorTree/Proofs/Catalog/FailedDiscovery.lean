import BehaviorTree.Proofs.Catalog.Consistency

/-!
Discoveries that fail. A discovery empties the catalog before it looks at anything, and what it comes across before a fault stays
registered. So a catalog answers as before only if it knew just these types.
-/

set_option autoImplicit false

namespace BehaviorTree.Catalog

abbrev Offers := List (Except Fault NodeType)

/-- The types before the first that cannot be registered: one that is faulty, or whose name is taken. -/
def registrable (taken : List String) : Offers → List NodeType
  | .ok t :: r => if t.type ∈ taken then [] else t :: registrable (taken ++ [t.type]) r
  | _ => []

/-- What plugins offer, one after the other, up to a plugin whose types are no sequence. -/
def offered : List Plugin → Offers
  | [] => []
  | p :: r =>
    match Plugin.offers p with
    | .error e => [.error e]
    | .ok offers => offers ++ offered r

/-- All that a discovery goes through: the standard types, the plugins, the entry points. -/
def everything (entryPoints : List EntryPoint) (c : Catalog) : Offers :=
  builtinTypes.map .ok ++ offered (c.plugins ++ loadable (builtinOrigin :: c.plugins.map Plugin.name) entryPoints)

/-- The types that a discovery comes across before a fault. If a plugin is named twice, that is the fault, and there are none. -/
def gathered (entryPoints : List EntryPoint) (c : Catalog) : List NodeType :=
  match repeatedName? [builtinOrigin] (c.plugins.map Plugin.name) with
  | some _ => []
  | none => registrable [] (everything entryPoints c)

/-- The types that a catalog knows, and those of the offered ones that can be added to them. -/
def extended (c : Catalog) (offers : Offers) : List NodeType := c.list none ++ registrable (Table.keys c.origins) offers

def AdmitsAll (c : Catalog) (offers : Offers) : Prop := (registrable (Table.keys c.origins) offers).map .ok = offers

/-- What has been registered, and with which result, if so much is to be added to a catalog. -/
structure Adds (c : Catalog) (offers : Offers) (r : Except Fault Unit × Catalog) : Prop where
  types : r.2.list none = extended c offers
  succeeds : r.1 = .ok () ↔ c.AdmitsAll offers

variable {c d : Catalog} {t : NodeType} {origin : String} {offers rest : Offers} {ps : List Plugin} {entryPoints : List EntryPoint}

theorem register_eq_ok : register origin c t = .ok d ↔ t.type ∉ Table.keys c.origins ∧
    d = { c with types := c.types ++ [((t.category, t.type), t)], origins := Table.insert c.origins t.type origin } := by
  rw [register, ← Table.lookup_eq_none]
  cases Table.lookup c.origins t.type with
  | none => exact ⟨fun h => ⟨rfl, (Except.ok.inj h).symm⟩, fun h => congrArg Except.ok h.2.symm⟩
  | some existing => exact ⟨nofun, fun h => nomatch h.1⟩

theorem registrable_of_register (h : register origin c t = .ok d) :
    registrable (Table.keys c.origins) (.ok t :: rest) = t :: registrable (Table.keys d.origins) rest := by
  obtain ⟨hfresh, rfl⟩ := register_eq_ok.1 h
  rw [registrable, if_neg hfresh, Table.keys_insert, if_neg hfresh]

theorem registrable_of_register_eq_error {e : Fault} (h : register origin c t = .error e) :
    registrable (Table.keys c.origins) (.ok t :: rest) = [] := by
  have htaken : t.type ∈ Table.keys c.origins := by
    by_contra hfresh
    rw [register_eq_ok.2 ⟨hfresh, rfl⟩] at h
    cases h
  rw [registrable, if_pos htaken]

theorem Adds.of_register {r : Except Fault Unit × Catalog} (h : register origin c t = .ok d) (hr : Adds d rest r) :
    Adds c (.ok t :: rest) r where
  types := by
    obtain ⟨-, rfl⟩ := register_eq_ok.1 h
    rw [hr.types, extended, extended, registrable_of_register h, list_none, list_none, List.map_append, List.append_assoc]
    rfl
  succeeds := by
    rw [hr.succeeds, AdmitsAll, AdmitsAll, registrable_of_register h, List.map_cons, List.cons_inj_right]

theorem adds_nothing {e : Fault} {offer : Except Fault NodeType} (h : registrable (Table.keys c.origins) (offer :: rest) = []) :
    Adds c (offer :: rest) (.error e, c) where
  types := by rw [extended, h, List.append_nil]
  succeeds := iff_of_false nofun (by rw [AdmitsAll, h]; exact nofun)

/-- If all of the first offers are registered, the rest is added to the catalog with them; otherwise the fault ends it. -/
theorem adds_registerAll (origin : String) (c : Catalog) (offers : Offers) {f : Catalog → Except Fault Unit × Catalog}
    (hf : ∀ d, Adds d rest (f d)) :
    Adds c (offers ++ rest) (match registerAll origin c offers with | (.ok (), d) => f d | (.error e, d) => (.error e, d)) := by
  induction offers generalizing c with
  | nil => exact hf c
  | cons offer r ih =>
    cases offer with
    | error e => exact adds_nothing rfl
    | ok t =>
      rw [registerAll]
      cases hregister : register origin c t with
      | error e => exact adds_nothing (registrable_of_register_eq_error hregister)
      | ok d => exact .of_register hregister (ih d)

theorem adds_collectPlugins (ps : List Plugin) (c : Catalog) : Adds c (offered ps) (collectPlugins c ps) := by
  induction ps generalizing c with
  | nil => exact ⟨(List.append_nil _).symm, iff_of_true rfl rfl⟩
  | cons p r ih =>
    rw [collectPlugins, offered]
    cases Plugin.offers p with
    | error e => exact adds_nothing rfl
    | ok offers => exact adds_registerAll _ c offers ih

/-- Failed or not, a discovery leaves just the types that it came across before a fault, and it fails unless these are all. -/
theorem discover_gathers (entryPoints : List EntryPoint) (c : Catalog) :
    (discover entryPoints c).2.list none = gathered entryPoints c ∧
      ((discover entryPoints c).1 = .ok () ↔ (gathered entryPoints c).map .ok = everything entryPoints c) := by
  unfold discover gathered everything
  dsimp only
  cases repeatedName? [builtinOrigin] (c.plugins.map Plugin.name) with
  | some name => exact ⟨rfl, iff_of_false nofun nofun⟩
  | none =>
    dsimp only
    generalize builtinTypes.map Except.ok = offers
    generalize c.plugins ++ loadable (builtinOrigin :: c.plugins.map Plugin.name) entryPoints = ps
    have hadds := adds_registerAll builtinOrigin { types := [], origins := [], plugins := c.plugins } offers (adds_collectPlugins ps)
    generalize registerAll builtinOrigin { types := [], origins := [], plugins := c.plugins } offers = r at hadds ⊢
    obtain ⟨_ | _, _⟩ := r <;> exact ⟨hadds.types, hadds.succeeds⟩

/-- Do two catalogs list the same types and categories, and find and know the same ones? -/
structure AnswersAlike (c d : Catalog) : Prop where
  lists : ∀ category, c.list category = d.list category
  categories : c.categories = d.categories
  finds : ∀ customTypes type category, c.findBy? customTypes type category = d.findBy? customTypes type category
  knows : ∀ type, c.isRegistered type = d.isRegistered type

theorem IsPaired.types_eq (h : c.IsPaired) : c.types = (c.list none).map fun t => ((t.category, t.type), t) := by
  rw [list_none, List.map_map]
  refine ((List.map_congr_left fun e he => ?_).trans (List.map_id _)).symm
  exact Prod.ext (h.keyed e he).1.symm rfl

theorem IsPaired.answersAlike_iff (hc : c.IsPaired) (hd : d.IsPaired) : AnswersAlike c d ↔ c.list none = d.list none := by
  refine ⟨fun h => h.lists none, fun hlist => ?_⟩
  have htypes : c.types = d.types := by rw [hc.types_eq, hd.types_eq, hlist]
  exact {
    lists := fun category => by rw [list, list, htypes]
    categories := by rw [categories, categories, htypes]
    finds := fun customTypes type category => by simp only [findBy?, find?, htypes]
    knows := fun type => by rw [Bool.eq_iff_iff, hc.isRegistered_iff, hd.isRegistered_iff, hlist] }

/-- A discovery fails unless everything that it goes through can be registered; the types before the fault stay registered, whatever
the catalog knew before, and no others. So it leaves the answers of the catalog as they were exactly if just these types were known. -/
theorem discovery_leaves_iff (h : Reachable c) (entryPoints : List EntryPoint) :
    let found := discover entryPoints c
    (found.1 = .ok () ↔ (gathered entryPoints c).map .ok = everything entryPoints c) ∧
      found.2.list none = gathered entryPoints c ∧
      (AnswersAlike found.2 c ↔ c.list none = gathered entryPoints c) := by
  intro found
  obtain ⟨hlist, hsucceeds⟩ := discover_gathers entryPoints c
  have hfound : found.2.IsPaired := (Reachable.discover entryPoints c h).isPaired
  refine ⟨hsucceeds, hlist, ?_⟩
  rw [hfound.answersAlike_iff h.isPaired, hlist, eq_comm]

/-- A discovery that has failed once fails again with the same plugins, and then changes nothing. -/
theorem clash_found_again :
    let found := discover [] (addPlugin {} clashingPlugin)
    let again := discover [] found.2
    Reachable found.2 ∧ again.1.isOk = false ∧ again.2.isRegistered "MoveTo" = true ∧ AnswersAlike again.2 found.2 := by
  intro found again
  have hreachable : Reachable found.2 := .discover [] _ (.addPlugin {} _ .empty)
  obtain ⟨-, -, hleaves⟩ := discovery_leaves_iff hreachable []
  refine ⟨hreachable, by decide, by decide, hleaves.2 ?_⟩
  exact (discover_gathers [] (addPlugin {} clashingPlugin)).1

/-- The new type of a plugin stays registered when its other type is refused. -/
theorem clash_leaves_new_type :
    let before := standard.addPlugin clashingPlugin
    let found := discover [] before
    Reachable before ∧ found.1.isOk = false ∧ before.isRegistered "MoveTo" = false ∧ found.2.isRegistered "MoveTo" = true ∧
      (before.list none).length = 23 ∧ (found.2.list none).length = 24 :=
  ⟨.addPlugin _ _ standard_reachable, by decide, by decide, by decide, by decide, by decide⟩

end BehaviorTree.Catalog
