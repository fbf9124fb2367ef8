import BehaviorTree.Proofs.Xml.Reading
import BehaviorTree.Proofs.Session.Loading

/-!
Exported documents read again. A session can be read back from its document exactly if types and keys are names, and if texts have legal
characters and no blanks but spaces: escaping takes care of markup only.
-/

set_option autoImplicit false

namespace BehaviorTree

open Markup Xml

/-- Can the node be written as an element, with names for its type and its keys, and without illegal characters? -/
structure Node.IsMarkup (n : Node) : Prop where
  type : isName n.type.toList = true
  keys : ∀ p ∈ keptProperties n, isName p.1.toList = true
  distinct : (Table.keys (keptProperties n)).Nodup
  name : IsLegalText n.name
  values : ∀ p ∈ keptProperties n, IsLegalText (formatValue p.2)

instance (n : Node) : Decidable n.IsMarkup :=
  decidable_of_iff (isName n.type.toList = true ∧ (∀ p ∈ keptProperties n, isName p.1.toList = true) ∧
      (Table.keys (keptProperties n)).Nodup ∧ IsLegalText n.name ∧ ∀ p ∈ keptProperties n, IsLegalText (formatValue p.2))
    ⟨fun ⟨type, keys, distinct, name, values⟩ => ⟨type, keys, distinct, name, values⟩,
      fun ⟨type, keys, distinct, name, values⟩ => ⟨type, keys, distinct, name, values⟩⟩

/-- Would the texts of the node be read as they are? -/
def Node.IsKept (n : Node) : Prop := Xml.IsKept n.name ∧ ∀ p ∈ keptProperties n, Xml.IsKept (formatValue p.2)

instance (n : Node) : Decidable n.IsKept :=
  inferInstanceAs (Decidable (Xml.IsKept n.name ∧ ∀ p ∈ keptProperties n, Xml.IsKept (formatValue p.2)))

/-- Can a document with these trees and types be written? -/
structure Xml.OfMarkup (forest : List Tree) (types : List NodeType) (version : String) : Prop where
  nodes : ∀ n ∈ Tree.walkAll forest, n.IsMarkup
  version : IsLegalText version
  types : ∀ t ∈ types, IsLegalText t.type

namespace Xml

variable {f : List Tree} {ts : List NodeType} {v : String} {n : Node} {c : Char} {s : String}

theorem isLegal_of_isNameChar (h : isNameChar c = true) : isLegal c = true := by
  have hranges : ∀ r ∈ nameStarts ++ nameRests, 0x20 ≤ r.1 ∧ (r.2 < 0xFFFE ∨ 0xFFFF < r.1) ∧ r.2 < Text.firstHalf := by decide
  have hwithin : ∃ r ∈ nameStarts ++ nameRests, r.1 ≤ c.toNat ∧ c.toNat ≤ r.2 := by
    simp only [isNameChar, isNameStart, isWithin, Bool.or_eq_true, List.any_eq_true, Bool.and_eq_true, decide_eq_true_eq] at h
    rcases h with ⟨r, hr, hc⟩ | ⟨r, hr, hc⟩
    · exact ⟨r, List.mem_append_left _ hr, hc⟩
    · exact ⟨r, List.mem_append_right _ hr, hc⟩
  obtain ⟨r, hr, hlow, hhigh⟩ := hwithin
  obtain ⟨hspace, hgap, hhalf⟩ := hranges r hr
  simp only [isLegal, Text.isHalf, Bool.or_eq_true, Bool.and_eq_true, Bool.not_eq_true', decide_eq_true_eq, decide_eq_false_iff_not]
  omega

theorem node_mem_walkAll {t : Tree} (ht : t ∈ f) : t.node ∈ Tree.walkAll f := by
  induction f with
  | nil => cases ht
  | cons u f ih =>
    rw [Tree.walkAll, List.mem_append]
    rcases List.mem_cons.1 ht with rfl | ht
    · obtain ⟨n, cs⟩ := t
      exact .inl List.mem_cons_self
    · exact .inr (ih ht)

theorem isLegalText_of_isName (h : isName s.toList = true) : IsLegalText s :=
  List.all_eq_true.2 fun c hc => isLegal_of_isNameChar (all_isNameChar h c hc)

theorem isMarkup_iff : n.IsMarkup ↔ (Tag.mk n.type (shown n)).IsNamed ∧ IsLegalTag ⟨n.type, shown n⟩ := by
  have hkeys : (Tag.mk n.type (shown n)).keys = "name" :: Table.keys (keptProperties n) := by simp [Tag.keys, shown, Table.keys]
  have hname : isName "name".toList = true := by decide
  have hfresh : "name" ∉ Table.keys (keptProperties n) := fun hmem => by
    obtain ⟨p, hp, hkey⟩ := List.mem_map.1 hmem
    simp [keptProperties, hkey] at hp
  constructor
  · intro h
    refine ⟨⟨h.type, ?_, ?_⟩, ⟨isLegalText_of_isName h.type, ?_⟩⟩
    · rw [hkeys]
      exact List.forall_mem_cons.2 ⟨hname, List.forall_mem_map.2 h.keys⟩
    · rw [hkeys]
      exact List.nodup_cons.2 ⟨hfresh, h.distinct⟩
    · exact List.forall_mem_cons.2 ⟨⟨isLegalText_of_isName hname, h.name⟩,
        List.forall_mem_map.2 fun p hp => ⟨isLegalText_of_isName (h.keys p hp), h.values p hp⟩⟩
  · rintro ⟨hnamed, hlegal⟩
    obtain ⟨hlegalName, hlegalRest⟩ := List.forall_mem_cons.1 hlegal.attributes
    have hnames := hnamed.keys
    have hdistinct := hnamed.distinct
    rw [hkeys] at hnames hdistinct
    exact {
      type := hnamed.name
      keys := fun p hp => (List.forall_mem_cons.1 hnames).2 p.1 (List.mem_map_of_mem hp)
      distinct := (List.nodup_cons.1 hdistinct).2
      name := hlegalName.2
      values := fun p hp => (List.forall_mem_map.1 hlegalRest p hp).2 }

theorem keepsValues_iff : KeepsValues ⟨n.type, shown n⟩ ↔ n.IsKept :=
  List.forall_mem_cons.trans (and_congr_right' List.forall_mem_map)

theorem isNamed_of_keys (tag : String) (keys : List String) {as : List (String × String)}
    (h : isName tag.toList = true ∧ (∀ k ∈ keys, isName k.toList = true) ∧ keys.Nodup) (has : as.map Prod.fst = keys) :
    (Tag.mk tag as).IsNamed := by
  subst has
  exact ⟨h.1, h.2.1, h.2.2⟩

theorem ofTags_isNamed (h : ∀ n ∈ Tree.walkAll f, (Tag.mk n.type (shown n)).IsNamed) : OfTags Tag.IsNamed f ts v where
  root := isNamed_of_keys "root" ["BTCPP_format"] (by decide) rfl
  trees := fun _ _ => isNamed_of_keys "BehaviorTree" ["ID"] (by decide) rfl
  nodes := h
  list := fun _ => isNamed_of_keys "TreeNodesModel" [] (by decide) rfl
  types := fun _ _ => isNamed_of_keys "Node" ["ID", "NodeType"] (by decide) rfl

theorem ofTags_isLegalTag_iff : OfTags IsLegalTag f ts v ↔
    (∀ n ∈ Tree.walkAll f, IsLegalTag ⟨n.type, shown n⟩) ∧ IsLegalText v ∧ ∀ t ∈ ts, IsLegalText t.type := by
  have hroot : IsLegalText "root" ∧ IsLegalText "BTCPP_format" := by decide
  have htree : IsLegalText "BehaviorTree" ∧ IsLegalText "ID" := by decide
  have htype : IsLegalText "TreeNodesModel" ∧ IsLegalText "Node" ∧ IsLegalText "NodeType" := by decide
  have hkeyword : ∀ category, IsLegalText (NodeType.categoryKeyword category) := fun category => by
    unfold NodeType.categoryKeyword
    split_ifs <;> decide
  constructor
  · exact fun h => ⟨h.nodes, (List.forall_mem_singleton.1 h.root.attributes).2,
      fun t ht => (List.forall_mem_cons.1 (h.types t ht).attributes).1.2⟩
  · rintro ⟨hnodes, hversion, htypes⟩
    have hnames : ∀ t ∈ f, IsLegalText t.node.name := fun t ht =>
      (List.forall_mem_cons.1 (hnodes t.node (node_mem_walkAll ht)).attributes).1.2
    exact {
      root := ⟨hroot.1, List.forall_mem_singleton.2 ⟨hroot.2, hversion⟩⟩
      trees := fun t ht => ⟨htree.1, List.forall_mem_singleton.2 ⟨htree.2, hnames t ht⟩⟩
      nodes := hnodes
      list := fun _ => ⟨htype.1, nofun⟩
      types := fun t ht => ⟨htype.2.1, List.forall_mem_cons.2 ⟨⟨htree.2, htypes t ht⟩,
        List.forall_mem_singleton.2 ⟨htype.2.2, hkeyword t.category⟩⟩⟩ }

theorem isLegalText_document_iff (hf : f ≠ []) : IsLegalText (document f ts v) ↔ OfTags IsLegalTag f ts v := by
  have hdeclaration : declaration.all isLegal = true := by decide
  rw [← documentOutline_all_iff, ← all_isLegal_lines 0, IsLegalText, toList_document hf, List.all_append, hdeclaration, Bool.true_and]

theorem mapAllValues_eq_map (g : String → String) (es : List Element) : mapAllValues g es = es.map (mapValues g) := by
  induction es with
  | nil => rfl
  | cons e es ih => rw [mapAllValues, ih, List.map_cons]

theorem children_mapValues (g : String → String) (e : Element) : (mapValues g e).children = e.children.map (mapValues g) := by
  cases e
  exact mapAllValues_eq_map ..

theorem tag_mapValues (g : String → String) (e : Element) : (mapValues g e).tag = e.tag := by
  cases e
  rfl

theorem treesIn_mapValues (g : String → String) (e : Element) : treesIn (mapValues g e) = (treesIn e).map (mapValues g) := by
  have hfilter : (fun c : Element => decide (c.tag = "BehaviorTree")) ∘ mapValues g = fun c => decide (c.tag = "BehaviorTree") := by
    funext c
    rw [Function.comp_apply, tag_mapValues]
  rw [treesIn, treesIn, children_mapValues, List.filter_map, hfilter, List.flatMap_map, List.map_flatMap]
  exact List.flatMap_congr fun c _ => children_mapValues g c

theorem all_children {P : Tag → Prop} {e : Element} (h : e.All P) : ∀ c ∈ e.children, c.All P := by
  cases e
  exact (Element.all_iff.1 h).2

theorem all_treesIn {P : Tag → Prop} {root : Element} (h : root.All P) : ∀ e ∈ treesIn root, e.All P := by
  intro e he
  obtain ⟨c, hc, he⟩ := List.mem_flatMap.1 he
  exact all_children (all_children h c (List.mem_filter.1 hc).1) e he

theorem OfMarkup.parse_eq (h : OfMarkup f ts v) (hf : f ≠ []) :
    parse (document f ts v) = some (mapValues readText (documentOutline f ts v)) := by
  have hlegal : OfTags IsLegalTag f ts v :=
    ofTags_isLegalTag_iff.2 ⟨fun n hn => (isMarkup_iff.1 (h.nodes n hn)).2, h.version, h.types⟩
  have hnamed : OfTags Tag.IsNamed f ts v := ofTags_isNamed fun n hn => (isMarkup_iff.1 (h.nodes n hn)).1
  exact parse_document hf ((isLegalText_document_iff hf).2 hlegal) (documentOutline_all_iff.2 hnamed)

theorem treesIn_read (f : List Tree) (ts : List NodeType) (v : String) :
    treesIn (mapValues readText (documentOutline f ts v)) = f.map (mapValues readText ∘ outline) := by
  rw [treesIn_mapValues, treesIn_documentOutline, List.map_map]

theorem read_eq_iff : f.map (mapValues readText ∘ outline) = f.map outline ↔ ∀ n ∈ Tree.walkAll f, n.IsKept := by
  simp only [← keepsValues_iff]
  rw [← outlines_all_iff, ← mapAllValues_eq_iff, mapAllValues_eq_map, outlines_eq_map, List.map_map]

/-- What is read has names where they should be, so that the trees cannot be read as they are if they have not. -/
theorem ofMarkup_of_parse {root : Element} (hf : f ≠ []) (hparse : parse (document f ts v) = some root)
    (hroot : treesIn root = f.map outline) : OfMarkup f ts v := by
  obtain ⟨hlegal, hrootNamed⟩ := parse_eq_some hparse
  have hnamed : ∀ n ∈ Tree.walkAll f, (Tag.mk n.type (shown n)).IsNamed := by
    rw [← outlines_all_iff, outlines_eq_map, ← hroot]
    exact all_treesIn hrootNamed
  obtain ⟨hnodes, hversion, htypes⟩ := ofTags_isLegalTag_iff.1 ((isLegalText_document_iff hf).1 hlegal)
  exact ⟨fun n hn => isMarkup_iff.2 ⟨hnamed n hn, hnodes n hn⟩, hversion, htypes⟩

theorem OfMarkup.reads (h : OfMarkup f ts v) (hf : f ≠ []) :
    ∃ root, parse (document f ts v) = some root ∧ treesIn root = f.map (mapValues readText ∘ outline) :=
  ⟨_, h.parse_eq hf, treesIn_read f ts v⟩

theorem document_reads_back_iff (hf : f ≠ []) :
    (∃ root, parse (document f ts v) = some root ∧ treesIn root = f.map outline) ↔
      OfMarkup f ts v ∧ ∀ n ∈ Tree.walkAll f, n.IsKept := by
  constructor
  · rintro ⟨root, hparse, hroot⟩
    have hmarkup := ofMarkup_of_parse hf hparse hroot
    obtain rfl := Option.some.inj ((hmarkup.parse_eq hf).symm.trans hparse)
    exact ⟨hmarkup, read_eq_iff.1 ((treesIn_read f ts v).symm.trans hroot)⟩
  · rintro ⟨hmarkup, hkept⟩
    exact ⟨_, hmarkup.parse_eq hf, (treesIn_read f ts v).trans (read_eq_iff.2 hkept)⟩

end Xml

namespace Session

variable {s : Session} {text : String}

theorem hierarchy_ne_nil (h : s.validateTree = .ok ()) : s.hierarchy ≠ [] := by
  obtain ⟨_, hroot, _⟩ := bind_eq_ok.1 h
  have hroots : Hierarchy.roots s.graph.nodeList s.graph.connectionList ≠ [] := fun hnone => by
    unfold Semantics.checkRoot at hroot
    rw [hnone] at hroot
    split_ifs at hroot
  rw [hierarchy, Hierarchy.forest]
  cases hcases : Hierarchy.roots s.graph.nodeList s.graph.connectionList with
  | nil => exact absurd hcases hroots
  | cons n r => exact List.cons_ne_nil _ _

/-- If the types and keys of all nodes are names, no key stands twice, and no character is illegal, then the document of a session is
well-formed and has the trees of the session in it, with spaces for the blanks in their texts. It has them as they are exactly if there are
in addition no blanks but spaces. -/
theorem export_reads_back_iff (h : s.exportXml = .ok text) :
    let IsMarkup := OfMarkup s.hierarchy s.customTypes s.config.output.formatVersion
    (IsMarkup → ∃ root, parse text = some root ∧ treesIn root = s.hierarchy.map (mapValues Xml.readText ∘ outline)) ∧
      ((∃ root, parse text = some root ∧ treesIn root = s.hierarchy.map outline) ↔
        IsMarkup ∧ ∀ n ∈ Tree.walkAll s.hierarchy, n.IsKept) := by
  intro IsMarkup
  unfold exportXml at h
  split at h
  · cases h
  · rename_i hvalid
    obtain rfl := Except.ok.inj h
    have hf := hierarchy_ne_nil hvalid
    exact ⟨fun hmarkup => hmarkup.reads hf, document_reads_back_iff hf⟩

def namedNode (id type category name : String) (properties : List (String × Value)) : Value :=
  .object [("id", .text id), ("type", .text type), ("category", .text category), ("name", .text name), ("x", .float 0.0), ("y", .float 0.0),
    ("properties", .object properties)]

def quotingDocument : Value :=
  documentOf [namedNode "s" "Sequence" "composite" "<Patrol> & 'go'" [],
      namedNode "a" "ScriptCondition" "condition" "near" [("code", .text "x < 3 && y != \"&lt;\""), ("name", .text "far")]]
    [⟨"c1", "s", "a"⟩]

theorem quotingDocument_reads_back :
    let s := ((start {} .standard).loadSource quotingDocument).2
    ∃ text root, s.exportXml = .ok text ∧ parse text = some root ∧ treesIn root = s.hierarchy.map outline ∧
      (treesIn root).flatMap (fun e => e.attributes :: e.children.map Element.attributes) =
        [[("name", "<Patrol> & 'go'")], [("name", "near"), ("code", "x < 3 && y != \"&lt;\"")]] := by
  intro s
  obtain ⟨text, hexported⟩ := exists_eq_ok (r := (s.exportXml, s)) (by decide +kernel)
  have htext : s.exportXml = .ok text := (Prod.mk.inj hexported).1
  have hmarkup : OfMarkup s.hierarchy s.customTypes s.config.output.formatVersion :=
    ⟨by decide +kernel, by decide +kernel, by decide +kernel⟩
  obtain ⟨root, hroot, htrees⟩ := (export_reads_back_iff htext).2.2 ⟨hmarkup, by decide +kernel⟩
  exact ⟨text, root, htext, hroot, htrees, by rw [htrees]; decide +kernel⟩

/-- All characters are legal, but the line end in the name is read as a space. -/
theorem brokenName_reads_as_space :
    let s := ((start {} .standard).loadSource (documentOf [namedNode "a" "AlwaysSuccess" "action" "a\nb" []] [])).2
    let text := "<?xml version=\"1.0\"?>\n<root BTCPP_format=\"4\">\n  <BehaviorTree ID=\"a\nb\">\n    <AlwaysSuccess name=\"a\nb\"/>\n" ++
      "  </BehaviorTree>\n</root>"
    OfMarkup s.hierarchy s.customTypes s.config.output.formatVersion ∧ s.exportXml.toOption = some text ∧
      (s.hierarchy.map outline).map Element.attributes = [[("name", "a\nb")]] ∧
        (parse text).map (fun root => (treesIn root).map Element.attributes) = some [[("name", "a b")]] := by
  intro s text
  exact ⟨⟨by decide +kernel, by decide +kernel, by decide +kernel⟩, by decide +kernel, by decide +kernel, by decide +kernel⟩

end Session

end BehaviorTree
