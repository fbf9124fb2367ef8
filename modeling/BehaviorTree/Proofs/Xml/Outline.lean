import BehaviorTree.Proofs.Xml.Escape
import BehaviorTree.Proofs.Xml.Markup

/-!
What an exported document says. It is an element written out line by line, and nothing of the element is lost: a tag ends at the next angle
bracket, a value at the next quote, and the elements in another one stand further to the right than its end. So two forests with the same
document have the same nodes in the same places, with the same names and written properties.
-/

set_option autoImplicit false

namespace BehaviorTree.Xml

open Markup

def attributeChars (a : String × String) : List Char :=
  ' ' :: escapeChars a.1.toList ++ '=' :: '"' :: escapeChars a.2.toList ++ ['"']

def slash (isEmpty : Bool) : List Char := if isEmpty then ['/'] else []

def tagChars (tag : String) (attributes : List (String × String)) (isEmpty : Bool) : List Char :=
  escapeChars tag.toList ++ attributes.flatMap attributeChars ++ slash isEmpty

def indentation (n : Nat) : List Char := List.replicate n ' '

def endTag (indent : Nat) (tag : String) : List Char := indentation indent ++ '<' :: '/' :: escapeChars tag.toList ++ ['>']

mutual

def lines (indent : Nat) : Element → List Char
  | .element tag attributes children =>
    indentation indent ++ '<' :: tagChars tag attributes children.isEmpty ++ '>' ::
      if children.isEmpty then [] else '\n' :: allLines (indent + 2) children ++ endTag indent tag

def allLines (indent : Nat) : List Element → List Char
  | [] => []
  | e :: r => lines indent e ++ '\n' :: allLines indent r

end

/-- The attributes of a node: its name, and the properties that are written. -/
def shown (n : Node) : List (String × String) :=
  ("name", n.name) :: (keptProperties n).map fun p => (p.1, formatValue p.2)

mutual

def outline : Tree → Element
  | .branch n cs => .element n.type (shown n) (outlines cs)

def outlines : List Tree → List Element
  | [] => []
  | t :: r => outline t :: outlines r

end

theorem outlines_eq_map (ts : List Tree) : outlines ts = ts.map outline := by
  induction ts with
  | nil => rfl
  | cons t r ih => rw [outlines, ih, List.map_cons]

def treeOutline (t : Tree) : Element := .element "BehaviorTree" [("ID", t.node.name)] [outline t]

/-- A custom type as it is written: its name and the keyword of its category. -/
def typePair (t : NodeType) : String × String := (t.type, NodeType.categoryKeyword t.category)

def typeOutline (p : String × String) : Element := .element "Node" [("ID", p.1), ("NodeType", p.2)] []

def typesOutline (ps : List (String × String)) : List Element :=
  if ps.isEmpty then [] else [.element "TreeNodesModel" [] (ps.map typeOutline)]

def documentOutline (forest : List Tree) (types : List NodeType) (version : String) : Element :=
  .element "root" [("BTCPP_format", version)] (forest.map treeOutline ++ typesOutline (types.map typePair))

def declaration : List Char := "<?xml version=\"1.0\"?>\n".toList

variable {t : Tree} {f g : List Tree} {ts us : List NodeType} {v w : String}

theorem toList_attributeText (key value : String) :
    (attributeText (escape key) (escape value)).toList = attributeChars (key, value) := by
  simp [attributeText, attributeChars, toList_escape]

theorem escapeValue_of_kept {n : Node} {p : String × Value} (hp : p ∈ keptProperties n) : escapeValue p.2 = escape (formatValue p.2) := by
  obtain ⟨key, value⟩ := p
  have hkept := (List.mem_filter.1 hp).2
  cases value with
  | null => simp [Value.isTruthy] at hkept
  | _ => rfl

theorem toList_attributes (n : Node) : (attributes n).toList = (shown n).flatMap attributeChars := by
  have hname : escape "name" = "name" := by decide
  have hfirst : (attributeText "name" (escape n.name)).toList = attributeChars ("name", n.name) := by
    rw [← toList_attributeText, hname]
  have hrest : (String.join ((keptProperties n).map fun p => attributeText (escape p.1) (escapeValue p.2))).toList =
      ((keptProperties n).map fun p => (p.1, formatValue p.2)).flatMap attributeChars := by
    rw [String.toList_join, List.flatMap_map, List.flatMap_map]
    refine List.flatMap_congr fun p hp => ?_
    rw [escapeValue_of_kept hp, toList_attributeText]
  rw [attributes, String.toList_append, hfirst, hrest, shown, List.flatMap_cons]

theorem toList_spaces (n : Nat) : (spaces n).toList = indentation n := String.toList_ofList

mutual

theorem toList_element (d : Nat) : (t : Tree) → (element d t).toList = lines d (outline t) ++ ['\n']
  | .branch n [] => by
    simp [element, outline, outlines, lines, tagChars, slash, toList_spaces, toList_escape, toList_attributes]
  | .branch n (c :: cs) => by
    have hchildren := toList_elements (d + 2) (c :: cs)
    simp [element, outline, outlines, lines, tagChars, slash, endTag, toList_spaces, toList_escape, toList_attributes, hchildren]

theorem toList_elements (d : Nat) : (ts : List Tree) → (elements d ts).toList = allLines d (outlines ts)
  | [] => rfl
  | t :: r => by
    simp [elements, outlines, allLines, toList_element d t, toList_elements d r]

end

theorem allLines_map {α : Type} (d : Nat) (h : α → Element) (as : List α) :
    allLines d (as.map h) = as.flatMap fun a => lines d (h a) ++ ['\n'] := by
  induction as with
  | nil => rfl
  | cons a r ih => simp [allLines, ih]

theorem allLines_append (d : Nat) (as bs : List Element) : allLines d (as ++ bs) = allLines d as ++ allLines d bs := by
  induction as with
  | nil => rfl
  | cons a r ih => simp [allLines, ih]

theorem toList_treeElement (t : Tree) : (treeElement t).toList = lines 2 (treeOutline t) ++ ['\n'] := by
  unfold treeElement
  simp [treeOutline, lines, allLines, tagChars, slash, attributeChars, endTag, indentation, toList_element, toList_escape,
    escapeChars_of_word]

theorem toList_typeElement (t : NodeType) : (typeElement t).toList = lines 4 (typeOutline (typePair t)) ++ ['\n'] := by
  have hkeyword : escapeChars (NodeType.categoryKeyword t.category).toList = (NodeType.categoryKeyword t.category).toList := by
    unfold NodeType.categoryKeyword
    split_ifs <;> exact escapeChars_of_word (by decide)
  unfold typeElement
  simp [typeOutline, typePair, lines, tagChars, slash, attributeChars, indentation, toList_escape, escapeChars_of_word, hkeyword]

theorem toList_typeList (ts : List NodeType) : (typeList ts).toList = allLines 2 (typesOutline (ts.map typePair)) := by
  have htypes : (String.join (ts.map typeElement)).toList = allLines 4 ((ts.map typePair).map typeOutline) := by
    rw [String.toList_join, List.flatMap_map, List.map_map, allLines_map]
    exact List.flatMap_congr fun t _ => toList_typeElement t
  cases ts with
  | nil => rfl
  | cons t r =>
    have hlist : typeList (t :: r) = "  <TreeNodesModel>\n" ++ String.join ((t :: r).map typeElement) ++ "  </TreeNodesModel>\n" := rfl
    have houtline : typesOutline ((t :: r).map typePair) = [.element "TreeNodesModel" [] (((t :: r).map typePair).map typeOutline)] := rfl
    rw [hlist, houtline, String.toList_append, String.toList_append, htypes]
    simp [lines, allLines, tagChars, slash, endTag, indentation, escapeChars_of_word]

theorem toList_document (hf : f ≠ []) : (document f ts v).toList = declaration ++ lines 0 (documentOutline f ts v) := by
  have htrees : (String.join (f.map treeElement)).toList = allLines 2 (f.map treeOutline) := by
    rw [String.toList_join, List.flatMap_map, allLines_map]
    exact List.flatMap_congr fun t _ => toList_treeElement t
  have hdocument : document f ts v = "<?xml version=\"1.0\"?>\n" ++ ("<root BTCPP_format=\"" ++ escape v ++ "\">\n") ++
      String.join (f.map treeElement) ++ typeList ts ++ "</root>" := by
    unfold document
    rw [if_neg (by simpa using hf)]
  have hchildren : (f.map treeOutline ++ typesOutline (ts.map typePair)).isEmpty = false := by simp [hf]
  rw [hdocument, documentOutline, lines, hchildren, allLines_append, ← htrees, ← toList_typeList]
  unfold declaration
  simp [tagChars, slash, attributeChars, endTag, indentation, toList_escape, escapeChars_of_word]

structure OfTags (P : Tag → Prop) (f : List Tree) (ts : List NodeType) (v : String) : Prop where
  root : P ⟨"root", [("BTCPP_format", v)]⟩
  trees : ∀ t ∈ f, P ⟨"BehaviorTree", [("ID", t.node.name)]⟩
  nodes : ∀ n ∈ Tree.walkAll f, P ⟨n.type, shown n⟩
  list : ts ≠ [] → P ⟨"TreeNodesModel", []⟩
  types : ∀ t ∈ ts, P ⟨"Node", [("ID", t.type), ("NodeType", NodeType.categoryKeyword t.category)]⟩

section

variable {P : Tag → Prop}

mutual

theorem outline_all_iff : (t : Tree) → ((outline t).All P ↔ ∀ n ∈ t.walk, P ⟨n.type, shown n⟩)
  | .branch n cs => by rw [outline, Element.all_iff, outlines_all_iff cs, Tree.walk, List.forall_mem_cons]

theorem outlines_all_iff : (ts : List Tree) → ((∀ e ∈ outlines ts, e.All P) ↔ ∀ n ∈ Tree.walkAll ts, P ⟨n.type, shown n⟩)
  | [] => iff_of_true nofun nofun
  | t :: r => by
    rw [outlines, List.forall_mem_cons, outline_all_iff t, outlines_all_iff r, Tree.walkAll, List.forall_mem_append]

end

theorem treeOutlines_all_iff : (∀ e ∈ f.map treeOutline, e.All P) ↔
    (∀ t ∈ f, P ⟨"BehaviorTree", [("ID", t.node.name)]⟩) ∧ ∀ n ∈ Tree.walkAll f, P ⟨n.type, shown n⟩ := by
  induction f with
  | nil => exact iff_of_true nofun ⟨nofun, nofun⟩
  | cons t f ih =>
    rw [List.map_cons, List.forall_mem_cons, ih, List.forall_mem_cons, Tree.walkAll, List.forall_mem_append, treeOutline, Element.all_iff,
      List.forall_mem_singleton, outline_all_iff]
    tauto

theorem typesOutline_all_iff : (∀ e ∈ typesOutline (ts.map typePair), e.All P) ↔
    (ts ≠ [] → P ⟨"TreeNodesModel", []⟩) ∧
      ∀ t ∈ ts, P ⟨"Node", [("ID", t.type), ("NodeType", NodeType.categoryKeyword t.category)]⟩ := by
  have htype : ∀ t : NodeType, (typeOutline (typePair t)).All P ↔
      P ⟨"Node", [("ID", t.type), ("NodeType", NodeType.categoryKeyword t.category)]⟩ := fun t =>
    Element.all_iff.trans (and_iff_left nofun)
  cases ts with
  | nil => exact iff_of_true nofun ⟨fun h => absurd rfl h, nofun⟩
  | cons t r =>
    have houtline : typesOutline ((t :: r).map typePair) = [.element "TreeNodesModel" [] (((t :: r).map typePair).map typeOutline)] := rfl
    rw [houtline, List.forall_mem_singleton, Element.all_iff, List.map_map, List.forall_mem_map]
    exact and_congr ⟨fun h _ => h, fun h => h (List.cons_ne_nil _ _)⟩ (forall₂_congr fun t _ => htype t)

theorem documentOutline_all_iff : (documentOutline f ts v).All P ↔ OfTags P f ts v := by
  rw [documentOutline, Element.all_iff, List.forall_mem_append, treeOutlines_all_iff, typesOutline_all_iff]
  exact ⟨fun ⟨root, ⟨trees, nodes⟩, list, types⟩ => ⟨root, trees, nodes, list, types⟩,
    fun h => ⟨h.root, ⟨h.trees, h.nodes⟩, h.list, h.types⟩⟩

end

/-- Can a tag be told from what follows it? Without attributes it holds no slash, and else the first key holds no blank. -/
def StartsPlainly (tag : String) : List (String × String) → Prop
  | [] => '/' ∉ tag.toList
  | (key, _) :: _ => ' ' ∉ key.toList

abbrev IsPlain (e : Element) : Prop := e.All fun t => StartsPlainly t.name t.attributes

variable {tag tag' : String} {as bs : List (String × String)} {p q : List Char} {x y : Bool}

theorem escapeChars_toList_injective {s t : String} (h : escapeChars s.toList = escapeChars t.toList) : s = t :=
  String.toList_inj.1 (escapeChars_injective h)

theorem attributeChars_append_inj {a b : String × String} (h : attributeChars a ++ p = attributeChars b ++ q) : a = b ∧ p = q := by
  have hquote : ∀ cs, '"' ∉ escapeChars cs := notMem_escapeChars (by decide)
  have hkeyQuote : ∀ cs, '"' ∉ escapeChars cs ++ ['='] := fun cs => by simp [hquote]
  have hsplit : ∀ (a : String × String) (p : List Char), attributeChars a ++ p =
      ' ' :: (escapeChars a.1.toList ++ ['='] ++ '"' :: (escapeChars a.2.toList ++ '"' :: p)) := fun a p => by simp [attributeChars]
  rw [hsplit, hsplit] at h
  obtain ⟨hkey, hrest⟩ := ended_inj (hkeyQuote _) (hkeyQuote _) (List.cons.inj h).2
  obtain ⟨hvalue, hend⟩ := ended_inj (hquote _) (hquote _) hrest
  exact ⟨Prod.ext (escapeChars_toList_injective (List.append_cancel_right hkey)) (escapeChars_toList_injective hvalue), hend⟩

theorem attributes_inj (hp : p.head? ≠ some ' ') (hq : q.head? ≠ some ' ')
    (h : as.flatMap attributeChars ++ p = bs.flatMap attributeChars ++ q) : as = bs ∧ p = q := by
  induction as generalizing bs with
  | nil =>
    cases bs with
    | nil => exact ⟨rfl, h⟩
    | cons b bs => exact absurd (congrArg List.head? h) (by simpa [attributeChars] using hp)
  | cons a as ih =>
    cases bs with
    | nil => exact absurd (congrArg List.head? h).symm (by simpa [attributeChars] using hq)
    | cons b bs =>
      rw [List.flatMap_cons, List.flatMap_cons, List.append_assoc, List.append_assoc] at h
      obtain ⟨rfl, hrest⟩ := attributeChars_append_inj h
      obtain ⟨rfl, hend⟩ := ih hrest
      exact ⟨rfl, hend⟩

theorem firstKey_inj {k l : String} (hk : ' ' ∉ k.toList) (hl : ' ' ∉ l.toList)
    (h : escapeChars tag.toList ++ ' ' :: escapeChars k.toList = escapeChars tag'.toList ++ ' ' :: escapeChars l.toList) :
    tag = tag' ∧ k = l := by
  have hblank : ∀ cs, ' ' ∉ cs → ' ' ∉ (escapeChars cs).reverse := fun cs hcs => by
    rw [List.mem_reverse]
    exact notMem_escapeChars_of_notMem (by decide) hcs
  have hreverse := congrArg List.reverse h
  simp only [List.reverse_append, List.reverse_cons, List.append_assoc, List.singleton_append] at hreverse
  obtain ⟨hkey, htag⟩ := ended_inj (hblank _ hk) (hblank _ hl) hreverse
  exact ⟨escapeChars_toList_injective (List.reverse_injective htag), escapeChars_toList_injective (List.reverse_injective hkey)⟩

theorem head?_slash (x : Bool) : (slash x).head? ≠ some ' ' := by cases x <;> decide

theorem slash_injective (h : slash x = slash y) : x = y := by
  cases x <;> cases y
  · rfl
  · cases h
  · cases h
  · rfl

theorem quote_mem_tagChars {a : String × String} : '"' ∈ tagChars tag (a :: as) x := by simp [tagChars, attributeChars]

theorem tagChars_cons (tag : String) (a : String × String) (as : List (String × String)) (x : Bool) :
    tagChars tag (a :: as) x = escapeChars tag.toList ++ ' ' :: escapeChars a.1.toList ++ ['='] ++
      '"' :: (escapeChars a.2.toList ++ '"' :: (as.flatMap attributeChars ++ slash x)) := by
  simp [tagChars, attributeChars]

theorem quote_notMem_tagChars_nil (tag : String) (x : Bool) : '"' ∉ tagChars tag [] x := by
  have hquote : '"' ∉ escapeChars tag.toList := notMem_escapeChars (by decide) _
  cases x <;> simp [tagChars, slash, hquote]

theorem tagChars_nil_inj (htag : '/' ∉ tag.toList) (htag' : '/' ∉ tag'.toList) (h : tagChars tag [] x = tagChars tag' [] y) :
    tag = tag' ∧ x = y := by
  have hslash : ∀ cs, '/' ∉ cs → '/' ∉ escapeChars cs := fun cs => notMem_escapeChars_of_notMem (by decide)
  have hmem : ∀ tag x, '/' ∉ escapeChars tag → ('/' ∈ escapeChars tag ++ slash x ↔ x = true) := fun tag x htag => by
    cases x <;> simp [slash, htag]
  have hchars : escapeChars tag.toList ++ slash x = escapeChars tag'.toList ++ slash y := by simpa [tagChars] using h
  have hsame : x = y := by
    rw [Bool.eq_iff_iff, ← hmem tag.toList x (hslash _ htag), hchars, hmem tag'.toList y (hslash _ htag')]
  subst hsame
  exact ⟨escapeChars_toList_injective (List.append_cancel_right hchars), rfl⟩

theorem tagChars_cons_inj {a b : String × String} (ha : ' ' ∉ a.1.toList) (hb : ' ' ∉ b.1.toList)
    (h : tagChars tag (a :: as) x = tagChars tag' (b :: bs) y) : tag = tag' ∧ a :: as = b :: bs ∧ x = y := by
  have hquote : ∀ cs, '"' ∉ escapeChars cs := notMem_escapeChars (by decide)
  have hstart : ∀ tag k : String, '"' ∉ escapeChars tag.toList ++ ' ' :: escapeChars k.toList ++ ['='] := fun tag k => by simp [hquote]
  rw [tagChars_cons, tagChars_cons] at h
  obtain ⟨hopening, hrest⟩ := ended_inj (hstart _ _) (hstart _ _) h
  obtain ⟨htag, hkey⟩ := firstKey_inj ha hb (List.append_cancel_right hopening)
  obtain ⟨hvalue, hrest⟩ := ended_inj (hquote _) (hquote _) hrest
  obtain ⟨hattributes, hslash⟩ := attributes_inj (head?_slash x) (head?_slash y) hrest
  exact ⟨htag, by rw [Prod.ext hkey (escapeChars_toList_injective hvalue), hattributes], slash_injective hslash⟩

theorem tagChars_inj (has : StartsPlainly tag as) (hbs : StartsPlainly tag' bs) (h : tagChars tag as x = tagChars tag' bs y) :
    tag = tag' ∧ as = bs ∧ x = y := by
  cases as with
  | nil =>
    cases bs with
    | nil =>
      obtain ⟨htag, hslash⟩ := tagChars_nil_inj has hbs h
      exact ⟨htag, rfl, hslash⟩
    | cons b bs => exact absurd (h.symm ▸ quote_mem_tagChars) (quote_notMem_tagChars_nil tag x)
  | cons a as =>
    cases bs with
    | nil => exact absurd (h ▸ quote_mem_tagChars) (quote_notMem_tagChars_nil tag' y)
    | cons b bs => exact tagChars_cons_inj has hbs h

theorem bracket_notMem_tagChars : '>' ∉ tagChars tag as x := by
  have hbracket : ∀ cs, '>' ∉ escapeChars cs := notMem_escapeChars (by decide)
  cases x <;> simp [tagChars, slash, attributeChars, hbracket]

theorem indentation_ne {c d : Nat} (hcd : c < d) : indentation c ++ '<' :: p ≠ indentation d ++ q := by
  intro h
  have hsplit : indentation d = indentation c ++ ' ' :: indentation (d - c - 1) := by
    rw [indentation, indentation, indentation, ← List.replicate_succ, ← List.replicate_add]
    congr 1
    omega
  rw [hsplit, List.append_assoc, List.append_cancel_left_eq] at h
  exact absurd (List.cons.inj h).1 (by decide)

theorem lines_append (d : Nat) (tag : String) (as : List (String × String)) (cs : List Element) (p : List Char) :
    lines d (.element tag as cs) ++ p = indentation d ++ '<' :: (tagChars tag as cs.isEmpty ++
      '>' :: ((if cs.isEmpty then [] else '\n' :: allLines (d + 2) cs ++ endTag d tag) ++ p)) := by
  simp [lines]

theorem endTag_append (d : Nat) (tag : String) (p : List Char) :
    endTag d tag ++ p = indentation d ++ '<' :: ('/' :: escapeChars tag.toList ++ '>' :: p) := by
  simp [endTag]

mutual

theorem lines_inj (d : Nat) : (e f : Element) → IsPlain e → IsPlain f → (p q : List Char) →
    lines d e ++ p = lines d f ++ q → e = f ∧ p = q
  | .element tag as cs, .element tag' bs ds, .element hstart hbelow, .element hstart' hbelow', p, q, h => by
    rw [lines_append, lines_append] at h
    obtain ⟨hopening, hrest⟩ := ended_inj bracket_notMem_tagChars bracket_notMem_tagChars
      (List.cons.inj (List.append_cancel_left h)).2
    obtain ⟨rfl, rfl, hempty⟩ := tagChars_inj hstart hstart' hopening
    rw [← hempty] at hrest
    cases hcs : cs.isEmpty with
    | true =>
      obtain rfl := List.isEmpty_iff.1 hcs
      obtain rfl := List.isEmpty_iff.1 (hempty.symm.trans hcs)
      exact ⟨rfl, hrest⟩
    | false =>
      rw [hcs, if_neg Bool.false_ne_true, if_neg Bool.false_ne_true, List.append_assoc, List.append_assoc, endTag_append,
        endTag_append] at hrest
      obtain ⟨rfl, hend⟩ := allLines_inj d (d + 2) (by omega) cs ds hbelow hbelow' _ _ (List.cons.inj hrest).2
      exact ⟨rfl, by simpa using hend⟩

theorem allLines_inj (c d : Nat) (hcd : c < d) : (cs ds : List Element) → (∀ e ∈ cs, IsPlain e) → (∀ e ∈ ds, IsPlain e) →
    (p q : List Char) → allLines d cs ++ (indentation c ++ '<' :: p) = allLines d ds ++ (indentation c ++ '<' :: q) → cs = ds ∧ p = q
  | [], [], _, _, p, q, h => ⟨rfl, (List.cons.inj (List.append_cancel_left h)).2⟩
  | [], .element tag as cs :: ds, _, _, p, q, h => by
    rw [allLines, List.nil_append, allLines, List.append_assoc, lines_append] at h
    exact absurd h (indentation_ne hcd)
  | .element tag as cs :: ds, [], _, _, p, q, h => by
    rw [allLines, List.nil_append, allLines, List.append_assoc, lines_append] at h
    exact absurd h.symm (indentation_ne hcd)
  | e :: cs, f :: ds, hcs, hds, p, q, h => by
    rw [allLines, allLines, List.append_assoc, List.append_assoc] at h
    obtain ⟨rfl, hrest⟩ := lines_inj d e f (hcs e List.mem_cons_self) (hds f List.mem_cons_self) _ _ h
    obtain ⟨rfl, hend⟩ := allLines_inj c d hcd cs ds (fun e he => hcs e (List.mem_cons_of_mem _ he))
      (fun e he => hds e (List.mem_cons_of_mem _ he)) p q (List.cons.inj hrest).2
    exact ⟨rfl, hend⟩

end

theorem documentOutline_isPlain (f : List Tree) (ts : List NodeType) (v : String) : IsPlain (documentOutline f ts v) :=
  documentOutline_all_iff.2 {
    root := (by decide : ' ' ∉ "BTCPP_format".toList)
    trees := fun _ _ => (by decide : ' ' ∉ "ID".toList)
    nodes := fun _ _ => (by decide : ' ' ∉ "name".toList)
    list := fun _ => (by decide : '/' ∉ "TreeNodesModel".toList)
    types := fun _ _ => (by decide : ' ' ∉ "ID".toList) }

theorem typesOutline_injective : Function.Injective typesOutline := by
  have htype : Function.Injective typeOutline := fun p q h => by
    obtain ⟨type, keyword⟩ := p
    obtain ⟨type', keyword'⟩ := q
    simpa [typeOutline] using h
  intro ps qs h
  cases ps <;> cases qs
  · rfl
  · cases h
  · cases h
  · have hchildren := (Element.element.inj (List.cons.inj h).1).2.2
    exact List.map_injective_iff.2 htype hchildren

/-- The trees of a document, without the list of types. -/
def treesIn (e : Element) : List Element :=
  (e.children.filter fun c => c.tag = "BehaviorTree").flatMap Element.children

theorem treesIn_documentOutline (f : List Tree) (ts : List NodeType) (v : String) :
    treesIn (documentOutline f ts v) = f.map outline := by
  have htypes : (typesOutline (ts.map typePair)).filter (fun c => c.tag = "BehaviorTree") = [] := by
    unfold typesOutline
    split_ifs
    · rfl
    · simp [Element.tag]
  have htrees : (f.map treeOutline).filter (fun c => c.tag = "BehaviorTree") = f.map treeOutline :=
    List.filter_eq_self.2 fun e he => by
      obtain ⟨t, _, rfl⟩ := List.mem_map.1 he
      exact decide_eq_true rfl
  rw [treesIn, documentOutline, Element.children, List.filter_append, htypes, htrees, List.append_nil, List.flatMap_map]
  exact List.map_eq_flatMap.symm

theorem treeOutline_congr {t u : Tree} (h : outline t = outline u) : treeOutline t = treeOutline u := by
  have hname : t.node.name = u.node.name := by
    obtain ⟨n, cs⟩ := t
    obtain ⟨m, ds⟩ := u
    exact (Prod.mk.inj (List.cons.inj (Element.element.inj h).2.1).1).2
  rw [treeOutline, treeOutline, hname, h]

theorem map_treeOutline (h : f.map outline = g.map outline) : f.map treeOutline = g.map treeOutline := by
  induction f generalizing g with
  | nil =>
    cases g with
    | nil => rfl
    | cons u g => cases h
  | cons t f ih =>
    cases g with
    | nil => cases h
    | cons u g =>
      obtain ⟨hhead, hrest⟩ := List.cons.inj h
      rw [List.map_cons, List.map_cons, treeOutline_congr hhead, ih hrest]

theorem documentOutline_eq_iff : documentOutline f ts v = documentOutline g us w ↔
    v = w ∧ f.map outline = g.map outline ∧ ts.map typePair = us.map typePair := by
  constructor
  · intro h
    have htrees : f.map outline = g.map outline := by rw [← treesIn_documentOutline f ts v, h, treesIn_documentOutline]
    obtain ⟨_, hversion, hchildren⟩ := Element.element.inj h
    rw [map_treeOutline htrees, List.append_cancel_left_eq] at hchildren
    exact ⟨by simpa using hversion, htrees, typesOutline_injective hchildren⟩
  · rintro ⟨rfl, htrees, htypes⟩
    rw [documentOutline, map_treeOutline htrees, htypes, documentOutline]

/-- Two documents are the same exactly if they say the same: the version, the trees with the types, names and written properties of
their nodes, and the custom types with the keywords of their categories. -/
theorem document_eq_iff (hf : f ≠ []) (hg : g ≠ []) :
    document f ts v = document g us w ↔ v = w ∧ f.map outline = g.map outline ∧ ts.map typePair = us.map typePair := by
  rw [← documentOutline_eq_iff]
  constructor
  · intro h
    have hlines : declaration ++ lines 0 (documentOutline f ts v) = declaration ++ lines 0 (documentOutline g us w) := by
      rw [← toList_document hf, ← toList_document hg, h]
    have hsame := List.append_cancel_left hlines
    exact (lines_inj 0 _ _ (documentOutline_isPlain ..) (documentOutline_isPlain ..) [] [] (by rw [hsame])).1
  · intro h
    exact String.toList_inj.1 (by rw [toList_document hf, toList_document hg, h])

def leaf (type : String) (x : Float) (properties : Table Value) : Tree :=
  .branch ⟨"a", type, "action", "\"/>", x, 0.0, properties⟩ []

/-- Types that look like markup are told apart; a position and a property that does not hold are not written. -/
theorem markupTypes_told_apart :
    let moved := leaf "/A" 1.0 [("off", .bool false)]
    let other := leaf "A name=" 0.0 [("</A>", .text "&")]
    [leaf "/A" 0.0 []] ≠ [] ∧ [moved] ≠ [] ∧ [other] ≠ [] ∧ document [leaf "/A" 0.0 []] [] "4" = document [moved] [] "4" ∧
      document [leaf "/A" 0.0 []] [] "4" ≠ document [other] [] "4" := by
  intro moved other
  have hleaf : [leaf "/A" 0.0 []] ≠ [] := List.cons_ne_nil _ _
  have hmoved : [moved] ≠ [] := List.cons_ne_nil _ _
  have hother : [other] ≠ [] := List.cons_ne_nil _ _
  refine ⟨hleaf, hmoved, hother, (document_eq_iff hleaf hmoved).2 ⟨rfl, rfl, rfl⟩, fun h => ?_⟩
  have houtlines := ((document_eq_iff hleaf hother).1 h).2.1
  have htype := (Element.element.inj (List.cons.inj houtlines).1).1
  exact absurd htype (by decide)

end BehaviorTree.Xml
