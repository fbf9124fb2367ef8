import BehaviorTree.Proofs.Tree.Extraction
import BehaviorTree.Tree.Semantics
import BehaviorTree.Tree.Xml

/-!
Moved nodes. Wherever nodes are moved to, the roots stay the roots, and only the order of siblings can change. It does not change if
and only if those that were in order before still are, and then the trees are the same but for the coordinates, which neither the
check of a tree nor its export looks at.
-/

set_option autoImplicit false

namespace BehaviorTree

/-- Does a map change nothing of a node but its coordinates? -/
structure IsMove (f : Node → Node) : Prop where
  id (n : Node) : (f n).id = n.id
  type (n : Node) : (f n).type = n.type
  category (n : Node) : (f n).category = n.category
  name (n : Node) : (f n).name = n.name
  properties (n : Node) : (f n).properties = n.properties

variable {f : Node → Node} {nodes : List Node} {cs : List Connection} {n m : Node} {a b : String}

theorem IsMove.eq (h : IsMove f) (n : Node) : f n = { n with x := (f n).x, y := (f n).y } :=
  calc f n = ⟨(f n).id, (f n).type, (f n).category, (f n).name, (f n).x, (f n).y, (f n).properties⟩ := rfl
    _ = { n with x := (f n).x, y := (f n).y } := by rw [h.id, h.type, h.category, h.name, h.properties]

theorem IsMove.map_ids (h : IsMove f) (ns : List Node) : (ns.map f).map Node.id = ns.map Node.id := by
  rw [List.map_map]
  exact List.map_congr_left fun n _ => h.id n

namespace Tree

variable {t : Tree} {ts : List Tree}

mutual

def map (f : Node → Node) : Tree → Tree
  | .branch n cs => .branch (f n) (mapAll f cs)

def mapAll (f : Node → Node) : List Tree → List Tree
  | [] => []
  | t :: r => t.map f :: mapAll f r

end

theorem mapAll_eq (ts : List Tree) : mapAll f ts = ts.map (map f) := by
  induction ts with
  | nil => rfl
  | cons t r ih => rw [mapAll, ih, List.map_cons]

theorem node_map (t : Tree) : (t.map f).node = f t.node := by
  obtain ⟨n, cs⟩ := t
  rfl

theorem children_map (t : Tree) : (t.map f).children = t.children.map (map f) := by
  obtain ⟨n, cs⟩ := t
  exact mapAll_eq cs

theorem map_node_map (ts : List Tree) : (ts.map (map f)).map node = (ts.map node).map f := by
  rw [List.map_map, List.map_map]
  exact List.map_congr_left fun t _ => node_map t

mutual

theorem parts_map (t : Tree) : (t.map f).parts = t.parts.map (map f) := by
  obtain ⟨n, cs⟩ := t
  rw [map, parts, parts, List.map_cons, partsAll_map cs, map]

theorem partsAll_map (ts : List Tree) : partsAll (mapAll f ts) = (partsAll ts).map (map f) := by
  cases ts with
  | nil => rfl
  | cons t r => rw [mapAll, partsAll, partsAll, List.map_append, parts_map t, partsAll_map r]

end

end Tree

section Lists

variable {α : Type} {p : α → Bool} {le : α → α → Bool} {l : List α}

theorem idxOf_filter_lt_iff [DecidableEq α] {a b : α} (ha : p a) (hb : p b) :
    (l.filter p).idxOf a < (l.filter p).idxOf b ↔ l.idxOf a < l.idxOf b := by
  induction l with
  | nil => simp
  | cons c r ih =>
    by_cases hc : p c
    · rw [List.filter_cons_of_pos hc]
      grind
    · have hca : c ≠ a := fun h => hc (h ▸ ha)
      have hcb : c ≠ b := fun h => hc (h ▸ hb)
      rw [List.filter_cons_of_neg hc, ih, List.idxOf_cons_ne _ hca, List.idxOf_cons_ne _ hcb, Nat.succ_lt_succ_iff]

theorem filter_mergeSort (htrans : ∀ a b c, le a b → le b c → le a c) (htotal : ∀ a b, le a b || le b a)
    (h : ∀ a ∈ l, p a → ∀ b ∈ l, p b → le a b) : (l.mergeSort le).filter p = l.filter p := by
  have hpairwise : (l.filter p).Pairwise fun a b => le a b := by
    refine List.pairwise_of_forall_mem_list fun a ha b hb => ?_
    rw [List.mem_filter] at ha hb
    exact h a ha.1 ha.2 b hb.1 hb.2
  have hsub := (List.sublist_mergeSort htrans htotal hpairwise List.filter_sublist).filter p
  rw [List.filter_filter] at hsub
  simp only [Bool.and_self] at hsub
  exact (hsub.eq_of_length ((List.mergeSort_perm l le).filter p).length_eq.symm).symm

end Lists

namespace Hierarchy

open BehaviorTree.Tree

variable {successors moved : String → List Node} {placed after : List String} {own rest roots : List Node} {t : Tree} {ts us : List Tree}

/-- The place of the first connection from the one to the other among those from the one. -/
def firstPlace (cs : List Connection) (a b : String) : Nat := ((outgoing cs a).map Connection.target).idxOf b

/-- Does a node come before another below the same parent? It is further left or, at the same x, connected first. -/
def Precedes (cs : List Connection) (a : String) (n m : Node) : Prop :=
  n.x ≤ m.x ∧ (m.x ≤ n.x → firstPlace cs a n.id < firstPlace cs a m.id)

theorem Precedes.asymm (h : Precedes cs a n m) : ¬ Precedes cs a m n :=
  fun h' => (h.2 h'.1).asymm (h'.2 h.1)

theorem claim_ascends : (claim placed rest).1.Pairwise fun n m => (rest.map Node.id).idxOf n.id < (rest.map Node.id).idxOf m.id := by
  induction rest generalizing placed with
  | nil => simp [claim]
  | cons n r ih =>
    -- what is claimed later has another id than the first of the list
    have hlater : ∀ {p : List String}, n.id ∈ p →
        (claim p r).1.Pairwise fun u v => ((n :: r).map Node.id).idxOf u.id < ((n :: r).map Node.id).idxOf v.id := by
      intro p hp
      refine ih.imp_of_mem fun {u v} hu hv huv => ?_
      have hne : ∀ {k : Node}, k ∈ (claim p r).1 → n.id ≠ k.id := fun hk he => (claim_mem hk).2 (he ▸ hp)
      rw [List.map_cons, List.idxOf_cons_ne _ (hne hu), List.idxOf_cons_ne _ (hne hv)]
      exact Nat.succ_lt_succ huv
    rw [claim]
    split_ifs with hn
    · exact hlater (by simpa using hn)
    · refine List.pairwise_cons.2 ⟨fun m hm => ?_, hlater List.mem_cons_self⟩
      have hne : n.id ≠ m.id := fun he => (claim_mem hm).2 (he ▸ List.mem_cons_self)
      rw [List.map_cons, List.idxOf_cons_self, List.idxOf_cons_ne _ hne]
      exact Nat.succ_pos _

theorem successors_ranked (hn : (nodes.map Node.id).Nodup) (hx : ∀ n ∈ nodes, n.x.isNaN = false)
    (he : ∀ c ∈ cs, c.target ∈ nodes.map Node.id) (hmn : n ∈ nodes) (hmm : m ∈ nodes) (hnm : n.x ≤ m.x) (hmn' : m.x ≤ n.x) :
    ((Hierarchy.successors nodes cs a).map Node.id).idxOf n.id < ((Hierarchy.successors nodes cs a).map Node.id).idxOf m.id ↔
      firstPlace cs a n.id < firstPlace cs a m.id := by
  let p (b : String) : Bool := decide (b = n.id) || decide (b = m.id)
  have hpn : p n.id := by simp [p]
  have hpm : p m.id := by simp [p]
  have honly : ∀ k ∈ targets nodes cs a, p k.id → k = n ∨ k = m := by
    intro k hk hid
    have hmem : k ∈ nodes := mem_of_mem_targets hk
    simp only [p, Bool.or_eq_true, decide_eq_true_iff] at hid
    exact hid.imp (List.inj_on_of_nodup_map hn hmem hmn) (List.inj_on_of_nodup_map hn hmem hmm)
  have hrefl : ∀ k, isLeftOf k k := fun k => by simpa using isLeftOf_total k k
  have hsame : (Hierarchy.successors nodes cs a).filter (p ∘ Node.id) = (targets nodes cs a).filter (p ∘ Node.id) := by
    rw [successors_eq_sorted hx]
    refine filter_mergeSort isLeftOf_trans isLeftOf_total fun k hk hkp l hl hlp => ?_
    rcases honly k hk hkp with rfl | rfl <;> rcases honly l hl hlp with rfl | rfl
    · exact hrefl _
    · exact (isLeftOf_iff (hx k hmn) (hx l hmm)).2 hnm
    · exact (isLeftOf_iff (hx k hmm) (hx l hmn)).2 hmn'
    · exact hrefl _
  rw [← idxOf_filter_lt_iff hpn hpm, List.filter_map, hsame, ← List.filter_map, idxOf_filter_lt_iff hpn hpm, targets_id he]
  rfl

theorem claim_precedes (hn : (nodes.map Node.id).Nodup) (hx : ∀ n ∈ nodes, n.x.isNaN = false)
    (he : ∀ c ∈ cs, c.target ∈ nodes.map Node.id) :
    (claim placed (Hierarchy.successors nodes cs a)).1.Pairwise (Precedes cs a) := by
  have hmem : ∀ k ∈ (claim placed (Hierarchy.successors nodes cs a)).1, k ∈ nodes := fun k hk =>
    mem_of_mem_successors (claim_mem hk).1
  have hsorted : (claim placed (Hierarchy.successors nodes cs a)).1.Pairwise fun n m => n.x ≤ m.x :=
    (successors_sorted hx).sublist claim_sublist
  refine (hsorted.and claim_ascends).imp_of_mem fun {u v} hu hv huv => ⟨huv.1, fun hge => ?_⟩
  exact (successors_ranked hn hx he (hmem u hu) (hmem v hv) huv.1 hge).1 huv.2

theorem mem_claim (hinj : ∀ n ∈ rest, ∀ m ∈ rest, n.id = m.id → n = m) :
    m ∈ (claim placed rest).1 ↔ m ∈ rest ∧ m.id ∉ placed := by
  refine ⟨claim_mem, ?_⟩
  rintro ⟨hm, hp⟩
  obtain ⟨k, hk, hid⟩ := List.mem_map.1 ((mem_placed_claim.1 (claim_covers hm)).resolve_left hp)
  exact hinj k (claim_mem hk).1 m hm hid ▸ hk

theorem claim_snd : (claim placed rest).2 = ((claim placed rest).1.map Node.id).reverse ++ placed := by
  induction rest generalizing placed with
  | nil => rfl
  | cons n r ih =>
    rw [claim]
    split_ifs
    · exact ih
    · simp [ih]

theorem mem_claim_noted (hn : (nodes.map Node.id).Nodup) :
    m ∈ (claim placed (noted nodes cs a)).1 ↔ (m ∈ nodes ∧ a ∈ nodes.map Node.id ∧ Leads cs a m.id) ∧ m.id ∉ placed := by
  rw [mem_claim fun n hnn m hmm => List.inj_on_of_nodup_map hn ((mem_noted hn).1 hnn).1 ((mem_noted hn).1 hmm).1, mem_noted hn]

theorem claim_noted_precedes (hn : (nodes.map Node.id).Nodup) (hx : ∀ n ∈ nodes, n.x.isNaN = false)
    (he : ∀ c ∈ cs, c.target ∈ nodes.map Node.id) : (claim placed (noted nodes cs a)).1.Pairwise (Precedes cs a) := by
  by_cases ha : a ∈ nodes.map Node.id
  · rw [noted_eq ha]
    exact claim_precedes hn hx he
  · have hnone : noted nodes cs a = [] := List.eq_nil_iff_forall_not_mem.2 fun m hm => ha ((mem_noted hn).1 hm).2.1
    rw [hnone]
    exact .nil

theorem claim_noted_map (hn : (nodes.map Node.id).Nodup) (he : ∀ c ∈ cs, c.target ∈ nodes.map Node.id) (hf : IsMove f)
    (hx : ∀ n ∈ nodes.map f, n.x.isNaN = false)
    (h : (claim placed (noted nodes cs a)).1.Pairwise fun n m => Precedes cs a (f n) (f m)) :
    (claim placed (noted (nodes.map f) cs a)).1 = (claim placed (noted nodes cs a)).1.map f := by
  have hids := hf.map_ids nodes
  have hn' : ((nodes.map f).map Node.id).Nodup := hids ▸ hn
  have hnodup : ((claim placed (noted nodes cs a)).1.map f).Nodup := by
    refine List.Nodup.of_map Node.id ?_
    rw [hf.map_ids]
    exact claim_nodup
  have hperm : (claim placed (noted (nodes.map f) cs a)).1.Perm ((claim placed (noted nodes cs a)).1.map f) := by
    refine (List.perm_ext_iff_of_nodup claim_nodup.of_map hnodup).2 fun m => ?_
    rw [mem_claim_noted hn', hids, List.mem_map (f := f), List.mem_map (f := f)]
    constructor
    · rintro ⟨⟨⟨k, hk, rfl⟩, ha, hleads⟩, hp⟩
      rw [hf.id] at hleads hp
      exact ⟨k, (mem_claim_noted hn).2 ⟨⟨hk, ha, hleads⟩, hp⟩, rfl⟩
    · rintro ⟨k, hk, rfl⟩
      obtain ⟨⟨hk, ha, hleads⟩, hp⟩ := (mem_claim_noted hn).1 hk
      rw [hf.id]
      exact ⟨⟨⟨k, hk, rfl⟩, ha, hleads⟩, hp⟩
  refine hperm.eq_of_pairwise (fun n m _ _ hnm hmn => absurd hmn hnm.asymm) ?_ (List.pairwise_map.2 h)
  exact claim_noted_precedes hn' hx (hids ▸ he)

theorem Grown.unique (h : Grown successors own placed ts after) {last : List String} (h' : Grown successors own placed us last) :
    ts = us ∧ after = last := by
  induction h generalizing us last with
  | nil =>
    cases h'
    exact ⟨rfl, rfl⟩
  | cons _ _ ih ih' =>
    cases h' with
    | cons rest below =>
      obtain ⟨rfl, rfl⟩ := ih rest
      obtain ⟨rfl, rfl⟩ := ih' below
      exact ⟨rfl, rfl⟩

theorem GrownAll.unique (h : GrownAll successors roots placed ts) (h' : GrownAll successors roots placed us) : ts = us := by
  induction h generalizing us with
  | nil =>
    cases h'
    rfl
  | cons _ tree _ ih =>
    cases h' with
    | cons _ tree' rest' =>
      obtain ⟨htree, rfl⟩ := tree.unique tree'
      obtain rfl := List.singleton_inj.1 htree
      rw [ih rest']

theorem Grown.children_claimed (h : Grown successors own placed ts after) (ht : t ∈ partsAll ts) :
    ∃ before, t.children.map Tree.node = (claim before (successors t.node.id)).1 := by
  induction h with
  | nil => simp [partsAll] at ht
  | cons _ below ih ih' =>
    rw [partsAll_cons, List.mem_cons, List.mem_append] at ht
    rcases ht with rfl | ht | ht
    · exact ⟨_, below.nodes⟩
    · exact ih' ht
    · exact ih ht

theorem GrownAll.children_claimed (h : GrownAll successors own placed ts) (ht : t ∈ partsAll ts) :
    ∃ before, t.children.map Tree.node = (claim before (successors t.node.id)).1 := by
  induction h with
  | nil => simp [partsAll] at ht
  | cons _ tree _ ih =>
    rw [partsAll, List.mem_append] at ht
    rcases ht with ht | ht
    · exact tree.children_claimed (by simpa [partsAll] using ht)
    · exact ih ht

def KeepsClaims (f : Node → Node) (successors moved : String → List Node) (ts : List Tree) : Prop :=
  ∀ t ∈ partsAll ts, ∀ placed, t.children.map Tree.node = (claim placed (successors t.node.id)).1 →
    (claim placed (moved t.node.id)).1 = (t.children.map Tree.node).map f

theorem Grown.map (h : Grown successors own placed ts after) (hf : IsMove f) (hkeeps : KeepsClaims f successors moved ts) :
    Grown moved (own.map f) placed (ts.map (Tree.map f)) after := by
  induction h with
  | nil placed => exact .nil placed
  | @cons n own placed before after kids ts rest below ih ih' =>
    have hkids : KeepsClaims f successors moved kids := fun t ht =>
      hkeeps t (by rw [partsAll_cons]; exact List.mem_cons_of_mem _ (List.mem_append_left _ ht))
    have hrest : KeepsClaims f successors moved ts := fun t ht =>
      hkeeps t (by rw [partsAll_cons]; exact List.mem_cons_of_mem _ (List.mem_append_right _ ht))
    have hclaim := hkeeps (.branch n kids) (by rw [partsAll_cons]; exact List.mem_cons_self) before below.nodes
    have hbelow := ih' hkids
    have hsame : (claim before (moved n.id)).1 = (claim before (successors n.id)).1.map f := hclaim.trans (by rw [← below.nodes]; rfl)
    have hplaced : (claim before (moved n.id)).2 = (claim before (successors n.id)).2 := by
      rw [claim_snd, claim_snd, hsame, hf.map_ids]
    rw [List.map_cons, List.map_cons, Tree.map, mapAll_eq]
    refine .cons (ih hrest) ?_
    rw [hf.id, hsame, hplaced]
    exact hbelow

theorem GrownAll.map (h : GrownAll successors roots placed ts) (hf : IsMove f) (hkeeps : KeepsClaims f successors moved ts) :
    GrownAll moved (roots.map f) placed (ts.map (Tree.map f)) := by
  induction h with
  | nil placed => exact .nil placed
  | @cons n r placed after t ts fresh tree rest ih =>
    have hfirst : KeepsClaims f successors moved [t] := fun u hu => hkeeps u (by
      rw [partsAll, List.mem_append]
      exact .inl (by simpa [partsAll] using hu))
    have hrest : KeepsClaims f successors moved ts := fun u hu => hkeeps u (by
      rw [partsAll, List.mem_append]
      exact .inr hu)
    have htree := tree.map hf hfirst
    rw [List.map_singleton, List.map_singleton, ← hf.id n] at htree
    exact .cons (by rwa [hf.id]) htree (ih hrest)

theorem roots_map (hf : IsMove f) : Hierarchy.roots (nodes.map f) cs = (Hierarchy.roots nodes cs).map f := by
  rw [Hierarchy.roots, List.filter_map, Hierarchy.roots]
  congr 1
  refine List.filter_congr fun n _ => ?_
  rw [Function.comp_apply, hf.id]

/-- A forest is as before, with the nodes moved, if and only if children that came one after the other still do. -/
theorem forest_map_iff (hn : (nodes.map Node.id).Nodup) (he : ∀ c ∈ cs, c.target ∈ nodes.map Node.id) (hf : IsMove f)
    (hx : ∀ n ∈ nodes.map f, n.x.isNaN = false) :
    forest (nodes.map f) cs = (forest nodes cs).map (Tree.map f) ↔
      ∀ t ∈ partsAll (forest nodes cs), t.children.Pairwise fun u v => Precedes cs t.node.id (f u.node) (f v.node) := by
  have hids := hf.map_ids nodes
  have hn' : ((nodes.map f).map Node.id).Nodup := hids ▸ hn
  have hgrown : GrownAll (noted (nodes.map f) cs) (Hierarchy.roots (nodes.map f) cs) [] (forest (nodes.map f) cs) := forest_grown hn'
  constructor
  · intro hsame t ht
    have hmem : t.map f ∈ partsAll (forest (nodes.map f) cs) := by
      rw [hsame, ← mapAll_eq, partsAll_map]
      exact List.mem_map_of_mem ht
    obtain ⟨before, hclaimed⟩ := hgrown.children_claimed hmem
    have horder := hclaimed ▸ claim_noted_precedes hn' hx (hids ▸ he)
    rw [children_map, map_node_map, List.pairwise_map, List.pairwise_map, node_map, hf.id] at horder
    exact horder
  · intro horder
    have hkeeps : KeepsClaims f (noted nodes cs) (noted (nodes.map f) cs) (forest nodes cs) := by
      intro t ht placed hclaimed
      rw [claim_noted_map hn he hf hx (hclaimed ▸ List.pairwise_map.2 (horder t ht)), hclaimed]
    have hgrew : GrownAll (noted nodes cs) (Hierarchy.roots nodes cs) [] (forest nodes cs) := forest_grown hn
    have hmoved := hgrew.map hf hkeeps
    rw [← roots_map hf] at hmoved
    exact hgrown.unique hmoved

end Hierarchy

theorem IsMove.map_names (hf : IsMove f) (ns : List Node) : (ns.map f).map Node.name = ns.map Node.name := by
  rw [List.map_map]
  exact List.map_congr_left fun n _ => hf.name n

namespace Semantics

theorem checkRoot_map (hf : IsMove f) (single : Bool) : checkRoot (nodes.map f) cs single = checkRoot nodes cs single := by
  unfold checkRoot
  rw [List.isEmpty_map, Hierarchy.roots_map hf]
  cases Hierarchy.roots nodes cs with
  | nil => rfl
  | cons n r =>
    have hnames := hf.map_names (n :: r)
    rw [List.map_cons] at hnames ⊢
    simp only [hnames, List.length_cons, List.length_map]

theorem checkLeaves_map (hf : IsMove f) : checkLeaves (nodes.map f) cs = checkLeaves nodes cs := by
  have hleaves : invalidLeaves (nodes.map f) cs = (invalidLeaves nodes cs).map f := by
    rw [invalidLeaves, List.filter_map, invalidLeaves]
    congr 1
    refine List.filter_congr fun n _ => ?_
    rw [Function.comp_apply, Node.isLeafCategory, hf.id, hf.category, ← Node.isLeafCategory]
  unfold checkLeaves
  rw [hleaves]
  cases invalidLeaves nodes cs with
  | nil => rfl
  | cons n r =>
    have hnames := hf.map_names (n :: r)
    rw [List.map_cons] at hnames ⊢
    simp only [hnames]

theorem check_map (hf : IsMove f) (single : Bool) : check (nodes.map f) cs single = check nodes cs single := by
  rw [check, checkRoot_map hf, checkLeaves_map hf, check]

end Semantics

namespace Xml

theorem attributes_map (hf : IsMove f) (n : Node) : attributes (f n) = attributes n := by
  rw [attributes, attributes, keptProperties, keptProperties, hf.name, hf.properties]

mutual

theorem element_map (hf : IsMove f) (indent : Nat) (t : Tree) : element indent (t.map f) = element indent t := by
  obtain ⟨n, cs⟩ := t
  have hcs := elements_map hf (indent + 2) cs
  cases cs with
  | nil => rw [Tree.map, Tree.mapAll, element, element, hf.type, attributes_map hf]
  | cons c r =>
    rw [Tree.mapAll] at hcs
    rw [Tree.map, Tree.mapAll, element, element, hcs, hf.type, attributes_map hf]

theorem elements_map (hf : IsMove f) (indent : Nat) (ts : List Tree) : elements indent (Tree.mapAll f ts) = elements indent ts := by
  cases ts with
  | nil => rfl
  | cons t r => rw [Tree.mapAll, elements, elements, element_map hf, elements_map hf]

end

theorem treeElement_map (hf : IsMove f) (t : Tree) : treeElement (t.map f) = treeElement t := by
  have hname : (t.map f).node.name = t.node.name := by rw [Tree.node_map, hf.name]
  unfold treeElement
  rw [element_map hf, hname]

theorem document_map (hf : IsMove f) (ts : List Tree) (types : List NodeType) (version : String) :
    document (ts.map (Tree.map f)) types version = document ts types version := by
  have htrees : (ts.map (Tree.map f)).map treeElement = ts.map treeElement := by
    rw [List.map_map]
    exact List.map_congr_left fun t _ => treeElement_map hf t
  rw [document, document, htrees, List.isEmpty_map]

end Xml

end BehaviorTree
