import BehaviorTree.Proofs.Session.Growth
import BehaviorTree.Proofs.Session.Loading
import BehaviorTree.Proofs.Session.Run

/-!
The gesture of two clicks. Whichever of two nodes is clicked first, the same connection is made or none, as long as both clicks are on a
side or none is: it takes a child side and a parent side, and it runs from the child side. What the second click is on is not looked at
beyond that it differs from the first, so that a click elsewhere counts as one on the other side, if it is the second.
-/

set_option autoImplicit false

namespace BehaviorTree

theorem Graph.addConnections_inj {g : Graph} {ds es : List Connection} (h : g.addConnections ds = g.addConnections es) : ds = es := by
  have hlists := congrArg Graph.connectionList h
  rw [connectionList_addConnections, connectionList_addConnections] at hlists
  exact List.append_cancel_left hlists

namespace Session

variable {s t : Session} {a b p q source target : String}

/-- Is there a new connection from the one node to the other in the end, and is that all that has come of it in the graph? -/
def Connects (s : Session) (r : Outcome (Except Rejection String)) (source target : String) : Prop :=
  ∃ id, r.1 = .ok (.ok id) ∧ r.2.graph = s.graph.addConnections [⟨id, source, target⟩]

theorem Connects.unique {r : Outcome (Except Rejection String)} {x y : String} (h : s.Connects r source target)
    (h' : s.Connects r x y) : x = source ∧ y = target := by
  obtain ⟨id, _, hgraph⟩ := h
  obtain ⟨id', _, hgraph'⟩ := h'
  obtain ⟨-, hx, hy⟩ := Connection.mk.inj (List.singleton_inj.1 (Graph.addConnections_inj (hgraph'.symm.trans hgraph)))
  exact ⟨hx, hy⟩

theorem not_connects_of_rejected {e : Rejection} : ¬ s.Connects (.ok (.error e), t) source target := by
  rintro ⟨id, hid, _⟩
  cases Except.ok.inj hid

/-- Is a connection made between two nodes if it is asked for? -/
def Accepts (s : Session) (source target : String) : Prop := ∃ id, (s.createConnection source target).1 = .ok (.ok id)

instance (s : Session) (source target : String) : Decidable (s.Accepts source target) :=
  match h : (s.createConnection source target).1 with
  | .ok (.ok id) => isTrue ⟨id, h⟩
  | .ok (.error _) => isFalse fun ⟨_, hid⟩ => nomatch h.symm.trans hid
  | .error _ => isFalse fun ⟨_, hid⟩ => nomatch h.symm.trans hid

theorem graph_createConnection_of_ok {id : String} (h : (s.createConnection source target).1 = .ok (.ok id)) :
    (s.createConnection source target).2.graph = s.graph.addConnections [⟨id, source, target⟩] := by
  unfold createConnection at h ⊢
  split at h
  · cases Except.ok.inj h
  · split at h
    · cases h
    · rename_i new u hissue
      obtain ⟨rfl, rfl⟩ := issueConnectionId_eq_ok hissue
      rcases Store.content_addConnection s.store.issueConnectionId.2 ⟨s.store.connectionIds.issue.1, source, target⟩ with
        ⟨f, hadd⟩ | ⟨_, store, hadd, hcontent⟩
      · simp [hadd, onStore, Except.mapError, Except.map] at h
      · simp only [hadd, onStore, Except.mapError, Except.map, Except.ok.injEq] at h ⊢
        obtain rfl := h
        exact congrArg Content.graph hcontent

theorem connects_createConnection_iff {x y : String} :
    s.Connects (s.createConnection source target) x y ↔ s.Accepts source target ∧ x = source ∧ y = target := by
  constructor
  · rintro ⟨id, hid, hgraph⟩
    exact ⟨⟨id, hid⟩, Connects.unique ⟨id, hid, graph_createConnection_of_ok hid⟩ ⟨id, hid, hgraph⟩⟩
  · rintro ⟨⟨id, hid⟩, rfl, rfl⟩
    exact ⟨id, hid, graph_createConnection_of_ok hid⟩

/-- A click on a side of a node and then another click, whether the first is accepted or not. -/
def clickTwice (s : Session) (a p b q : String) : Outcome (Except Rejection String) := (s.startPending a p).2.completePending b q

theorem without_pending (h : s.pending = none) : { s with pending := none } = s := by
  obtain ⟨⟩ := s
  subst h
  rfl

theorem clickTwice_eq (hpending : s.pending = none) (hne : a ≠ b) (ha : s.graph.hasNode a) :
    s.clickTwice a p b q =
      if isSide p then
        if q = p then (.ok (.error .sameSide), s) else if p = childSide then s.createConnection a b else s.createConnection b a
      else (.ok (.error .nothingPending), s) := by
  unfold clickTwice startPending
  cases hp : isSide p with
  | false => simp [completePending, hpending]
  | true => simp [completePending, ha, Ne.symm hne, without_pending hpending]

theorem pending_createConnection (s : Session) (source target : String) : (s.createConnection source target).2.pending = s.pending :=
  (undisturbed_of_adds (adds_createConnection s source target)).pending

theorem pending_completePending (s : Session) (node side : String) : (s.completePending node side).2.pending = none := by
  unfold completePending
  split
  · assumption
  · dsimp only
    split_ifs
    · rfl
    · rfl
    · exact pending_createConnection _ _ _
    · exact pending_createConnection _ _ _

theorem isSide_iff : isSide p ↔ p = parentSide ∨ p = childSide := by simp [isSide]

/-- Does a click on a side of a node, with another node clicked afterwards, ask for the connection with these two ends? -/
def Asks (a p b source target : String) : Prop :=
  p = childSide ∧ source = a ∧ target = b ∨ p = parentSide ∧ source = b ∧ target = a

theorem Asks.isSide (h : Asks a p b source target) : isSide p := isSide_iff.2 (h.symm.imp And.left And.left)

theorem connects_clickTwice_iff (hpending : s.pending = none) (hne : a ≠ b) (ha : s.graph.hasNode a) :
    s.Connects (s.clickTwice a p b q) source target ↔ q ≠ p ∧ Asks a p b source target ∧ s.Accepts source target := by
  have hsides : childSide ≠ parentSide := by decide
  rw [clickTwice_eq hpending hne ha]
  split_ifs with hside hsame hchild
  · simp [not_connects_of_rejected, hsame]
  · rw [connects_createConnection_iff]
    constructor
    · rintro ⟨hok, rfl, rfl⟩
      exact ⟨hsame, .inl ⟨hchild, rfl, rfl⟩, hok⟩
    · rintro ⟨-, ⟨-, rfl, rfl⟩ | ⟨hparent, -⟩, hok⟩
      · exact ⟨hok, rfl, rfl⟩
      · exact absurd (hchild.symm.trans hparent) hsides
  · rw [connects_createConnection_iff]
    constructor
    · rintro ⟨hok, rfl, rfl⟩
      exact ⟨hsame, .inr ⟨(isSide_iff.1 hside).resolve_right hchild, rfl, rfl⟩, hok⟩
    · rintro ⟨-, ⟨hchild', -⟩ | ⟨-, rfl, rfl⟩, hok⟩
      · exact absurd hchild' hchild
      · exact ⟨hok, rfl, rfl⟩
  · exact iff_of_false not_connects_of_rejected fun h => hside h.2.1.isSide

/-- What the gesture is to do with two clicks: the order of the clicks makes no difference to the connection that is made, if any, and one
is made only of a child side and a parent side, from the node of the child side to the other. -/
structure Pairs (s : Session) (a p b q : String) : Prop where
  symmetric : ∀ source target, s.Connects (s.clickTwice a p b q) source target ↔ s.Connects (s.clickTwice b q a p) source target
  complementary : ∀ {source target}, s.Connects (s.clickTwice a p b q) source target →
    p = "child" ∧ q = "parent" ∧ source = a ∧ target = b ∨ p = "parent" ∧ q = "child" ∧ source = b ∧ target = a

theorem asks_comm (hp : isSide p) (hq : isSide q) (hne : q ≠ p) : Asks a p b source target ↔ Asks b q a source target := by
  rcases isSide_iff.1 hp with rfl | rfl <;> rcases isSide_iff.1 hq with rfl | rfl <;> grind [Asks, parentSide, childSide]

theorem pairs_of_sides (hpending : s.pending = none) (hne : a ≠ b) (ha : s.graph.hasNode a) (hb : s.graph.hasNode b) (hp : isSide p)
    (hq : isSide q) : s.Pairs a p b q where
  symmetric source target := by
    rw [connects_clickTwice_iff hpending hne ha, connects_clickTwice_iff hpending hne.symm hb, ne_comm]
    refine and_congr_right fun hsides => ?_
    rw [asks_comm hp hq hsides.symm]
  complementary h := by
    obtain ⟨hsides, hasks, -⟩ := (connects_clickTwice_iff hpending hne ha).1 h
    rcases hasks with ⟨rfl, hsource, htarget⟩ | ⟨rfl, hsource, htarget⟩
    · exact .inl ⟨rfl, (isSide_iff.1 hq).resolve_right hsides, hsource, htarget⟩
    · exact .inr ⟨rfl, (isSide_iff.1 hq).resolve_left hsides, hsource, htarget⟩

theorem not_connects_of_beside (hpending : s.pending = none) (hne : a ≠ b) (ha : s.graph.hasNode a) (hp : ¬ isSide p) :
    ¬ s.Connects (s.clickTwice a p b q) source target := fun h =>
  hp ((connects_clickTwice_iff hpending hne ha).1 h).2.1.isSide

theorem pairs_of_never (h : ∀ source target, ¬ s.Connects (s.clickTwice a p b q) source target)
    (h' : ∀ source target, ¬ s.Connects (s.clickTwice b q a p) source target) : s.Pairs a p b q where
  symmetric source target := iff_of_false (h source target) (h' source target)
  complementary hmade := absurd hmade (h _ _)

theorem Pairs.swap (h : s.Pairs a p b q) : s.Pairs b q a p where
  symmetric source target := (h.symmetric source target).symm
  complementary hmade := by
    rcases h.complementary ((h.symmetric _ _).2 hmade) with ⟨hp, hq, hsource, htarget⟩ | ⟨hp, hq, hsource, htarget⟩
    · exact .inr ⟨hq, hp, hsource, htarget⟩
    · exact .inl ⟨hq, hp, hsource, htarget⟩

theorem pairs_beside_iff (hpending : s.pending = none) (hne : a ≠ b) (ha : s.graph.hasNode a) (hb : s.graph.hasNode b) (hp : isSide p)
    (hq : ¬ isSide q) : s.Pairs a p b q ↔ ∀ source target, Asks a p b source target → ¬ s.Accepts source target := by
  have hsides : q ≠ p := fun h => hq (h ▸ hp)
  constructor
  · intro h source target hasks hok
    have hmade := (h.symmetric source target).1 ((connects_clickTwice_iff hpending hne ha).2 ⟨hsides, hasks, hok⟩)
    exact not_connects_of_beside hpending hne.symm hb hq hmade
  · intro h
    refine pairs_of_never (fun source target hmade => ?_) fun _ _ => not_connects_of_beside hpending hne.symm hb hq
    obtain ⟨-, hasks, hok⟩ := (connects_clickTwice_iff hpending hne ha).1 hmade
    exact h source target hasks hok

/-- Two clicks on different nodes make the connection from the child side to the parent side, in whichever order, if both are on a side or
none is, or if the one that is on a side asks for a connection that is not accepted; and not otherwise. Afterwards no click is pending. -/
theorem gestures_pair_iff (hpending : s.pending = none) (hne : a ≠ b) (ha : s.graph.hasNode a) (hb : s.graph.hasNode b) :
    (s.Pairs a p b q ↔ (isSide p ↔ isSide q) ∨
      ∀ source target, Asks a p b source target ∨ Asks b q a source target → ¬ s.Accepts source target) ∧
        ∀ (u : Session) (node side : String), (u.completePending node side).2.pending = none := by
  refine ⟨?_, pending_completePending⟩
  by_cases hp : isSide p <;> by_cases hq : isSide q
  · exact iff_of_true (pairs_of_sides hpending hne ha hb hp hq) (.inl (iff_of_true hp hq))
  · have hother : ∀ x y, ¬ Asks b q a x y := fun x y h => hq h.isSide
    rw [pairs_beside_iff hpending hne ha hb hp hq, or_iff_right fun h => hq (h.1 hp)]
    simp only [hother, or_false]
  · have hother : ∀ x y, ¬ Asks a p b x y := fun x y h => hp h.isSide
    have hswap : s.Pairs a p b q ↔ s.Pairs b q a p := ⟨Pairs.swap, Pairs.swap⟩
    rw [hswap, pairs_beside_iff hpending hne.symm hb ha hq hp, or_iff_right fun h => hp (h.2 hq)]
    simp only [hother, false_or]
  · refine iff_of_true (pairs_of_never (fun _ _ => ?_) fun _ _ => ?_) (.inl (iff_of_false hp hq))
    · exact not_connects_of_beside hpending hne ha hp
    · exact not_connects_of_beside hpending hne.symm hb hq

def twoNodes : Session :=
  (start { grid := { snap := false } } .standard).afterAll
    [.request "create_node" [.text "Sequence", .text "composite", .float 0.0, .float 0.0],
      .request "create_node" [.text "AlwaysSuccess", .text "action", .float 0.0, .float 100.0]]

theorem twoNodes_ready :
    twoNodes.pending = none ∧ "node_0" ≠ "node_1" ∧ twoNodes.graph.hasNode "node_0" ∧ twoNodes.graph.hasNode "node_1" := by
  decide +kernel

theorem twoNodes_connects (h : q ≠ "child") :
    twoNodes.Connects (twoNodes.clickTwice "node_0" "child" "node_1" q) "node_0" "node_1" := by
  obtain ⟨hpending, hne, hfirst, -⟩ := twoNodes_ready
  have hok : twoNodes.Accepts "node_0" "node_1" := by decide +kernel
  exact (connects_clickTwice_iff hpending hne hfirst).2 ⟨h, .inl ⟨rfl, rfl, rfl⟩, hok⟩

theorem twoNodes_pair :
    let s := twoNodes
    (s.pending = none ∧ "node_0" ≠ "node_1" ∧ s.graph.hasNode "node_0" ∧ s.graph.hasNode "node_1") ∧
      s.Pairs "node_0" "child" "node_1" "parent" ∧ s.Connects (s.clickTwice "node_1" "parent" "node_0" "child") "node_0" "node_1" ∧
        (s.completePending "node_1" "elsewhere").2.pending = none := by
  intro s
  obtain ⟨hpending, hne, hfirst, hsecond⟩ := twoNodes_ready
  obtain ⟨hpairs, hnone⟩ := gestures_pair_iff (p := "child") (q := "parent") hpending hne hfirst hsecond
  have hp : s.Pairs "node_0" "child" "node_1" "parent" := hpairs.2 (.inl (by decide))
  exact ⟨twoNodes_ready, hp, (hp.symmetric _ _).1 (twoNodes_connects (by decide)), hnone s "node_1" "elsewhere"⟩

/-- A click on a child side and then one elsewhere make a connection; in the other order they make none. -/
theorem twoNodes_elsewhere_not_pair :
    let s := twoNodes
    (s.pending = none ∧ "node_0" ≠ "node_1" ∧ s.graph.hasNode "node_0" ∧ s.graph.hasNode "node_1") ∧
      s.Connects (s.clickTwice "node_0" "child" "node_1" "elsewhere") "node_0" "node_1" ∧
        (∀ source target, ¬ s.Connects (s.clickTwice "node_1" "elsewhere" "node_0" "child") source target) ∧
          ¬ s.Pairs "node_0" "child" "node_1" "elsewhere" := by
  intro s
  obtain ⟨hpending, hne, -, hsecond⟩ := twoNodes_ready
  have hmade := twoNodes_connects (q := "elsewhere") (by decide)
  have hother : ∀ source target, ¬ s.Connects (s.clickTwice "node_1" "elsewhere" "node_0" "child") source target := fun _ _ =>
    not_connects_of_beside hpending hne.symm hsecond (by decide)
  exact ⟨twoNodes_ready, hmade, hother, fun h => hother _ _ ((h.symmetric _ _).1 hmade)⟩

end Session

end BehaviorTree
