import BehaviorTree.Proofs.Session.Requests

/-!
Runs of a session. A session is asked one thing after the other; whether it succeeds or fails, it goes on from the state it is in
then. As long as it is only edited, its graph stays a forest.
-/

set_option autoImplicit false

namespace BehaviorTree.Session

inductive Call where
  | request (name : String) (arguments : List Value)
  | loadSource (source : Value)
  | loadFile (files : Files) (path : Path)
  | apply (loaded : Loaded)

/-- Editing is everything but loading and what goes to the store directly. -/
def Call.isEdit : Call → Bool
  | .request name _ => !name.startsWith storeMark
  | .loadSource _ => false
  | .loadFile _ _ => false
  | .apply _ => false

def after (s : Session) : Call → Session
  | .request name arguments => (s.request name arguments).2
  | .loadSource source => (s.loadSource source).2
  | .loadFile files path => (s.loadFile files path).2
  | .apply loaded => (s.apply loaded).2

def afterAll (s : Session) (cs : List Call) : Session := cs.foldl after s

variable {s : Session} {c : Call} {cs : List Call}

theorem edited_after (h : c.isEdit) : Edited s (s.after c) := by
  cases c with
  | request name arguments => exact edited_request s arguments (by simpa [Call.isEdit] using h)
  | loadSource source => cases h
  | loadFile files path => cases h
  | apply loaded => cases h

theorem edited_afterAll (h : ∀ c ∈ cs, c.isEdit) : Edited s (s.afterAll cs) := by
  induction cs generalizing s with
  | nil => exact edited_refl s
  | cons c r ih =>
    have hfirst : Edited s (s.after c) := edited_after (h c List.mem_cons_self)
    exact hfirst.trans (ih fun d hd => h d (List.mem_cons_of_mem _ hd))

theorem Edited.isForest {t : Session} (h : Edited s t) (hs : s.graph.IsForest) : t.graph.IsForest :=
  Core.steps_isForest (h hs.toIsSound) hs

theorem start_isForest (config : EditorConfig) (catalog : Catalog) : (start config catalog).graph.IsForest :=
  Graph.isForest_empty

/-- A forest stays a forest under every editing call, whether it succeeds or fails, and so every run of editing calls from a fresh
session keeps one, whatever the catalog is. -/
theorem edits_keep_forest :
    (∀ (s : Session) (c : Call), c.isEdit → s.graph.IsForest → (s.after c).graph.IsForest) ∧
      ∀ (config : EditorConfig) (catalog : Catalog) (cs : List Call), (∀ c ∈ cs, c.isEdit) →
        ((start config catalog).afterAll cs).graph.IsForest :=
  ⟨fun _ _ hc hs => (edited_after hc).isForest hs, fun config catalog _ hcs =>
    (edited_afterAll hcs).isForest (start_isForest config catalog)⟩

def cloningRun : List Call :=
  [.request "create_node" [.text "Sequence", .text "composite", .float 0.0, .float 0.0],
    .request "create_node" [.text "AlwaysSuccess", .text "action", .float 0.0, .float 100.0],
    .request "create_connection" [.text "node_0", .text "node_1"],
    .request "clone_nodes" [.list [.text "node_0", .text "node_1"]],
    .request "create_connection" [.text "node_1", .text "node_0"]]

/-- The connection is cloned with its ends, and the one that would close a cycle is refused. -/
theorem cloningRun_keeps_forest :
    let s := (start { grid := { snap := false } } .standard).afterAll cloningRun
    (∀ c ∈ cloningRun, c.isEdit) ∧ s.graph.IsForest ∧ s.graph.ids = ["node_0", "node_1", "node_2", "node_3"] ∧
      s.graph.connectionList = [⟨"conn_0", "node_0", "node_1"⟩, ⟨"conn_1", "node_2", "node_3"⟩] ∧
      (s.after (.request "delete_node" [.text "node_2"])).graph.IsForest := by
  intro s
  have hedits : ∀ c ∈ cloningRun, c.isEdit := by decide +kernel
  have hs : s.graph.IsForest := edits_keep_forest.2 { grid := { snap := false } } .standard cloningRun hedits
  have hdeleted := edits_keep_forest.1 s (.request "delete_node" [.text "node_2"]) (by decide +kernel) hs
  exact ⟨hedits, hs, by decide +kernel, by decide +kernel, hdeleted⟩

end BehaviorTree.Session
