import BehaviorTree.Proofs.Session.Loading
import BehaviorTree.Proofs.Session.Run

/-!
Calls of a session. One that leaves its store to it is an act, or a document is taken over, or nothing happens. What the acts keep, and
what taking over a document brings about, then holds in every run of such calls; what requests to the store keep, too, holds in every run.
-/

set_option autoImplicit false

namespace BehaviorTree.Session

/-- Does a call not go to the store directly, and has every document that it may take over a property? -/
def Call.TakesOver (Q : Loaded → Prop) : Call → Prop
  | .request name _ => name.startsWith storeMark = false
  | .loadSource source => ∀ l, Document.decode source = .ok l → Q l
  | .loadFile files path => ∀ text l, readText files path = .ok text → Document.decode (.text text) = .ok l → Q l
  | .apply l => Q l

variable {P : Session → Prop} {Q : Loaded → Prop} {s : Session} {c : Call}

theorem kept_by_loadSource (happlied : ∀ s l, Q l → P s → P (s.apply l).2) {source : Value}
    (hdecoded : ∀ l, Document.decode source = .ok l → Q l) (hs : P s) : P (s.loadSource source).2 := by
  rcases loadSource_cases s source with ⟨f, hload⟩ | ⟨l, t, hl, _, happly, hload⟩
  · rw [hload]
    exact hs
  · have ht : P (s.apply l).2 := happlied s l (hdecoded l hl) hs
    rw [happly] at ht
    rw [hload]
    exact ht

theorem kept_by_call (hact : ∀ s t asked, Act s asked t → P s → P t) (happlied : ∀ s l, Q l → P s → P (s.apply l).2)
    (hc : c.TakesOver Q) (hs : P s) : P (s.after c) := by
  cases c with
  | request name arguments => exact hact _ _ name (act_request s arguments hc) hs
  | loadSource source => exact kept_by_loadSource happlied hc hs
  | loadFile files path =>
    rw [after, loadFile]
    split
    · exact hs
    · rename_i text htext
      exact kept_by_loadSource happlied (fun l hl => hc text l htext hl) hs
  | apply l => exact happlied s l hc hs

/-- What every act keeps, and what a session still has when a document of the kind was taken over, no run of such calls loses. -/
theorem kept_by_calls (hact : ∀ s t asked, Act s asked t → P s → P t) (happlied : ∀ s l, Q l → P s → P (s.apply l).2)
    {cs : List Call} (hcs : ∀ c ∈ cs, c.TakesOver Q) (hs : P s) : P (s.afterAll cs) := by
  induction cs generalizing s with
  | nil => exact hs
  | cons c r ih =>
    have hfirst : P (s.after c) := kept_by_call hact happlied (hcs c List.mem_cons_self) hs
    exact ih (fun d hd => hcs d (List.mem_cons_of_mem _ hd)) hfirst

theorem kept_by_any_call (hact : ∀ s t asked, Act s asked t → P s → P t) (happlied : ∀ s l, P s → P (s.apply l).2)
    (hstored : ∀ s name arguments, P s → P (s.onStore (s.store.request name arguments)).2) (hs : P s) : P (s.after c) := by
  have htaken : ∀ c : Call, c.TakesOver (fun _ => True) → P (s.after c) := fun _ hc =>
    kept_by_call hact (fun s l _ => happlied s l) hc hs
  cases c with
  | request name arguments =>
    cases hmark : name.startsWith storeMark with
    | true =>
      rw [after, request, if_pos hmark]
      exact hstored s _ arguments hs
    | false => exact htaken _ hmark
  | loadSource source => exact htaken _ fun _ _ => trivial
  | loadFile files path => exact htaken _ fun _ _ _ _ => trivial
  | apply l => exact happlied s l hs

theorem kept_by_any_calls (hact : ∀ s t asked, Act s asked t → P s → P t) (happlied : ∀ s l, P s → P (s.apply l).2)
    (hstored : ∀ s name arguments, P s → P (s.onStore (s.store.request name arguments)).2) (hs : P s) (cs : List Call) :
    P (s.afterAll cs) := by
  induction cs generalizing s with
  | nil => exact hs
  | cons c r ih => exact ih (kept_by_any_call hact happlied hstored hs)

end BehaviorTree.Session
