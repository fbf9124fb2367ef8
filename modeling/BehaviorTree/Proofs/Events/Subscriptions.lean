import BehaviorTree.Events.Bus
import Mathlib.Data.List.Count
import Mathlib.Data.List.Range

/-!
Subscriptions and how they end. A subscription gives back a function that ends it. What the function takes back is a registration that
is the same, whichever subscription it came from. So it ends its own subscription, or another one to the same effect, the first time;
but if it is called again, it ends one more.
-/

set_option autoImplicit false

namespace BehaviorTree

variable {H : Type} [DecidableEq H]

inductive Use (H : Type) where
  | subscribe (s : Subscription H)
  /-- Calls the function that the subscription of this number gave back. -/
  | unsubscribe (number : Nat)

/-- A bus with the subscriptions that were taken out, and the numbers of those whose functions were called. -/
structure Registry (H : Type) where
  bus : Bus H := {}
  taken : List (Subscription H) := []
  called : List Nat := []

namespace Registry

/-- There is no function of a subscription that has not been taken out. -/
def use (r : Registry H) : Use H → Registry H
  | .subscribe s => { r with bus := r.bus.subscribe s, taken := r.taken ++ [s] }
  | .unsubscribe n =>
    match r.taken[n]? with
    | some s => { r with bus := r.bus.withdraw s, called := r.called ++ [n] }
    | none => r

def run (us : List (Use H)) : Registry H := us.foldl use {}

/-- The numbers of the subscriptions whose functions were not called yet. -/
def lasting (r : Registry H) : List Nat := (List.range r.taken.length).filter fun n => n ∉ r.called

/-- How many subscriptions like this should be there. -/
def outstanding (r : Registry H) (s : Subscription H) : Nat := r.lasting.countP fun n => r.taken[n]? = some s

variable {r : Registry H} {s t : Subscription H} {us : List (Use H)} {n : Nat}

theorem count_handlers (b : Bus H) (i : Interest) (h : H) : (b.handlers i).count h = b.registrations.count ⟨i, h⟩ := by
  rw [Bus.handlers, List.count, List.countP_map, List.countP_filter, List.count]
  refine List.countP_congr fun s _ => ?_
  obtain ⟨j, k⟩ := s
  simp [Subscription.mk.injEq, and_comm]

theorem run_concat (us : List (Use H)) (u : Use H) : run (us ++ [u]) = (run us).use u := List.foldl_concat ..

theorem called_lt (us : List (Use H)) : ∀ n ∈ (run us).called, n < (run us).taken.length := by
  induction us using List.reverseRecOn with
  | nil => simp [run]
  | append_singleton us u ih =>
    rw [run_concat]
    cases u with
    | subscribe s =>
      intro n hn
      have hlt := ih n hn
      simp only [use, List.length_append]
      omega
    | unsubscribe m =>
      cases hs : (run us).taken[m]? with
      | none => simpa only [use, hs] using ih
      | some s =>
        have hlt : m < (run us).taken.length := (List.getElem?_eq_some_iff.1 hs).1
        simpa [use, hs, or_imp, forall_and] using ⟨ih, hlt⟩

theorem count_subscribe : (r.use (.subscribe s)).bus.registrations.count t = r.bus.registrations.count t + if s = t then 1 else 0 := by
  simp [use, Bus.subscribe, List.count_append, List.count_singleton]

theorem outstanding_subscribe (h : ∀ n ∈ r.called, n < r.taken.length) :
    (r.use (.subscribe s)).outstanding t = r.outstanding t + if s = t then 1 else 0 := by
  have hnew : r.taken.length ∉ r.called := fun hmem => Nat.lt_irrefl _ (h _ hmem)
  have hlasting : (r.use (.subscribe s)).lasting = r.lasting ++ [r.taken.length] := by
    rw [lasting, use, List.length_append, List.length_singleton, List.range_succ, List.filter_append,
      List.filter_cons_of_pos (by simpa using hnew), List.filter_nil, lasting]
  have hold : r.lasting.countP (fun n => (r.taken ++ [s])[n]? = some t) = r.outstanding t := by
    refine List.countP_congr fun n hn => ?_
    have hlt : n < r.taken.length := List.mem_range.1 (List.mem_filter.1 hn).1
    rw [List.getElem?_append_left hlt]
  have hlast : (r.taken ++ [s])[r.taken.length]? = some s := List.getElem?_concat_length
  have htaken : (r.use (.subscribe s)).taken = r.taken ++ [s] := rfl
  rw [outstanding, hlasting, htaken, List.countP_append, hold, List.countP_singleton, hlast]
  simp only [Option.some.injEq, decide_eq_true_eq]

theorem use_unsubscribe (h : r.taken[n]? = some s) :
    r.use (.unsubscribe n) = { r with bus := r.bus.withdraw s, called := r.called ++ [n] } := by
  rw [use, h]

theorem count_unsubscribe (h : r.taken[n]? = some s) :
    (r.use (.unsubscribe n)).bus.registrations.count t = r.bus.registrations.count t - if s = t then 1 else 0 := by
  rw [use_unsubscribe h, Bus.withdraw, List.count_erase]
  simp only [beq_iff_eq]

theorem outstanding_unsubscribe (h : r.taken[n]? = some s) (hn : n ∉ r.called) :
    (r.use (.unsubscribe n)).outstanding t = r.outstanding t - if s = t then 1 else 0 := by
  have hnodup : r.lasting.Nodup := List.nodup_range.filter _
  have hmem : n ∈ r.lasting := List.mem_filter.2 ⟨List.mem_range.2 (List.getElem?_eq_some_iff.1 h).1, by simpa using hn⟩
  have hlasting : (r.use (.unsubscribe n)).lasting = r.lasting.erase n := by
    rw [hnodup.erase_eq_filter, use_unsubscribe h, lasting, lasting, List.filter_filter]
    refine List.filter_congr fun m _ => ?_
    by_cases hm : m = n <;> simp [hm]
  have htaken : (r.use (.unsubscribe n)).taken = r.taken := by rw [use_unsubscribe h]
  rw [outstanding, hlasting, htaken, List.countP_erase, outstanding]
  simp [hmem, h]

theorem outstanding_again (h : r.taken[n]? = some s) (hn : n ∈ r.called) : (r.use (.unsubscribe n)).outstanding t = r.outstanding t := by
  have hlasting : (r.use (.unsubscribe n)).lasting = r.lasting := by
    rw [use_unsubscribe h, lasting, lasting]
    refine List.filter_congr fun m _ => ?_
    by_cases hm : m = n <;> simp [hm, hn]
  have htaken : (r.use (.unsubscribe n)).taken = r.taken := by rw [use_unsubscribe h]
  rw [outstanding, hlasting, htaken, outstanding]

def IsExact (r : Registry H) : Prop := ∀ s, r.bus.registrations.count s = r.outstanding s

theorem isExact_iff : r.IsExact ↔ ∀ i h, (r.bus.handlers i).count h = r.outstanding ⟨i, h⟩ := by
  simp only [count_handlers]
  exact ⟨fun hr i h => hr ⟨i, h⟩, fun hr s => hr s.interest s.handler⟩

theorem count_le_outstanding (us : List (Use H)) (s : Subscription H) :
    (run us).bus.registrations.count s ≤ (run us).outstanding s := by
  induction us using List.reverseRecOn with
  | nil => exact Nat.zero_le _
  | append_singleton us u ih =>
    rw [run_concat]
    cases u with
    | subscribe t =>
      rw [count_subscribe, outstanding_subscribe (called_lt us)]
      omega
    | unsubscribe n =>
      cases ht : (run us).taken[n]? with
      | none => simpa [use, ht] using ih
      | some t =>
        rw [count_unsubscribe ht]
        by_cases hn : n ∈ (run us).called
        · rw [outstanding_again ht hn]
          omega
        · rw [outstanding_unsubscribe ht hn]
          omega

/-- A step keeps the numbers right, unless a function is called again while there are subscriptions like its own. -/
theorem IsExact.use (h : r.IsExact) (hr : ∀ n ∈ r.called, n < r.taken.length) (u : Use H)
    (hagain : ∀ n s, u = .unsubscribe n → n ∈ r.called → r.taken[n]? = some s → r.outstanding s = 0) : (r.use u).IsExact := by
  intro t
  cases u with
  | subscribe s => rw [count_subscribe, outstanding_subscribe hr, h t]
  | unsubscribe n =>
    cases hs : r.taken[n]? with
    | none => simpa [Registry.use, hs] using h t
    | some s =>
      rw [count_unsubscribe hs, h t]
      by_cases hn : n ∈ r.called
      · have hnone := hagain n s rfl hn hs
        rw [outstanding_again hs hn]
        split_ifs with hst
        · rw [← hst, hnone]
        · rfl
      · rw [outstanding_unsubscribe hs hn]

/-- After each step of a run there are as many registrations of a handler as there are subscriptions of it whose own functions were not
called, exactly if no function is called again while there are subscriptions like its own. There are never more. -/
theorem unsubscribing_ends_own_iff (us : List (Use H)) :
    ((∀ p, p <+: us → ∀ i h, ((run p).bus.handlers i).count h = (run p).outstanding ⟨i, h⟩) ↔
        ∀ p n s, p ++ [.unsubscribe n] <+: us → n ∈ (run p).called → (run p).taken[n]? = some s → (run p).outstanding s = 0) ∧
      ∀ i h, ((run us).bus.handlers i).count h ≤ (run us).outstanding ⟨i, h⟩ := by
  refine ⟨⟨fun hall p n s hp hn hs => ?_, fun hagain p hp => isExact_iff.1 ?_⟩, fun i h => ?_⟩
  · have hbefore : (run p).IsExact := isExact_iff.2 (hall p ((List.prefix_append p _).trans hp))
    have hafter : (run (p ++ [.unsubscribe n])).IsExact := isExact_iff.2 (hall _ hp)
    have hone := hafter s
    rw [run_concat, count_unsubscribe hs, outstanding_again hs hn, hbefore s, if_pos rfl] at hone
    omega
  · induction p using List.reverseRecOn with
    | nil => exact fun s => rfl
    | append_singleton p u ih =>
      rw [run_concat]
      refine (ih ((List.prefix_append p _).trans hp)).use (called_lt p) u fun n s hu hn hs => ?_
      exact hagain p n s (hu ▸ hp) hn hs
  · rw [count_handlers]
    exact count_le_outstanding us ⟨i, h⟩

/-- A function is called again when no subscription like its own is left, but one for every topic, and then one like it comes. -/
def spentRun : List (Use String) :=
  [.subscribe ⟨.topic .node, "log"⟩, .subscribe ⟨.everything, "log"⟩, .unsubscribe 0, .unsubscribe 0,
    .subscribe ⟨.topic .node, "log"⟩]

theorem spentRun_ends_own :
    (∀ p, p <+: spentRun → ∀ i h, ((run p).bus.handlers i).count h = (run p).outstanding ⟨i, h⟩) ∧
      (run spentRun).called = [0, 0] ∧ (run spentRun).bus.handlers (.topic .node) = ["log"] := by
  refine ⟨(unsubscribing_ends_own_iff spentRun).1.2 fun p n s hp hn hs => ?_, by decide, by decide⟩
  rcases p with _ | ⟨_, _ | ⟨_, _ | ⟨_, _ | ⟨_, _ | ⟨_, _⟩⟩⟩⟩⟩ <;>
    simp only [spentRun, List.nil_append, List.cons_append, List.cons_prefix_cons, List.prefix_nil, List.append_eq_nil_iff,
      Use.unsubscribe.injEq, reduceCtorEq, and_false, false_and] at hp
  · obtain ⟨rfl, rfl, rfl, _⟩ := hp
    exact absurd hn (by decide)
  · obtain ⟨rfl, rfl, rfl, rfl, _⟩ := hp
    obtain rfl := Option.some.inj hs
    decide

def repeatedRun : List (Use String) :=
  [.subscribe ⟨.topic .node, "log"⟩, .subscribe ⟨.topic .node, "log"⟩, .unsubscribe 1, .unsubscribe 1]

/-- The other function was never called, but its subscription has ended. -/
theorem repeatedRun_ends_other :
    (run repeatedRun).called = [1, 1] ∧ (run repeatedRun).outstanding ⟨.topic .node, "log"⟩ = 1 ∧
      (run repeatedRun).bus.handlers (.topic .node) = [] := by
  decide

end Registry

end BehaviorTree
