import Mathlib.Data.List.Nodup

/-!
Lists without their repetitions. Each element is kept where it comes first, and grouping a list by different keys leaves out nothing.
-/

set_option autoImplicit false

namespace BehaviorTree

variable {α β : Type} [DecidableEq β]

theorem nodup_eraseDups (ks : List β) : ks.eraseDups.Nodup := by
  cases ks with
  | nil => exact List.nodup_nil
  | cons k r =>
    rw [List.eraseDups_cons, List.nodup_cons]
    exact ⟨by simp [List.mem_eraseDups], nodup_eraseDups _⟩
termination_by ks.length
decreasing_by
  have hle := List.length_filter_le (fun j => !(j == k)) r
  simp only [List.length_cons]
  omega

theorem eraseDups_concat (ks : List β) (k : β) :
    (ks ++ [k]).eraseDups = if k ∈ ks then ks.eraseDups else ks.eraseDups ++ [k] := by
  rw [List.eraseDups_append, List.cons_removeAll]
  by_cases hk : k ∈ ks <;> simp [hk, List.eraseDups_cons]

theorem flatMap_filter_perm {ks : List β} (as : List α) (key : α → β) (hn : ks.Nodup) (hkeys : ∀ a ∈ as, key a ∈ ks) :
    (ks.flatMap fun k => as.filter fun a => key a = k).Perm as := by
  induction ks generalizing as with
  | nil =>
    rw [List.eq_nil_iff_forall_not_mem.2 fun a ha => List.not_mem_nil (hkeys a ha)]
    rfl
  | cons k ks ih =>
    obtain ⟨hk, hks⟩ := List.nodup_cons.1 hn
    let rest := as.filter fun a => !decide (key a = k)
    have hrest : ∀ a ∈ rest, key a ∈ ks := fun a ha =>
      (List.mem_cons.1 (hkeys a (List.mem_of_mem_filter ha))).resolve_left (by simpa using List.of_mem_filter ha)
    have hgroups : (ks.flatMap fun j => as.filter fun a => key a = j) = ks.flatMap fun j => rest.filter fun a => key a = j := by
      refine List.flatMap_congr fun j hj => ?_
      rw [List.filter_filter]
      refine List.filter_congr fun a _ => ?_
      have hne : j ≠ k := fun he => hk (he ▸ hj)
      by_cases h : key a = j <;> simp [h, hne]
    rw [List.flatMap_cons, hgroups]
    exact ((ih rest hks hrest).append_left _).trans (List.filter_append_perm ..)

end BehaviorTree
