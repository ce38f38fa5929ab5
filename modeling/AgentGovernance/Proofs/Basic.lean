import Mathlib.Data.List.Nodup

/-!
# Checks and drawn ids

A chain of checks that succeeds has succeeded at every link.

Some of the actions of a run draw an id. If no id is drawn twice, then none is in a prefix of the
run, and what an action draws has not been drawn before it.
-/
namespace AgentGovernance

theorem exists_of_bind_eq_ok {ε α β : Type} {x : Except ε α} {next : α → Except ε β} {b : β}
    (h : (x >>= next) = .ok b) : ∃ a, x = .ok a ∧ next a = .ok b := by
  cases x with
  | error e => cases h
  | ok a => exact ⟨a, rfl, h⟩

section Draws

variable {α ι : Type} {draw? : α → Option ι} {actions more : List α}

theorem nodup_draws_of_append (h : ((actions ++ more).filterMap draw?).Nodup) :
    (actions.filterMap draw?).Nodup := by
  rw [List.filterMap_append] at h
  exact h.of_append_left

theorem not_drawn_before {a : α} {i : ι} (h : ((actions ++ [a]).filterMap draw?).Nodup)
    (ha : draw? a = some i) : i ∉ actions.filterMap draw? := by
  rw [List.filterMap_append] at h
  intro hi
  have hdrawn : i ∈ [a].filterMap draw? :=
    List.mem_filterMap.mpr ⟨a, List.mem_singleton_self a, ha⟩
  exact List.disjoint_of_nodup_append h hi hdrawn

end Draws

end AgentGovernance
