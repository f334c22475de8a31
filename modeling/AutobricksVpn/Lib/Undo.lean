/-
# `AutobricksVpn.Lib.Undo` — old values, and taking them back

A program changes the values of some keys and in the end gives them back.  Before
it changes a key it logs the value it finds there; to give back it writes the
logged values, the last one first.

`undo log f` is what that makes of the values `f`.  It stays the same while the
program logs a key (`undo_log`), changes a key that is in the log
(`undo_update_mem`) and writes back what it logged last (`undo_writeBack`), in any
order and however often, also if a key is logged twice.  What others do to keys
that are not in the log shows through (`undo_update_not_mem`).
-/
import Mathlib.Logic.Function.Basic
import Mathlib.Data.List.Basic

namespace Undo

variable {κ ν : Type*} [DecidableEq κ]

/-- The values, once the log has been written back from its end to its start. -/
def undo : List (κ × ν) → (κ → ν) → κ → ν
  | [], f => f
  | (k, v) :: log, f => Function.update (undo log f) k v

variable {log : List (κ × ν)} {f g : κ → ν} {k : κ} {v : ν}

theorem undo_writeBack :
    undo (log ++ [(k, v)]) f = undo log (Function.update f k v) := by
  induction log with
  | nil => rfl
  | cons entry log ih => rw [List.cons_append, undo, ih, undo]

theorem undo_log : undo (log ++ [(k, f k)]) f = undo log f := by
  rw [undo_writeBack, Function.update_eq_self]

/-- What stands at a key of the log is overwritten. -/
theorem undo_congr : (k ∉ log.map Prod.fst → f k = g k) → undo log f k = undo log g k := by
  intro h
  induction log with
  | nil => exact h List.not_mem_nil
  | cons entry log ih =>
      rw [undo, undo]
      by_cases hfirst : k = entry.1
      · rw [hfirst, Function.update_self, Function.update_self]
      · rw [Function.update_of_ne hfirst, Function.update_of_ne hfirst]
        refine ih fun hlog => h ?_
        rw [List.map_cons, List.mem_cons, not_or]
        exact ⟨hfirst, hlog⟩

theorem undo_update_mem (h : k ∈ log.map Prod.fst) :
    undo log (Function.update f k v) = undo log f := by
  funext j
  refine undo_congr fun hj => Function.update_of_ne ?_ _ _
  rintro rfl
  exact hj h

theorem undo_not_mem (h : k ∉ log.map Prod.fst) : undo log f k = f k := by
  induction log with
  | nil => rfl
  | cons entry log ih =>
      rw [List.map_cons, List.mem_cons, not_or] at h
      rw [undo, Function.update_of_ne h.1, ih h.2]

theorem undo_update_not_mem (h : k ∉ log.map Prod.fst) :
    undo log (Function.update f k v) = Function.update (undo log f) k v := by
  funext j
  by_cases hj : j = k
  · rw [hj, undo_not_mem h, Function.update_self, Function.update_self]
  · rw [Function.update_of_ne hj]
    exact undo_congr fun _ => Function.update_of_ne hj _ _

end Undo
