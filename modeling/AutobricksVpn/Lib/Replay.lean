/-
# `AutobricksVpn.Lib.Replay` — a set from the log of its changes

A log says what was added to a set and what was removed.  Replayed from the set
at its beginning it gives the set at its end; the difference of two lists of
members, logged, leads from the one to the other (`replay_difference`).
-/
import Mathlib.Data.Finset.Dedup
import Mathlib.Data.Finset.Erase
import Mathlib.Data.Finset.Lattice.Lemmas
import Mathlib.Data.Finset.SDiff
import Mathlib.Tactic.Tauto

inductive SetChange (α : Type*) where
  | add (a : α)
  | remove (a : α)

namespace SetChange

variable {α : Type*} [DecidableEq α]

def apply (s : Finset α) : SetChange α → Finset α
  | .add a => insert a s
  | .remove a => s.erase a

def replay (s : Finset α) (log : List (SetChange α)) : Finset α := log.foldl apply s

@[simp] theorem replay_nil (s : Finset α) : replay s [] = s := rfl

theorem replay_append (s : Finset α) (log more : List (SetChange α)) :
    replay s (log ++ more) = replay (replay s log) more :=
  List.foldl_append

theorem replay_adds (s : Finset α) (l : List α) : replay s (l.map .add) = l.toFinset ∪ s := by
  induction l generalizing s with
  | nil => exact (Finset.empty_union s).symm
  | cons a l ih =>
      have hcons := ih (insert a s)
      rw [Finset.union_insert, ← Finset.insert_union, ← List.toFinset_cons] at hcons
      exact hcons

theorem replay_removes (s : Finset α) (l : List α) :
    replay s (l.map .remove) = s \ l.toFinset := by
  induction l generalizing s with
  | nil => exact (Finset.sdiff_empty).symm
  | cons a l ih =>
      rw [List.map_cons, replay, List.foldl_cons, ← replay, ih, apply]
      ext b
      simp only [Finset.mem_sdiff, Finset.mem_erase, List.toFinset_cons, Finset.mem_insert]
      tauto

/-- The difference of two lists: first what is new, then what is gone. -/
def difference (old new : List α) : List (SetChange α) :=
  (new.filter (· ∉ old)).map .add ++ (old.filter (· ∉ new)).map .remove

theorem replay_difference' (s : Finset α) (old new : List α) :
    replay s (difference old new) =
      ((new.filter (· ∉ old)).toFinset ∪ s) \ (old.filter (· ∉ new)).toFinset := by
  rw [difference, replay_append, replay_adds, replay_removes]

theorem replay_difference (old new : List α) :
    replay old.toFinset (difference old new) = new.toFinset := by
  rw [replay_difference']
  ext a
  simp only [Finset.mem_sdiff, Finset.mem_union, List.mem_toFinset, List.mem_filter,
    decide_eq_true_eq]
  tauto

/-- A set within the old members ends within the new ones. -/
theorem replay_difference_subset {s : Finset α} {old : List α} (h : s ⊆ old.toFinset)
    (new : List α) : replay s (difference old new) ⊆ new.toFinset := by
  rw [replay_difference']
  intro a ha
  simp only [Finset.mem_sdiff, Finset.mem_union, List.mem_toFinset, List.mem_filter,
    decide_eq_true_eq, not_and, not_not] at ha ⊢
  rcases ha.1 with hnew | hold
  · exact hnew.1
  · exact ha.2 (List.mem_toFinset.mp (h hold))

/-- When all members are removed nothing is left of a set within them. -/
theorem replay_removes_subset {s : Finset α} {l : List α} (h : s ⊆ l.toFinset) :
    replay s (l.map .remove) = ∅ := by
  rw [replay_removes]
  exact Finset.sdiff_eq_empty_iff_subset.mpr h

end SetChange
