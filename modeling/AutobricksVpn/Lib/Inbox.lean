/-
# `AutobricksVpn.Lib.Inbox` — items for a consumer that may not be ready

A consumer is handed items one at a time and answers that it has taken the
item, that it is not ready for it, or that it will never take it.  An item it
is not ready for waits; while some wait, what arrives goes behind them and only
the oldest is handed over again.  At most `capacity` items wait.

    arrive   nothing waits: hand it over; otherwise put it behind, or refuse it
    offer    hand over the oldest that waits

Two ways lead to the consumer, and they keep one order: with `waiting` the
items that wait,

    taken ++ waiting <+ arrived                          (`run_sublist`)
    taken ++ failed ++ refused ++ waiting ~ arrived      (`run_perm`)

whatever the answers.
-/
import Mathlib.Data.List.Perm.Subperm

namespace Inbox

inductive Answer where
  | taken
  | notReady
  | failed
  deriving DecidableEq

/-- An item handed over, or refused because so many waited already. -/
inductive Event (ι : Type*) where
  | handed (item : ι) (answer : Answer)
  | refused (item : ι) (waiting : Nat)

variable {ι κ : Type*}

def arrive (capacity : Nat) (answer : Answer) (item : ι) (waiting : List ι) :
    List ι × List (Event ι) :=
  match waiting, answer with
  | [], .taken => ([], [.handed item .taken])
  | [], .notReady => ([item], [.handed item .notReady])
  | [], .failed => ([], [.handed item .failed])
  | oldest :: rest, _ =>
      if capacity ≤ (oldest :: rest).length then
        (oldest :: rest, [.refused item (oldest :: rest).length])
      else (oldest :: rest ++ [item], [])

def offer (answer : Answer) (waiting : List ι) : List ι × List (Event ι) :=
  match waiting, answer with
  | [], _ => ([], [])
  | oldest :: rest, .taken => (rest, [.handed oldest .taken])
  | oldest :: rest, .notReady => (oldest :: rest, [.handed oldest .notReady])
  | oldest :: rest, .failed => (rest, [.handed oldest .failed])

inductive Op (ι : Type*) where
  | arrive (item : ι) (answer : Answer)
  | offer (answer : Answer)

def Op.apply (capacity : Nat) (waiting : List ι) : Op ι → List ι × List (Event ι)
  | .arrive item answer => Inbox.arrive capacity answer item waiting
  | .offer answer => Inbox.offer answer waiting

def run (capacity : Nat) : List (Op ι) → List ι → List ι × List (Event ι)
  | [], waiting => (waiting, [])
  | op :: ops, waiting =>
      ((run capacity ops (op.apply capacity waiting).1).1,
        (op.apply capacity waiting).2 ++ (run capacity ops (op.apply capacity waiting).1).2)

/-! ## Readings of a log -/

def Op.arrived? : Op ι → Option ι
  | .arrive item _ => some item
  | .offer _ => none

def arrived (ops : List (Op ι)) : List ι := ops.filterMap Op.arrived?

def Event.taken? : Event ι → Option ι
  | .handed item .taken => some item
  | _ => none

def Event.failed? : Event ι → Option ι
  | .handed item .failed => some item
  | _ => none

def Event.refused? : Event ι → Option ι
  | .refused item _ => some item
  | _ => none

def taken (log : List (Event ι)) : List ι := log.filterMap Event.taken?

def failed (log : List (Event ι)) : List ι := log.filterMap Event.failed?

def refused (log : List (Event ι)) : List ι := log.filterMap Event.refused?

/-! ## One operation -/

section Step

variable {capacity : Nat} {waiting : List ι}

theorem apply_sublist (capacity : Nat) (waiting : List ι) (op : Op ι) :
    (taken (op.apply capacity waiting).2 ++ (op.apply capacity waiting).1).Sublist
      (waiting ++ arrived [op]) := by
  cases op with
  | arrive item answer =>
      cases waiting with
      | nil =>
          cases answer with
          | taken | notReady => exact List.Sublist.refl _
          | failed => exact List.nil_sublist _
      | cons oldest rest =>
          unfold Op.apply arrive
          dsimp only
          split
          · exact List.sublist_append_left _ _
          · exact List.Sublist.refl _
  | offer answer =>
      cases waiting with
      | nil => exact List.Sublist.refl _
      | cons oldest rest =>
          rw [show arrived [Op.offer answer] = ([] : List ι) from rfl, List.append_nil]
          cases answer with
          | taken | notReady => exact List.Sublist.refl _
          | failed => exact List.sublist_cons_self _ _

theorem apply_perm (capacity : Nat) (waiting : List ι) (op : Op ι) :
    (taken (op.apply capacity waiting).2 ++ failed (op.apply capacity waiting).2 ++
      refused (op.apply capacity waiting).2 ++ (op.apply capacity waiting).1).Perm
      (waiting ++ arrived [op]) := by
  cases op with
  | arrive item answer =>
      cases waiting with
      | nil => cases answer <;> exact List.Perm.refl _
      | cons oldest rest =>
          unfold Op.apply arrive
          dsimp only
          split
          · exact (List.perm_append_singleton item (oldest :: rest)).symm
          · exact List.Perm.refl _
  | offer answer =>
      rw [show arrived [Op.offer answer] = ([] : List ι) from rfl, List.append_nil]
      cases waiting with
      | nil => exact List.Perm.refl _
      | cons oldest rest => cases answer <;> exact List.Perm.refl _

theorem apply_length (h : waiting.length ≤ capacity) (hpos : 0 < capacity) (op : Op ι) :
    (op.apply capacity waiting).1.length ≤ capacity := by
  cases op with
  | arrive item answer =>
      cases waiting with
      | nil => cases answer <;> first | exact Nat.zero_le _ | exact hpos
      | cons oldest rest =>
          unfold Op.apply arrive
          dsimp only
          split
          · exact h
          · rename_i hroom
            rw [List.length_append, List.length_singleton]
            exact Nat.lt_of_not_le hroom
  | offer answer =>
      cases waiting with
      | nil => exact h
      | cons oldest rest =>
          cases answer with
          | taken | failed => exact Nat.le_of_succ_le h
          | notReady => exact h

/-- What is refused found the inbox full. -/
theorem apply_refused {op : Op ι} {item : ι} {n : Nat} :
    Event.refused item n ∈ (op.apply capacity waiting).2 → capacity ≤ n ∧ n = waiting.length := by
  intro h
  cases op with
  | arrive incoming answer =>
      cases waiting with
      | nil => cases answer <;> simp [Op.apply, arrive] at h
      | cons oldest rest =>
          unfold Op.apply arrive at h
          dsimp only at h
          split at h
          · rename_i hfull
            obtain ⟨-, rfl⟩ := Event.refused.inj (List.mem_singleton.mp h)
            exact ⟨hfull, rfl⟩
          · exact absurd h List.not_mem_nil
  | offer answer =>
      cases waiting with
      | nil => exact absurd h List.not_mem_nil
      | cons oldest rest => cases answer <;> simp [Op.apply, offer] at h

end Step

/-! ## Runs -/

section Runs

variable (capacity : Nat)

theorem run_append : ∀ (ops ops' : List (Op ι)) (waiting : List ι),
    run capacity (ops ++ ops') waiting =
      ((run capacity ops' (run capacity ops waiting).1).1,
        (run capacity ops waiting).2 ++ (run capacity ops' (run capacity ops waiting).1).2)
  | [], _, _ => rfl
  | op :: ops, ops', waiting => by
      rw [List.cons_append, run, run_append ops ops']
      simp only [run, List.append_assoc]

theorem run_sublist : ∀ (ops : List (Op ι)) (waiting : List ι),
    (taken (run capacity ops waiting).2 ++ (run capacity ops waiting).1).Sublist
      (waiting ++ arrived ops) := by
  intro ops
  induction ops with
  | nil => intro waiting; simp [run, arrived, taken]
  | cons op ops ih =>
      intro waiting
      have hop := (apply_sublist capacity waiting op).append_right (arrived ops)
      have hrest := (ih (op.apply capacity waiting).1).append_left
        (taken (op.apply capacity waiting).2)
      have harrived : arrived (op :: ops) = arrived [op] ++ arrived ops :=
        List.filterMap_append (l := [op])
      have htaken : taken (run capacity (op :: ops) waiting).2 =
          taken (op.apply capacity waiting).2 ++
            taken (run capacity ops (op.apply capacity waiting).1).2 := List.filterMap_append
      rw [List.append_assoc, List.append_assoc] at hop
      rw [harrived, htaken, List.append_assoc]
      exact hrest.trans hop

theorem perm_interleave {a a' b b' : List ι} :
    ((a ++ a') ++ (b ++ b')).Perm ((a ++ b) ++ (a' ++ b')) := by
  simp only [List.append_assoc]
  refine List.Perm.append_left a ?_
  rw [← List.append_assoc, ← List.append_assoc]
  exact List.perm_append_comm.append_right b'

theorem perm_interleave₃ {a a' b b' c c' : List ι} :
    ((a ++ a') ++ (b ++ b') ++ (c ++ c')).Perm ((a ++ b ++ c) ++ (a' ++ b' ++ c')) :=
  (perm_interleave.append_right (c ++ c')).trans perm_interleave

theorem run_perm : ∀ (ops : List (Op ι)) (waiting : List ι),
    (taken (run capacity ops waiting).2 ++ failed (run capacity ops waiting).2 ++
      refused (run capacity ops waiting).2 ++ (run capacity ops waiting).1).Perm
      (waiting ++ arrived ops) := by
  intro ops
  induction ops with
  | nil => intro waiting; simp [run, arrived, taken, failed, refused]
  | cons op ops ih =>
      intro waiting
      have harrived : arrived (op :: ops) = arrived [op] ++ arrived ops :=
        List.filterMap_append (l := [op])
      have hlog : (run capacity (op :: ops) waiting).2 = (op.apply capacity waiting).2 ++
          (run capacity ops (op.apply capacity waiting).1).2 := rfl
      have hop := (apply_perm capacity waiting op).append_right (arrived ops)
      have hrest := (ih (op.apply capacity waiting).1).append_left
        (taken (op.apply capacity waiting).2 ++ failed (op.apply capacity waiting).2 ++
          refused (op.apply capacity waiting).2)
      rw [List.append_assoc, List.append_assoc waiting] at hop
      rw [harrived, hlog]
      unfold taken failed refused at hop hrest ⊢
      rw [List.filterMap_append, List.filterMap_append, List.filterMap_append]
      exact (perm_interleave₃.append_right _).trans
        ((List.Perm.of_eq (List.append_assoc _ _ _)).trans (hrest.trans hop))

theorem run_length (hpos : 0 < capacity) : ∀ (ops : List (Op ι)) (waiting : List ι),
    waiting.length ≤ capacity → (run capacity ops waiting).1.length ≤ capacity := by
  intro ops
  induction ops with
  | nil => intro waiting h; exact h
  | cons op ops ih => intro waiting h; exact ih _ (apply_length h hpos op)

theorem run_refused : ∀ (ops : List (Op ι)) (waiting : List ι) (item : ι) (n : Nat),
    Event.refused item n ∈ (run capacity ops waiting).2 → capacity ≤ n := by
  intro ops
  induction ops with
  | nil => intro waiting item n h; exact absurd h List.not_mem_nil
  | cons op ops ih =>
      intro waiting item n h
      rcases List.mem_append.mp h with h | h
      · exact (apply_refused h).1
      · exact ih _ item n h

end Runs

/-! ## Labels -/

def Op.map (f : ι → κ) : Op ι → Op κ
  | .arrive item answer => .arrive (f item) answer
  | .offer answer => .offer answer

def Event.map (f : ι → κ) : Event ι → Event κ
  | .handed item answer => .handed (f item) answer
  | .refused item waiting => .refused (f item) waiting

theorem apply_map (f : ι → κ) (capacity : Nat) (waiting : List ι) (op : Op ι) :
    (op.map f).apply capacity (waiting.map f) =
      ((op.apply capacity waiting).1.map f, (op.apply capacity waiting).2.map (Event.map f)) := by
  cases op with
  | arrive item answer =>
      cases waiting with
      | nil => cases answer <;> rfl
      | cons oldest rest =>
          unfold Op.map Op.apply arrive
          simp only [List.map_cons, List.length_cons, List.length_map]
          split <;> simp [Event.map]
  | offer answer =>
      cases waiting with
      | nil => rfl
      | cons oldest rest => cases answer <;> rfl

/-- Nothing depends on the items: a run on labelled items is the run without
the labels. -/
theorem run_map (f : ι → κ) (capacity : Nat) : ∀ (ops : List (Op ι)) (waiting : List ι),
    run capacity (ops.map (Op.map f)) (waiting.map f) =
      ((run capacity ops waiting).1.map f, (run capacity ops waiting).2.map (Event.map f)) := by
  intro ops
  induction ops with
  | nil => intro waiting; rfl
  | cons op ops ih =>
      intro waiting
      rw [List.map_cons, run, apply_map]
      dsimp only
      rw [ih]
      simp only [run, List.map_append]

/-- The arrivals numbered from `n` on. -/
def number : Nat → List (Op ι) → List (Op (ι × Nat))
  | _, [] => []
  | n, .arrive item answer :: ops => .arrive (item, n) answer :: number (n + 1) ops
  | n, .offer answer :: ops => .offer answer :: number n ops

theorem number_map : ∀ (n : Nat) (ops : List (Op ι)), (number n ops).map (Op.map Prod.fst) = ops
  | _, [] => rfl
  | n, .arrive item answer :: ops =>
      congrArg (Op.arrive item answer :: ·) (number_map (n + 1) ops)
  | n, .offer answer :: ops => congrArg (Op.offer answer :: ·) (number_map n ops)

theorem arrived_number : ∀ (n : Nat) (ops : List (Op ι)),
    arrived (number n ops) = (arrived ops).zipIdx n
  | _, [] => rfl
  | n, .arrive item _ :: ops => congrArg ((item, n) :: ·) (arrived_number (n + 1) ops)
  | n, .offer _ :: ops => arrived_number n ops

end Inbox
