/-
# `AutobricksVpn.Lib.SlidingWindow` — a limit on attempts, with the whole log

Attempts come with a key and a time.  A key is let through as long as fewer
than `limit` of its attempts are younger than `window`; the attempt that makes
up the number bans it for `ban`, and after the ban it starts from nothing.

This is the rule over a log in which nothing is forgotten, newest entry first.
An implementation has to keep less: a ban that is over stays over
(`isBanned_mono`), an attempt that is too old stays too old (`recent_recent`),
and what concerns one key does not depend on the others (`verdict_filter`).
-/
import Mathlib.Data.List.Basic

namespace SlidingWindow

structure Policy where
  limit : Nat
  window : Nat
  ban : Nat

inductive Verdict where
  | allowed
  | bannedNow
  | banned
  deriving DecidableEq

structure Attempt (κ : Type) where
  key : κ
  time : Nat
  verdict : Verdict

/-- The attempts so far, newest first. -/
abbrev Log (κ : Type) := List (Attempt κ)

section Rule

variable {κ : Type} [DecidableEq κ]

/-- When the key was banned last. -/
def lastBan (key : κ) : Log κ → Option Nat
  | [] => none
  | x :: log => if x.key = key ∧ x.verdict = .bannedNow then some x.time else lastBan key log

/-- The times of the attempts that were let through since. -/
def since (key : κ) : Log κ → List Nat
  | [] => []
  | x :: log =>
      if x.key = key then
        match x.verdict with
        | .allowed => x.time :: since key log
        | .bannedNow => []
        | .banned => since key log
      else since key log

/-- Those of the times that are younger than the window. -/
def recent (p : Policy) (now : Nat) (times : List Nat) : List Nat :=
  times.filter fun time => now - time < p.window

def isBanned (p : Policy) (log : Log κ) (key : κ) (now : Nat) : Bool :=
  (lastBan key log).any fun time => decide (now < time + p.ban)

/-- The answer to an attempt, which counts itself. -/
def verdict (p : Policy) (log : Log κ) (key : κ) (now : Nat) : Verdict :=
  if isBanned p log key now then .banned
  else if max p.limit 1 ≤ (recent p now (since key log)).length + 1 then .bannedNow
  else .allowed

/-! ## What may be forgotten -/

variable {p : Policy} {log : Log κ} {key : κ} {now later : Nat}

theorem isBanned_mono : now ≤ later → isBanned p log key later = true → isBanned p log key now = true := by
  intro hle h
  unfold isBanned at h ⊢
  obtain ⟨time, htime, hlt⟩ := (Option.any_eq_true _ _).mp h
  exact (Option.any_eq_true _ _).mpr
    ⟨time, htime, decide_eq_true (Nat.lt_of_le_of_lt hle (of_decide_eq_true hlt))⟩

theorem recent_recent (times : List Nat) :
    now ≤ later → recent p later (recent p now times) = recent p later times := by
  intro hle
  unfold recent
  rw [List.filter_filter]
  refine List.filter_congr fun time _ => ?_
  have hyoung : later - time < p.window → now - time < p.window :=
    Nat.lt_of_le_of_lt (Nat.sub_le_sub_right hle time)
  by_cases h : later - time < p.window
  · simp [h, hyoung h]
  · simp [h]

/-- Of times in order, those that are too old come first. -/
theorem dropWhile_eq_recent {times : List Nat} :
    times.Pairwise (· ≤ ·) →
    times.dropWhile (fun time => decide (p.window ≤ now - time)) = recent p now times := by
  intro h
  induction h with
  | nil => rfl
  | @cons time times hle _ ih =>
      unfold recent at ih ⊢
      by_cases hold : p.window ≤ now - time
      · rw [List.dropWhile_cons, if_pos (decide_eq_true hold), List.filter_cons, if_neg, ih]
        exact fun h => absurd (of_decide_eq_true h) (Nat.not_lt.mpr hold)
      · have hall : ∀ x ∈ time :: times, now - x < p.window := by
          intro x hx
          have hle : time ≤ x := by
            rcases List.mem_cons.mp hx with rfl | hx
            · exact Nat.le_refl _
            · exact hle x hx
          exact Nat.lt_of_le_of_lt (Nat.sub_le_sub_left hle now) (Nat.not_le.mp hold)
        rw [List.dropWhile_cons, if_neg fun h => hold (of_decide_eq_true h)]
        exact (List.filter_eq_self.mpr fun x hx => decide_eq_true (hall x hx)).symm

/-! ## One key at a time -/

theorem lastBan_filter (key : κ) (log : Log κ) :
    lastBan key (log.filter fun x => x.key = key) = lastBan key log := by
  induction log with
  | nil => rfl
  | cons x log ih =>
      by_cases hkey : x.key = key
      · rw [List.filter_cons, if_pos (decide_eq_true hkey), lastBan, lastBan, ih]
      · rw [List.filter_cons, if_neg fun h => hkey (of_decide_eq_true h), lastBan,
          if_neg fun h => hkey h.1, ih]

theorem since_filter (key : κ) (log : Log κ) :
    since key (log.filter fun x => x.key = key) = since key log := by
  induction log with
  | nil => rfl
  | cons x log ih =>
      by_cases hkey : x.key = key
      · rw [List.filter_cons, if_pos (decide_eq_true hkey), since, since, ih]
      · rw [List.filter_cons, if_neg fun h => hkey (of_decide_eq_true h), since, if_neg hkey, ih]

theorem isBanned_filter (p : Policy) (log : Log κ) (key : κ) (now : Nat) :
    isBanned p (log.filter fun x => x.key = key) key now = isBanned p log key now := by
  unfold isBanned
  rw [lastBan_filter]

theorem verdict_filter (p : Policy) (log : Log κ) (key : κ) (now : Nat) :
    verdict p (log.filter fun x => x.key = key) key now = verdict p log key now := by
  unfold verdict
  rw [isBanned_filter, since_filter]

end Rule

end SlidingWindow
