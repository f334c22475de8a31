/-
# `AutobricksVpn.Lib.Alarm` — sleeping until the first deadline

A worker sees to things that have deadlines.  When it has done what was due it
looks for the earliest deadline and sleeps until then; meanwhile others change
what it will have to see to, and some of them notify it.

    work  …  plan    others…    sleep  others…        work  …
              |                   |                     |
        wake ≤ deadlines     alarm ≤ wake       alarm ≤ now, or notified

Deadlines may be put off without a word.  Where each change that brings one
forward is followed by a notification (`Move.notify`), no deadline comes while
the worker sleeps on: it has been notified, or its alarm has gone off
(`Sound.due`).
-/
import Mathlib.Order.Lattice
import Mathlib.Data.Set.Defs

namespace Alarm

variable {τ : Type*} [LinearOrder τ]

/-- Where the worker is: it is at work; it has found out when it has to wake up;
or it sleeps. -/
inductive Phase (τ : Type*) where
  | working
  | planned (wake : τ)
  | asleep (alarm : τ)

structure State (τ : Type*) where
  now : τ
  deadlines : Set τ
  notified : Bool
  phase : Phase τ

/-- No deadline of the second set is before all those of the first. -/
def PutOff (deadlines deadlines' : Set τ) : Prop :=
  ∀ d' ∈ deadlines', ∃ d ∈ deadlines, d ≤ d'

theorem PutOff.refl (deadlines : Set τ) : PutOff deadlines deadlines :=
  fun d hd => ⟨d, hd, le_refl d⟩

inductive Move (s s' : State τ) : Prop
  /-- Time goes by, and deadlines are put off. -/
  | delay : s'.phase = s.phase → s'.notified = s.notified → s.now ≤ s'.now →
      PutOff s.deadlines s'.deadlines → Move s s'
  /-- The worker is notified after a change of any kind. -/
  | notify : s'.phase = s.phase → s'.notified = true → Move s s'
  /-- The worker does something, or it wakes up. -/
  | work : s'.phase = .working → Move s s'
  | plan {wake : τ} : s'.phase = .planned wake → (∀ d ∈ s'.deadlines, wake ≤ d) → Move s s'
  | sleep {wake alarm : τ} : s.phase = .planned wake → s'.phase = .asleep alarm →
      alarm ≤ max wake s.now → s'.now = s.now → s'.notified = s.notified →
      s'.deadlines = s.deadlines → Move s s'

/-- Unless it is notified, the worker wakes up before any deadline. -/
def Sound (s : State τ) : Prop :=
  s.notified = true ∨
    match s.phase with
    | .working => True
    | .planned wake => ∀ d ∈ s.deadlines, wake ≤ d
    | .asleep alarm => alarm ≤ s.now ∨ ∀ d ∈ s.deadlines, alarm ≤ d

section Sound

variable {s s' : State τ} {alarm : τ}

theorem le_of_putOff {deadlines deadlines' : Set τ} {t : τ} (h : PutOff deadlines deadlines') :
    (∀ d ∈ deadlines, t ≤ d) → ∀ d ∈ deadlines', t ≤ d := by
  intro ht d' hd'
  obtain ⟨d, hd, hle⟩ := h d' hd'
  exact (ht d hd).trans hle

theorem sound_of_working (h : s.phase = .working) : Sound s := by
  right
  rw [h]
  trivial

/-- Every move keeps it. -/
theorem Move.sound (hm : Move s s') (h : Sound s) : Sound s' := by
  cases hm with
  | delay hphase hnotified hnow hdeadlines =>
      rcases h with h | h
      · exact .inl (hnotified.trans h)
      · right
        rw [hphase]
        cases hs : s.phase with
        | working => trivial
        | planned wake =>
            rw [hs] at h
            exact le_of_putOff hdeadlines h
        | asleep alarm =>
            rw [hs] at h
            exact h.imp (·.trans hnow) (le_of_putOff hdeadlines)
  | notify _ hnotified => exact .inl hnotified
  | work hphase => exact sound_of_working hphase
  | plan hphase hwake =>
      right
      rw [hphase]
      exact hwake
  | @sleep wake alarm hphase hphase' halarm hnow hnotified hdeadlines =>
      rcases h with h | h
      · exact .inl (hnotified.trans h)
      · right
        rw [hphase] at h
        rw [hphase', hnow, hdeadlines]
        rcases le_total wake s.now with hle | hle
        · exact .inl (halarm.trans_eq (max_eq_right hle))
        · exact .inr fun d hd => (halarm.trans_eq (max_eq_left hle)).trans (h d hd)

/-- When a deadline has come, the worker does not sleep on. -/
theorem Sound.due (h : Sound s) (hphase : s.phase = .asleep alarm) {d : τ} (hd : d ∈ s.deadlines) :
    d ≤ s.now → s.notified = true ∨ alarm ≤ s.now := by
  intro hle
  refine h.imp_right fun h => ?_
  rw [hphase] at h
  rcases h with h | h
  · exact h
  · exact (h d hd).trans hle

end Sound

end Alarm
