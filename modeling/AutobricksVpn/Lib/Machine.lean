/-
# `AutobricksVpn.Lib.Machine` — runs of a machine that logs events

A machine has one initial state and a partial step function that answers the
next state together with the events of the step; an action that is not
enabled answers `none`.  Several threads over shared data are one machine
whose actions are the threads' atomic sections, so a statement about every
`Run` is a statement about every interleaving.

A run remembers the actions taken and the events logged.  It is indexed by a
guard on steps: `Run G` are the runs whose every step satisfies `G`, and
`Free` is the guard that holds of every step.  The induction over runs is
packaged once (`Run.invariant`), and runs over fixed actions are computed by
`exec` (`run_of_exec`).  What may follow a run are the runs of the machine
`startedAt` its last state (`Run.append`).

What a run shows beside its events is logged by a machine that watches the
first (`observe`): its runs are the same.

A coarser description of the same system is a relation `R` on abstract states
that logs abstract events; one step of the machine may be several of its moves
(`Moves`).  Where every step is such a sequence under an abstraction of states
and events, what every move keeps holds of every run (`Run.refines`).

Where actions lower a rank, a run has only so many of them (`Run.ranked`).
-/
import Mathlib.Data.List.Basic

/-- A machine over states `σ`, actions `α` and events `ε`. -/
structure Machine (σ α ε : Type*) where
  init : σ
  step : σ → α → Option (σ × List ε)

namespace Machine

variable {σ α ε : Type*}

/-- The guard that every step satisfies. -/
def Free : σ → α → Prop := fun _ _ => True

/-- `M.Run G as tr s`: from the initial state, the actions `as` lead to `s`
and log `tr`, and `G` holds of every step taken. -/
inductive Run (M : Machine σ α ε) (G : σ → α → Prop) : List α → List ε → σ → Prop
  | start : Run M G [] [] M.init
  | next {as : List α} {tr evs : List ε} {s s' : σ} {a : α} :
      Run M G as tr s → G s a → M.step s a = some (s', evs) →
      Run M G (as ++ [a]) (tr ++ evs) s'

variable {M : Machine σ α ε} {G G' : σ → α → Prop} {as : List α} {tr : List ε} {s : σ}

/-- What holds initially and is kept by every step that the guard admits holds
of every run. -/
theorem Run.invariant (P : List ε → σ → Prop) (h0 : P [] M.init)
    (hstep : ∀ {tr s a s' evs}, P tr s → G s a → M.step s a = some (s', evs) →
      P (tr ++ evs) s')
    (h : M.Run G as tr s) : P tr s := by
  induction h with
  | start => exact h0
  | next _ hG hs ih => exact hstep ih hG hs

/-- Two invariants at once: the second may use the first, in the state before
the step. -/
theorem Run.invariant₂ (P Q : List ε → σ → Prop)
    (hP : ∀ {as tr s}, M.Run G as tr s → P tr s) (h0 : Q [] M.init)
    (hstep : ∀ {tr s a s' evs}, P tr s → Q tr s → G s a → M.step s a = some (s', evs) →
      Q (tr ++ evs) s')
    (h : M.Run G as tr s) : Q tr s := by
  induction h with
  | start => exact h0
  | next hr hG hs ih => exact hstep (hP hr) ih hG hs

/-- An invariant that counts the actions. -/
theorem Run.counted (P : Nat → List ε → σ → Prop) (h0 : P 0 [] M.init)
    (hstep : ∀ {n tr s a s' evs}, P n tr s → G s a → M.step s a = some (s', evs) →
      P (n + 1) (tr ++ evs) s')
    (h : M.Run G as tr s) : P as.length tr s := by
  induction h with
  | start => exact h0
  | next _ hG hs ih =>
      rw [List.length_append]
      exact hstep ih hG hs

theorem Run.mono (hGG : ∀ s a, G s a → G' s a) (h : M.Run G as tr s) : M.Run G' as tr s := by
  induction h with
  | start => exact .start
  | next _ hG hs ih => exact .next ih (hGG _ _ hG) hs

/-- A guard that holds of the actions taken. -/
theorem Run.guarded (h : M.Run G as tr s) : (∀ a ∈ as, ∀ s, G' s a) → M.Run G' as tr s := by
  induction h with
  | start => exact fun _ => .start
  | next _ _ hs ih =>
      intro hall
      refine .next (ih fun a ha => hall a (List.mem_append_left _ ha)) ?_ hs
      exact hall _ (List.mem_append_right _ (List.mem_singleton_self _)) _

theorem Run.free (h : M.Run G as tr s) : M.Run Free as tr s :=
  h.mono fun _ _ _ => trivial

/-- Every event of a run was logged by one of its steps. -/
theorem Run.logged (h : M.Run G as tr s) :
    ∀ ev ∈ tr, ∃ as₁ tr₁ s₁ a s₂ evs, M.Run G as₁ tr₁ s₁ ∧ M.step s₁ a = some (s₂, evs) ∧
      ev ∈ evs ∧ as₁ ++ [a] <+: as ∧ tr₁ ++ evs <+: tr := by
  induction h with
  | start => exact fun ev hev => absurd hev List.not_mem_nil
  | @next as tr evs s s' a hr _ hs ih =>
      intro ev hev
      rcases List.mem_append.mp hev with hev | hev
      · obtain ⟨as₁, tr₁, s₁, a₁, s₂, evs₁, hr₁, hs₁, hmem, has, htr⟩ := ih ev hev
        exact ⟨as₁, tr₁, s₁, a₁, s₂, evs₁, hr₁, hs₁, hmem, has.trans (List.prefix_append _ _),
          htr.trans (List.prefix_append _ _)⟩
      · exact ⟨as, tr, s, a, s', evs, hr, hs, hev, List.prefix_refl _, List.prefix_refl _⟩

/-- The same machine, started in `s`: its runs are what may follow a run that
ends in `s`. -/
def startedAt (M : Machine σ α ε) (s : σ) : Machine σ α ε := { M with init := s }

/-- And together they are one run. -/
theorem Run.append {bs : List α} {tr' : List ε} {t : σ} (h : M.Run G as tr s)
    (h' : (M.startedAt s).Run G bs tr' t) : M.Run G (as ++ bs) (tr ++ tr') t := by
  induction h' with
  | start =>
      rw [List.append_nil, List.append_nil]
      exact h
  | next _ hG hs ih =>
      rw [← List.append_assoc, ← List.append_assoc]
      exact ih.next hG hs

/-! ## Runs over fixed actions -/

/-- The actions in order, from `s`; `none` as soon as one is not enabled or
`g` refuses it. -/
def execFrom (M : Machine σ α ε) (g : σ → α → Bool) : σ → List α → Option (σ × List ε)
  | s, [] => some (s, [])
  | s, a :: as =>
      match g s a, M.step s a with
      | true, some (s', evs) =>
          match execFrom M g s' as with
          | some (s'', tr) => some (s'', evs ++ tr)
          | none => none
      | _, _ => none

/-- The actions in order, from the initial state. -/
def exec (M : Machine σ α ε) (g : σ → α → Bool) (as : List α) : Option (σ × List ε) :=
  M.execFrom g M.init as

theorem Run.execFrom {g : σ → α → Bool} (hg : ∀ s a, g s a = true → G s a) :
    ∀ {bs as : List α} {tr tr' : List ε} {s s' : σ}, M.Run G as tr s →
      M.execFrom g s bs = some (s', tr') → M.Run G (as ++ bs) (tr ++ tr') s'
  | [], as, tr, tr', s, s', h, he => by
      simp only [Machine.execFrom, Option.some.injEq, Prod.mk.injEq] at he
      obtain ⟨rfl, rfl⟩ := he
      simpa using h
  | b :: bs, as, tr, tr', s, s', h, he => by
      unfold Machine.execFrom at he
      split at he
      · rename_i s₁ evs hgb hb
        split at he
        · rename_i s₂ tr₂ hrest
          simp only [Option.some.injEq, Prod.mk.injEq] at he
          obtain ⟨rfl, rfl⟩ := he
          have := Run.execFrom hg (h.next (hg s b hgb) hb) hrest
          simpa using this
        · exact nomatch he
      · exact nomatch he

theorem run_of_exec {g : σ → α → Bool} (hg : ∀ s a, g s a = true → G s a)
    (he : M.exec g as = some (s, tr)) : M.Run G as tr s := by
  simpa using Run.execFrom hg Run.start he

/-- The state and the log the actions lead to; the initial state if they are
not enabled. -/
def outcome (M : Machine σ α ε) (g : σ → α → Bool) (as : List α) : σ × List ε :=
  (M.exec g as).getD (M.init, [])

theorem run_outcome {g : σ → α → Bool} (hg : ∀ s a, g s a = true → G s a)
    (he : (M.exec g as).isSome = true) : M.Run G as (M.outcome g as).2 (M.outcome g as).1 := by
  obtain ⟨⟨s, tr⟩, hs⟩ := Option.isSome_iff_exists.mp he
  rw [outcome, hs]
  exact run_of_exec hg hs

/-! ## Watching a machine -/

/-- The same machine, logging what `obs` makes of a step and its events. -/
def observe {η : Type*} (M : Machine σ α ε) (obs : σ → α → List ε → List η) : Machine σ α η where
  init := M.init
  step s a := (M.step s a).map fun r => (r.1, obs s a r.2)

section Observe

variable {η : Type*} {obs : σ → α → List ε → List η}

theorem observe_step {s s' : σ} {a : α} {log : List η} :
    (M.observe obs).step s a = some (s', log) ↔
      ∃ evs, M.step s a = some (s', evs) ∧ log = obs s a evs := by
  simp only [observe, Option.map_eq_some_iff, Prod.exists, Prod.mk.injEq]
  constructor
  · rintro ⟨s₁, evs, hs, rfl, rfl⟩
    exact ⟨evs, hs, rfl⟩
  · rintro ⟨evs, hs, rfl⟩
    exact ⟨s', evs, hs, rfl, rfl⟩

/-- Every run can be watched. -/
theorem Run.observe {f : η → Option ε} (hobs : ∀ s a evs, (obs s a evs).filterMap f = evs)
    (h : M.Run G as tr s) : ∃ log, (M.observe obs).Run G as log s ∧ log.filterMap f = tr := by
  induction h with
  | start => exact ⟨[], .start, rfl⟩
  | @next as tr evs s s' a _ hG hs ih =>
      obtain ⟨log, hlog, htr⟩ := ih
      refine ⟨log ++ obs s a evs, hlog.next hG (observe_step.mpr ⟨evs, hs, rfl⟩), ?_⟩
      rw [List.filterMap_append, htr, hobs]

/-- A watched run is a run. -/
theorem Run.of_observe {f : η → Option ε} {log : List η}
    (hobs : ∀ s a evs, (obs s a evs).filterMap f = evs)
    (h : (M.observe obs).Run G as log s) : M.Run G as (log.filterMap f) s := by
  induction h with
  | start => exact .start
  | @next as log new s s' a _ hG hs ih =>
      obtain ⟨evs, hstep, rfl⟩ := observe_step.mp hs
      rw [List.filterMap_append, hobs]
      exact ih.next hG hstep

end Observe

/-! ## Sequences of moves, and refinement -/

/-- A sequence of moves of a relation that logs events. -/
inductive Moves (R : σ → σ → List ε → Prop) : σ → σ → List ε → Prop
  | refl (s : σ) : Moves R s s []
  | head {s s₁ s₂ : σ} {evs evs' : List ε} :
      R s s₁ evs → Moves R s₁ s₂ evs' → Moves R s s₂ (evs ++ evs')

namespace Moves

variable {R R' : σ → σ → List ε → Prop} {s₁ s₂ s₃ : σ} {evs evs' : List ε}

theorem single (h : R s₁ s₂ evs) : Moves R s₁ s₂ evs := by
  simpa using Moves.head h (.refl s₂)

theorem trans (h : Moves R s₁ s₂ evs) (h' : Moves R s₂ s₃ evs') :
    Moves R s₁ s₃ (evs ++ evs') := by
  induction h with
  | refl => exact h'
  | head hR _ ih => rw [List.append_assoc]; exact .head hR (ih h')

theorem mono (hR : ∀ s s' evs, R s s' evs → R' s s' evs) (h : Moves R s₁ s₂ evs) :
    Moves R' s₁ s₂ evs := by
  induction h with
  | refl => exact .refl _
  | head hmove _ ih => exact .head (hR _ _ _ hmove) ih

/-- What every move keeps is kept by a sequence of them. -/
theorem invariant (I : List ε → σ → Prop)
    (hmove : ∀ {tr s s' evs}, I tr s → R s s' evs → I (tr ++ evs) s')
    (h : Moves R s₁ s₂ evs) : ∀ tr : List ε, I tr s₁ → I (tr ++ evs) s₂ := by
  induction h with
  | refl => intro tr hI; simpa using hI
  | head hR _ ih =>
      intro tr hI
      rw [← List.append_assoc]
      exact ih _ (hmove hI hR)

end Moves

/-- A machine whose every step is a sequence of moves keeps what the moves
keep.  Which moves they are may depend on the step, and that it is made of them
may rest on the invariant. -/
theorem Run.refines {τ η : Type*} (abs : σ → τ) (obs : ε → Option η)
    (R : σ → α → τ → τ → List η → Prop) (I : List η → τ → Prop)
    (hstep : ∀ {tr s a s' evs}, I tr (abs s) → M.step s a = some (s', evs) →
      Moves (R s a) (abs s) (abs s') (evs.filterMap obs))
    (h0 : I [] (abs M.init))
    (hmove : ∀ {s a tr t t' evs}, I tr t → R s a t t' evs → I (tr ++ evs) t')
    (h : M.Run G as tr s) : I (tr.filterMap obs) (abs s) := by
  refine h.invariant (fun tr s => I (tr.filterMap obs) (abs s)) h0 ?_
  intro tr s a s' evs hI _ hs
  rw [List.filterMap_append]
  exact (hstep hI hs).invariant I hmove _ hI

/-! ## Runs that come to an end -/

/-- Where some actions lower a rank, and no other raises it, a run has no more of
them than the rank allows. -/
theorem Run.ranked (I : σ → Prop) (rank : σ → Nat) (own : α → Bool) (h0 : I M.init)
    (hI : ∀ {s a s' evs}, I s → G s a → M.step s a = some (s', evs) → I s')
    (hown : ∀ {s a s' evs}, I s → G s a → M.step s a = some (s', evs) → own a = true →
      rank s' < rank s)
    (hother : ∀ {s a s' evs}, I s → G s a → M.step s a = some (s', evs) → own a = false →
      rank s' ≤ rank s)
    (h : M.Run G as tr s) : I s ∧ rank s + (as.filter own).length ≤ rank M.init := by
  induction h with
  | start => exact ⟨h0, Nat.le_refl _⟩
  | @next as tr evs s s' a _ hG hs ih =>
      obtain ⟨hs₀, hle⟩ := ih
      refine ⟨hI hs₀ hG hs, ?_⟩
      rw [List.filter_append, List.length_append]
      cases ha : own a with
      | true =>
          have hlt := hown hs₀ hG hs ha
          rw [List.filter_cons_of_pos ha, List.filter_nil, List.length_singleton]
          omega
      | false =>
          have hle' := hother hs₀ hG hs ha
          rw [List.filter_cons_of_neg (by rw [ha]; decide), List.filter_nil, List.length_nil]
          omega

/-! ## Runs without some of the actions -/

/-- A run, and the run of the actions that are not `own`, stay related: an action
that is `own` is taken on one side, any other on both.  What is `Allowed` is a
matter of the whole run. -/
theorem foldl_filter_related {step : σ → α → σ} {own : α → Bool} {R : σ → σ → Prop}
    {Allowed : σ → α → Prop}
    (hown : ∀ {s t a}, own a = true → Allowed s a → R s t → R (step s a) t)
    (hother : ∀ {s t a}, own a = false → Allowed s a → R s t → R (step s a) (step t a)) :
    ∀ {as : List α} {s t : σ}, R s t →
      (∀ before a after, as = before ++ a :: after → Allowed (before.foldl step s) a) →
      R (as.foldl step s) ((as.filter (!own ·)).foldl step t)
  | [], s, t, h, _ => h
  | a :: as, s, t, h, hallowed => by
      have hfirst : Allowed s a := hallowed [] a as rfl
      have hrest : ∀ before b after, as = before ++ b :: after →
          Allowed (before.foldl step (step s a)) b := fun before b after heq =>
        hallowed (a :: before) b after (congrArg (a :: ·) heq)
      cases ha : own a with
      | true =>
          rw [List.filter_cons_of_neg (by rw [ha]; decide)]
          exact foldl_filter_related hown hother (hown ha hfirst h) hrest
      | false =>
          rw [List.filter_cons_of_pos (by rw [ha]; rfl)]
          exact foldl_filter_related hown hother (hother ha hfirst h) hrest

end Machine
