/-
# `AutobricksVpn.Base.RetryTimeout` — whose retry time runs out

`spawn_peek` keeps one `retry_started` beside the queue.  It is set when
`process` refuses an item and none is set, and it is taken back when an item is
processed or discarded; but not when the item is evicted by a `push` into the
full queue while the worker waits.  The next item to be refused then has the
time of another (`inherited_start`), and may be discarded at its first attempt.

`PerItem` is what the retry timeout promises each item, and `OwnRetry` says
when the time is its own:

    OwnRetry at every step  ⟹  PerItem at every state
    OwnRetry so far, and not at the next refusal  ⟹  ¬ PerItem, a little later

and `OwnRetry` holds as long as no `push` finds the queue full while an item
waits for its retry (`run_ownRetry`).
-/
import AutobricksVpn.Base.QueueFifo
import AutobricksVpn.Base.Worker

namespace AutobricksVpn.QueueWorker

variable {α : Type}

/-- The first time that `process` refused the item was `t`. -/
def FirstFailed (item : Nat × α) (t : Instant) (tr : List (Event α)) : Prop :=
  ∃ before after, tr = before ++ .attempted item false t :: after ∧
    ∀ u, .attempted item false u ∉ before

/-- Whatever the retry timeout discards was refused by `process`, for the first
time at least `retryTimeout` before. -/
def PerItem (retryTimeout : Duration) (tr : List (Event α)) : Prop :=
  ∀ before item t after, tr = before ++ .timedOut item t :: after →
    ∃ t₀, FirstFailed item t₀ before ∧ t₀ + retryTimeout ≤ t

def Act.refuses : Act α → Bool
  | .process false => true
  | _ => false

/-- When `process` refuses an item, no retry time is kept but its own. -/
def OwnRetry (s : State α) (a : Act α) : Prop :=
  a.refuses = true →
    ∀ front ∈ s.pc.processing, ∀ start ∈ s.retryStarted, start.item = front.item

instance decOwnRetry [DecidableEq α] (s : State α) (a : Act α) : Decidable (OwnRetry s a) :=
  inferInstanceAs (Decidable (_ → _))

/-! ## First failures -/

theorem FirstFailed.append {item : Nat × α} {t : Instant} {tr : List (Event α)} :
    FirstFailed item t tr → ∀ evs, FirstFailed item t (tr ++ evs) := by
  rintro ⟨before, after, rfl, hfirst⟩ evs
  exact ⟨before, after ++ evs, by rw [List.append_assoc, List.cons_append], hfirst⟩

theorem FirstFailed.mem {item : Nat × α} {t : Instant} {tr : List (Event α)} :
    FirstFailed item t tr → .attempted item false t ∈ tr := by
  rintro ⟨before, after, rfl, -⟩
  exact List.mem_append_right _ List.mem_cons_self

/-- An item that was refused was refused for a first time. -/
theorem exists_firstFailed {item : Nat × α} :
    ∀ {tr : List (Event α)} {u : Instant}, .attempted item false u ∈ tr →
      ∃ t, FirstFailed item t tr := by
  intro tr
  induction tr with
  | nil => exact fun h => absurd h List.not_mem_nil
  | cons ev tr ih =>
      intro u hmem
      by_cases hev : ∃ t, ev = .attempted item false t
      · obtain ⟨t, rfl⟩ := hev
        exact ⟨t, [], tr, rfl, fun _ => List.not_mem_nil⟩
      · have hrest := (List.mem_cons.mp hmem).resolve_left fun h => hev ⟨u, h.symm⟩
        obtain ⟨t, before, after, rfl, hfirst⟩ := ih hrest
        refine ⟨t, ev :: before, after, rfl, fun v hv => ?_⟩
        rcases List.mem_cons.mp hv with h | h
        · exact hev ⟨v, h.symm⟩
        · exact hfirst v h

theorem PerItem.append {retryTimeout : Duration} {tr evs : List (Event α)} :
    PerItem retryTimeout tr → (∀ item t, .timedOut item t ∉ evs) →
    PerItem retryTimeout (tr ++ evs) := by
  intro h hevs before item t after heq
  rcases List.append_eq_append_iff.mp heq with ⟨mid, rfl, hmid⟩ | ⟨mid, hmid, hafter⟩
  · exact absurd (hmid ▸ List.mem_append_right _ List.mem_cons_self) (hevs item t)
  · cases mid with
    | nil =>
        rw [List.nil_append] at hafter
        exact absurd (hafter ▸ List.mem_cons_self) (hevs item t)
    | cons ev mid =>
        obtain ⟨rfl, -⟩ := List.cons.inj hafter
        exact h before item t mid hmid

/-- One more item is discarded. -/
theorem PerItem.concat {retryTimeout : Duration} {tr : List (Event α)} {item : Nat × α}
    {t₀ t : Instant} :
    PerItem retryTimeout tr → FirstFailed item t₀ tr → t₀ + retryTimeout ≤ t →
    PerItem retryTimeout (tr ++ [.timedOut item t]) := by
  intro h hfirst hle before other u after heq
  rcases List.append_eq_append_iff.mp heq with ⟨mid, rfl, hmid⟩ | ⟨mid, hmid, hafter⟩
  · cases mid with
    | nil =>
        obtain ⟨hev, -⟩ := List.cons.inj hmid
        cases hev
        exact ⟨t₀, by rwa [List.append_nil], hle⟩
    | cons ev mid => simp at hmid
  · cases mid with
    | nil =>
        rw [List.append_nil] at hmid
        obtain ⟨hev, -⟩ := List.cons.inj hafter
        cases hev
        exact ⟨t₀, hmid ▸ hfirst, hle⟩
    | cons ev mid =>
        obtain ⟨rfl, -⟩ := List.cons.inj hafter
        exact h before other u mid hmid

/-! ## The time that is kept -/

/-- What holds of a run in which every item is refused with its own time. -/
structure Timed (retryTimeout : Duration) (tr : List (Event α)) (s : State α) : Prop where
  perItem : PerItem retryTimeout tr
  times : ∀ ev ∈ tr, ev.time ≤ s.now
  /-- The time that is kept is not before the first failure of its item. -/
  start : ∀ start ∈ s.retryStarted, start.time ≤ s.now ∧
    ∃ t, FirstFailed start.item t tr ∧ t ≤ start.time
  failed : ∀ front observed, s.pc = .failed front observed →
    (∃ t, FirstFailed front.item t tr) ∧ ∀ start ∈ s.retryStarted, start.item = front.item
  started : ∀ front observed start, s.pc = .started front observed start →
    s.retryStarted = some start ∧ start.item = front.item

section Steps

variable {retryTimeout : Duration} {tr evs : List (Event α)} {s s' : State α} {a : Act α}

theorem timed_init (q : Queue (Nat × α)) : Timed retryTimeout [] (machine retryTimeout q).init where
  perItem before item t after h := by simp at h
  times ev h := absurd h List.not_mem_nil
  start start h := nomatch h
  failed front observed h := nomatch h
  started front observed start h := nomatch h

theorem times_step (h : ∀ ev ∈ tr, ev.time ≤ s.now)
    (hstep : step retryTimeout s a = some (s', evs)) : ∀ ev ∈ tr ++ evs, ev.time ≤ s'.now := by
  have hnew : s.now ≤ s'.now ∧ ∀ ev ∈ evs, ev.time ≤ s'.now := by
    cases step_effect hstep with
    | quiet _ hnow _ => exact ⟨hnow, fun _ hmem => absurd hmem List.not_mem_nil⟩
    | started _ _ _ _ _ _ _ hnow =>
        exact ⟨Nat.le_of_eq hnow.symm, fun _ hmem => absurd hmem List.not_mem_nil⟩
    | succeeded _ _ _ _ _ hnow | failed _ _ _ _ _ _ hnow | timedOut _ _ _ _ _ _ _ hnow =>
        refine ⟨Nat.le_of_eq hnow.symm, fun ev hmem => ?_⟩
        rw [List.mem_singleton.mp hmem]
        exact Nat.le_of_eq hnow.symm
  intro ev hmem
  rcases List.mem_append.mp hmem with hmem | hmem
  · exact Nat.le_trans (h ev hmem) hnew.1
  · exact hnew.2 ev hmem

/-- Once the item is gone, and its time with it, nothing is to be kept. -/
theorem Timed.of_top (hper : PerItem retryTimeout tr) (htimes : ∀ ev ∈ tr, ev.time ≤ s.now)
    (hpc : s.pc = .top) (hstart : s.retryStarted = none) : Timed retryTimeout tr s where
  perItem := hper
  times := htimes
  start start hkept := by
    rw [hstart] at hkept
    cases hkept
  failed front observed heq := by
    rw [hpc] at heq
    cases heq
  started front observed start heq := by
    rw [hpc] at heq
    cases heq

theorem Timed.step (h : Timed retryTimeout tr s) (hown : OwnRetry s a)
    (hstep : step retryTimeout s a = some (s', evs)) : Timed retryTimeout (tr ++ evs) s' := by
  have htimes := times_step h.times hstep
  cases step_effect hstep with
  | quiet hstart hnow hpc =>
      rw [List.append_nil] at htimes ⊢
      refine ⟨h.perItem, htimes, ?_, ?_, ?_⟩
      · intro start hmem
        obtain ⟨hle, hfirst⟩ := h.start start (hstart ▸ hmem)
        exact ⟨Nat.le_trans hle hnow, hfirst⟩
      · intro front observed heq
        rcases hpc with hpc | hpc
        · exact hstart ▸ h.failed front observed (hpc ▸ heq)
        · rw [heq] at hpc
          cases hpc
      · intro front observed start heq
        rcases hpc with hpc | hpc
        · exact hstart ▸ h.started front observed start (hpc ▸ heq)
        · rw [heq] at hpc
          cases hpc
  | succeeded front observed _ hpc hstart _ =>
      exact .of_top (h.perItem.append (by simp)) htimes hpc hstart
  | failed front observed ha hpc hpc' hstart hnow =>
      subst ha
      have hsame : ∀ start ∈ s.retryStarted, start.item = front.item :=
        hown rfl front (by rw [hpc]; rfl)
      refine ⟨h.perItem.append (by simp), htimes, ?_, ?_, ?_⟩
      · intro start hmem
        obtain ⟨hle, t, hfirst, ht⟩ := h.start start (hstart ▸ hmem)
        exact ⟨hnow ▸ hle, t, hfirst.append _, ht⟩
      · intro front' observed' heq
        obtain ⟨rfl, -⟩ := Pc.failed.inj (hpc'.symm.trans heq)
        refine ⟨exists_firstFailed (List.mem_append_right tr (List.mem_singleton.mpr rfl)), ?_⟩
        exact hstart ▸ hsame
      · intro front' observed' start heq
        rw [hpc'] at heq
        cases heq
  | started front observed start hpc hpc' hget hstart hnow =>
      rw [List.append_nil] at htimes ⊢
      obtain ⟨⟨t, hfirst⟩, hsame⟩ := h.failed front observed hpc
      -- the time is the item's own: it was set for it before, or it is set now
      have hkept : start.item = front.item ∧ start.time ≤ s.now ∧
          ∃ t, FirstFailed start.item t tr ∧ t ≤ start.time := by
        cases hbefore : s.retryStarted with
        | none =>
            rw [hget, hbefore]
            exact ⟨rfl, Nat.le_refl _, t, hfirst, h.times _ hfirst.mem⟩
        | some kept =>
            rw [hget, hbefore]
            exact ⟨hsame kept hbefore, h.start kept hbefore⟩
      refine ⟨h.perItem, htimes, ?_, ?_, ?_⟩
      · intro start' hmem
        obtain rfl := Option.some.inj (hstart.symm.trans hmem)
        exact hnow ▸ hkept.2
      · intro front' observed' heq
        rw [hpc'] at heq
        cases heq
      · intro front' observed' start' heq
        obtain ⟨rfl, -, rfl⟩ := Pc.started.inj (hpc'.symm.trans heq)
        exact ⟨hstart, hkept.1⟩
  | timedOut front observed start hpc hover hpc' hstart _ =>
      obtain ⟨hkept, hitem⟩ := h.started front observed start hpc
      obtain ⟨hle, t, hfirst, ht⟩ := h.start start hkept
      rw [hitem] at hfirst
      have htime : t + retryTimeout ≤ s.now :=
        Nat.le_trans (Nat.add_le_add ht hover) (Nat.le_of_eq (Nat.add_sub_of_le hle))
      exact .of_top (h.perItem.concat hfirst htime) htimes hpc' hstart

end Steps

theorem timed_of_run {retryTimeout : Duration} {q : Queue (Nat × α)} {as : List (Act α)}
    {tr : List (Event α)} {s : State α} :
    (machine retryTimeout q).Run OwnRetry as tr s → Timed retryTimeout tr s :=
  Machine.Run.invariant _ (timed_init q) fun h hown hstep => h.step hown hstep

/-! ## The items that were tried -/

/-- The items in flight, oldest first. -/
def State.contents (s : State α) : List (Nat × α) := s.shared.contents

theorem head_contents {s : State α} {front : QueueFront (Nat × α)} :
    s.pc.front = some front → s.contents = front.item :: s.queue.items := by
  intro h
  exact QueueRun.contents_of_some (s := s.shared) h

theorem contents_ordered {retryTimeout : Duration} {c : Nat} {q : Queue (Nat × α)}
    {as : List (Act α)} {tr : List (Event α)} {s : State α} {G : State α → Act α → Prop}
    (hq : Queue.new c = .ok q) :
    (machine retryTimeout q).Run G as tr s →
    s.contents.Pairwise (fun x y => x.1 < y.1) ∧ ∀ x ∈ s.contents, x.1 < s.pushes := by
  intro h
  obtain ⟨calls, log, hrun⟩ := run_queue h
  have hin := QueueRun.run_inOrder (Queue.new_ok hq).2.1 hrun
  have hsub := (List.sublist_append_right _ _).trans hin.order
  exact ⟨hin.stamps.sublist hsub, fun x hx => hin.below x (hsub.subset hx)⟩

/-- What is in flight after a step was so before it, or it is pushed in it. -/
theorem contents_step {retryTimeout : Duration} {s s' : State α} {a : Act α}
    {evs : List (Event α)} :
    step retryTimeout s a = some (s', evs) →
    s.pushes ≤ s'.pushes ∧ ∀ z ∈ s'.contents, z ∈ s.contents ∨ z.1 = s.pushes := by
  intro h
  rcases step_queue h with hsame | ⟨call, log, hcall, -, -⟩
  · have hpushes : s'.pushes = s.pushes := congrArg QueueRun.Shared.pushes hsame
    have hcontents : s'.contents = s.contents := congrArg QueueRun.Shared.contents hsame
    exact ⟨Nat.le_of_eq hpushes.symm, fun z hz => .inl (hcontents ▸ hz)⟩
  · refine ⟨(QueueRun.step_frame hcall).2.1, fun z hz => ?_⟩
    have hmem := (QueueRun.step_contents hcall).subset (List.mem_append_right _ hz)
    rcases List.mem_append.mp hmem with hmem | hmem
    · exact .inl hmem
    · rcases QueueRun.step_stamps hcall with hnone | ⟨x, hone, hx, -⟩
      · rw [hnone] at hmem
        exact absurd hmem List.not_mem_nil
      · rw [hone] at hmem
        exact .inr (List.mem_singleton.mp hmem ▸ hx)

/-- No item comes back once another is tried. -/
structure Tried (tr : List (Event α)) (s : State α) : Prop where
  below : ∀ y r t, .attempted y r t ∈ tr →
    y.1 < s.pushes ∧ ∀ z ∈ s.contents, y = z ∨ y.1 < z.1
  /-- The time that is kept is that of the last item tried. -/
  latest : ∀ start ∈ s.retryStarted, (∃ t, .attempted start.item false t ∈ tr) ∧
    ∀ y r t, .attempted y r t ∈ tr → y = start.item ∨ y.1 < start.item.1

section Steps

variable {retryTimeout : Duration} {tr evs : List (Event α)} {s s' : State α} {a : Act α}

/-- An item tried in the step is the oldest in flight. -/
theorem Tried.below_step (h : Tried tr s)
    (hordered : s.contents.Pairwise (fun x y => x.1 < y.1) ∧ ∀ x ∈ s.contents, x.1 < s.pushes)
    (hnew : ∀ y r t, .attempted y r t ∈ evs → s.contents.head? = some y)
    (hstep : step retryTimeout s a = some (s', evs)) :
    ∀ y r t, .attempted y r t ∈ tr ++ evs →
      y.1 < s'.pushes ∧ ∀ z ∈ s'.contents, y = z ∨ y.1 < z.1 := by
  obtain ⟨hpushes, hcontents⟩ := contents_step hstep
  have hbefore : ∀ y r t, .attempted y r t ∈ tr ++ evs →
      y.1 < s.pushes ∧ ∀ z ∈ s.contents, y = z ∨ y.1 < z.1 := by
    intro y r t hmem
    rcases List.mem_append.mp hmem with hmem | hmem
    · exact h.below y r t hmem
    · obtain ⟨rest, hrest⟩ := List.head?_eq_some_iff.mp (hnew y r t hmem)
      obtain ⟨hsorted, hlt⟩ := hordered
      rw [hrest] at hsorted hlt ⊢
      refine ⟨hlt y List.mem_cons_self, fun z hz => ?_⟩
      exact (List.mem_cons.mp hz).imp Eq.symm fun hz => (List.pairwise_cons.mp hsorted).1 z hz
  intro y r t hmem
  obtain ⟨hlt, hall⟩ := hbefore y r t hmem
  refine ⟨Nat.lt_of_lt_of_le hlt hpushes, fun z hz => ?_⟩
  rcases hcontents z hz with hz | hz
  · exact hall z hz
  · exact .inr (hz ▸ hlt)

/-- What `process` is called on is the oldest item in flight. -/
theorem head_of_attempted {front : QueueFront (Nat × α)} {observed : UInt64} {result : Bool}
    {time : Instant} (hpc : s.pc = .process front observed) :
    ∀ y r t, .attempted y r t ∈ [Event.attempted front.item result time] →
      s.contents.head? = some y := by
  intro y r t hmem
  obtain ⟨rfl, -, -⟩ := Event.attempted.inj (List.mem_singleton.mp hmem)
  rw [head_contents (by rw [hpc]; rfl)]
  rfl

theorem Tried.step (h : Tried tr s) (htimed : Timed retryTimeout tr s)
    (hordered : s.contents.Pairwise (fun x y => x.1 < y.1) ∧ ∀ x ∈ s.contents, x.1 < s.pushes)
    (hown : OwnRetry s a) (hstep : QueueWorker.step retryTimeout s a = some (s', evs)) :
    Tried (tr ++ evs) s' := by
  cases step_effect hstep with
  | quiet hstart _ _ =>
      refine ⟨h.below_step hordered (fun _ _ _ hmem => absurd hmem List.not_mem_nil) hstep, ?_⟩
      rw [List.append_nil, hstart]
      exact h.latest
  | succeeded front observed hpc _ hstart _ =>
      refine ⟨h.below_step hordered (head_of_attempted hpc) hstep, ?_⟩
      rw [hstart]
      exact fun _ hmem => nomatch hmem
  | failed front observed ha hpc _ hstart _ =>
      subst ha
      refine ⟨h.below_step hordered (head_of_attempted hpc) hstep, fun start hkept => ?_⟩
      rw [hstart] at hkept
      have hitem : start.item = front.item := hown rfl front (by rw [hpc]; rfl) start hkept
      obtain ⟨⟨t, ht⟩, hall⟩ := h.latest start hkept
      refine ⟨⟨t, List.mem_append_left _ ht⟩, fun y r u hmem => ?_⟩
      rcases List.mem_append.mp hmem with hmem | hmem
      · exact hall y r u hmem
      · obtain ⟨rfl, -, -⟩ := Event.attempted.inj (List.mem_singleton.mp hmem)
        exact .inl hitem.symm
  | started front observed start hpc _ hget hstart _ =>
      refine ⟨h.below_step hordered (fun _ _ _ hmem => absurd hmem List.not_mem_nil) hstep, ?_⟩
      rw [List.append_nil, hstart]
      intro start' hmem
      obtain rfl := Option.some.inj hmem
      cases hkept : s.retryStarted with
      | none =>
          rw [hget, hkept]
          obtain ⟨⟨t, hfirst⟩, -⟩ := htimed.failed front observed hpc
          refine ⟨⟨t, hfirst.mem⟩, fun y r u hmem => (h.below y r u hmem).2 front.item ?_⟩
          rw [head_contents (by rw [hpc]; rfl)]
          exact List.mem_cons_self
      | some kept =>
          rw [hget, hkept]
          exact h.latest kept hkept
  | timedOut front observed start hpc _ _ hstart _ =>
      refine ⟨h.below_step hordered (fun y r t hmem => ?_) hstep, ?_⟩
      · exact nomatch List.mem_singleton.mp hmem
      · rw [hstart]
        exact fun _ hmem => nomatch hmem

end Steps

section Runs

variable {retryTimeout : Duration} {c : Nat} {q : Queue (Nat × α)} {as : List (Act α)}
  {tr : List (Event α)} {s : State α}

theorem tried_of_run (hq : Queue.new c = .ok q) :
    (machine retryTimeout q).Run OwnRetry as tr s → Tried tr s := by
  refine Machine.Run.invariant₂
    (fun tr s => Timed retryTimeout tr s ∧
      s.contents.Pairwise (fun x y => x.1 < y.1) ∧ ∀ x ∈ s.contents, x.1 < s.pushes)
    Tried (fun h => ⟨timed_of_run h, contents_ordered hq h⟩) ?_ ?_
  · exact ⟨fun _ _ _ hmem => absurd hmem List.not_mem_nil, fun _ hmem => nomatch hmem⟩
  · rintro tr s a s' evs ⟨htimed, hordered⟩ h hown hstep
    exact h.step htimed hordered hown hstep

/-- An item that is about to be refused with the time of another is tried for
the first time. -/
theorem not_tried_of_other (hq : Queue.new c = .ok q)
    (h : (machine retryTimeout q).Run OwnRetry as tr s) {front : QueueFront (Nat × α)}
    {start : RetryStart α} (hfront : s.pc.front = some front)
    (hkept : s.retryStarted = some start) (hother : start.item ≠ front.item) :
    ∀ r t, .attempted front.item r t ∉ tr := by
  intro r t hmem
  have htried := tried_of_run hq h
  obtain ⟨⟨u, hstart⟩, hlatest⟩ := htried.latest start hkept
  have hin : front.item ∈ s.contents := by
    rw [head_contents hfront]
    exact List.mem_cons_self
  have hlt : start.item.1 < front.item.1 :=
    ((htried.below _ _ _ hstart).2 _ hin).resolve_left hother
  rcases hlatest _ _ _ hmem with heq | hgt
  · exact hother heq.symm
  · exact absurd (Nat.lt_trans hlt hgt) (Nat.lt_irrefl _)

/-- Refused with the time of another, an item may be discarded at its first attempt. -/
theorem discarded_early (hq : Queue.new c = .ok q)
    (h : (machine retryTimeout q).Run OwnRetry as tr s) (hpos : 0 < retryTimeout)
    {front : QueueFront (Nat × α)} {observed : UInt64} {start : RetryStart α}
    (hpc : s.pc = .process front observed) (hkept : s.retryStarted = some start)
    (hother : start.item ≠ front.item) :
    ∃ bs tr' s', (machine retryTimeout q).Run Machine.Free (as ++ bs) tr' s' ∧
      ¬ PerItem retryTimeout tr' := by
  have hfront : s.pc.front = some front := by
    rw [hpc]
    rfl
  have hnew := not_tried_of_other hq h hfront hkept hother
  have hle := ((timed_of_run h).start start hkept).1
  have hover : retryTimeout ≤ s.now + retryTimeout - start.time :=
    Nat.le_sub_of_add_le (by rw [Nat.add_comm]; exact Nat.add_le_add_right hle _)
  -- the time of the other item runs out, then the item is refused
  let s₁ : State α := { s with now := s.now + retryTimeout }
  let s₂ : State α := { s₁ with pc := .failed front observed }
  let s₃ : State α := { s₂ with pc := .started front observed start }
  let s₄ : State α := { s₃ with retryStarted := none, pc := .top }
  have h₁ : (machine retryTimeout q).step s (.tick retryTimeout) = some (s₁, []) := rfl
  have h₂ : (machine retryTimeout q).step s₁ (.process false) =
      some (s₂, [.attempted front.item false s₁.now]) := by
    simp only [machine, step, s₁, hpc]
    rfl
  have h₃ : (machine retryTimeout q).step s₂ .work = some (s₃, []) := by
    simp only [machine, step, work, s₂, s₃, s₁, hkept]
    rfl
  have h₄ : (machine retryTimeout q).step s₃ .work =
      some (s₄, [.timedOut front.item s₁.now]) := by
    simp only [machine, step, work, s₃, s₂, s₁]
    rw [if_pos hover]
    rfl
  have hrun := (((h.free.next trivial h₁).next trivial h₂).next trivial h₃).next trivial h₄
  simp only [List.append_assoc, List.append_nil, List.cons_append, List.nil_append] at hrun
  refine ⟨[.tick retryTimeout, .process false, .work, .work], _, s₄, hrun, fun hper => ?_⟩
  obtain ⟨t₀, hfirst, hlate⟩ :=
    hper (tr ++ [.attempted front.item false s₁.now]) front.item s₁.now [] (by simp)
  rcases List.mem_append.mp hfirst.mem with hmem | hmem
  · exact hnew _ _ hmem
  · obtain ⟨-, -, rfl⟩ := Event.attempted.inj (List.mem_singleton.mp hmem)
    exact absurd hlate (Nat.not_le.mpr (Nat.lt_add_of_pos_right hpos))

end Runs

/-! ## Producers that leave room -/

/-- No `push` finds the queue full while an item waits there for its retry. -/
def LeavesRoom (s : State α) (a : Act α) : Prop :=
  (∃ x, a = .push x) → s.retryStarted.isSome = true → s.pc.front = none →
    s.queue.items.length < s.queue.capacity

/-- The item whose time is kept is the oldest in flight, or the queue is closed
and the worker has no item. -/
def Held (s : State α) : Prop :=
  ∀ start ∈ s.retryStarted,
    s.contents.head? = some start.item ∨ s.queue.closed = true ∧ s.pc.front = none

theorem Held.ownRetry {s : State α} (h : Held s) (a : Act α) : OwnRetry s a := by
  intro _ front hprocessing start hkept
  have hfront : s.pc.front = some front := by
    cases hpc : s.pc with
    | process front' observed =>
        rw [hpc] at hprocessing
        exact hprocessing
    | top | peek | peeked | observe | failed | started | restore | wait | waiting | ended =>
        rw [hpc] at hprocessing
        cases hprocessing
  rcases h start hkept with hhead | ⟨-, hnone⟩
  · rw [head_contents hfront] at hhead
    exact (Option.some.inj hhead).symm
  · rw [hfront] at hnone
    cases hnone

section Steps

variable {retryTimeout : Duration} {s s' : State α} {a : Act α} {evs : List (Event α)}

theorem head_step {x : Nat × α} (hroom : LeavesRoom s a) (hkept : s.retryStarted.isSome = true)
    (hkept' : s'.retryStarted ≠ none) (hstep : step retryTimeout s a = some (s', evs)) :
    s.contents.head? = some x ∨ s.queue.closed = true ∧ s.pc.front = none →
    s'.contents.head? = some x ∨ s'.queue.closed = true ∧ s'.pc.front = none := by
  intro h
  rcases step_queue hstep with hsame | ⟨call, log, hcall, hpush, hdelivered⟩
  · have hcontents : s'.contents = s.contents := congrArg QueueRun.Shared.contents hsame
    have hclosed : s'.queue.closed = s.queue.closed :=
      congrArg (fun shared => shared.queue.closed) hsame
    have hfront : s'.pc.front = s.pc.front := congrArg QueueRun.Shared.front hsame
    rwa [hcontents, hclosed, hfront]
  · rcases h with hhead | ⟨hclosed, hnone⟩
    · refine QueueRun.step_head hcall (hdelivered.resolve_right hkept') ?_ hhead
      rcases QueueRun.step_returned hcall with hquiet | ⟨y, rfl, hfull⟩
      · exact .inl hquiet
      · refine .inr (Option.isSome_iff_ne_none.mpr fun hnone => ?_)
        exact absurd hfull (Nat.ne_of_lt (hroom ⟨y, hpush y rfl⟩ hkept hnone))
    · exact .inr (QueueRun.step_over hcall hclosed hnone)

theorem Held.step (h : Held s) (hroom : LeavesRoom s a)
    (hstep : QueueWorker.step retryTimeout s a = some (s', evs)) : Held s' := by
  intro start hkept'
  have hsame : s'.retryStarted = s.retryStarted →
      s'.contents.head? = some start.item ∨ s'.queue.closed = true ∧ s'.pc.front = none := by
    intro heq
    have hkept : s.retryStarted = some start := heq ▸ hkept'
    exact head_step hroom (by rw [hkept]; rfl) (by rw [heq, hkept]; nofun) hstep (h start hkept)
  cases step_effect hstep with
  | quiet hstart _ _ => exact hsame hstart
  | failed _ _ _ _ _ hstart _ => exact hsame hstart
  | succeeded _ _ _ _ hstart _ | timedOut _ _ _ _ _ _ hstart _ =>
      rw [hstart] at hkept'
      cases hkept'
  | started front observed start' hpc hpc' hget hstart _ =>
      cases hkept : s.retryStarted with
      | some kept =>
          rw [hkept] at hget
          exact hsame (by rw [hstart, hget, hkept]; rfl)
      | none =>
          obtain rfl := Option.some.inj (hstart.symm.trans hkept')
          have hfront : s'.pc.front = some front := by
            rw [hpc']
            rfl
          rw [hget, hkept, head_contents hfront]
          exact .inl rfl

theorem held_of_run {q : Queue (Nat × α)} {as : List (Act α)} {tr : List (Event α)} :
    (machine retryTimeout q).Run LeavesRoom as tr s → Held s :=
  Machine.Run.invariant (fun _ s => Held s) (fun _ hkept => nomatch hkept)
    fun h hroom hstep => h.step hroom hstep

/-- Where the producers leave room, no item has the time of another. -/
theorem run_ownRetry {q : Queue (Nat × α)} {as : List (Act α)} {tr : List (Event α)} :
    (machine retryTimeout q).Run LeavesRoom as tr s → (machine retryTimeout q).Run OwnRetry as tr s := by
  intro h
  induction h with
  | start => exact .start
  | next hrun _ hstep ih => exact ih.next ((held_of_run hrun).ownRetry _) hstep

end Steps

/-- **Whose retry time runs out.**  When an item is only ever refused with a
retry time of its own, the timeout discards it no earlier than `retryTimeout`
after its first failure.  And once an item is to be refused with the time of
another, it may be discarded earlier.  The time is an item's own wherever no `push` finds
the queue full while an item waits there for its retry. -/
theorem retry_timeout_per_item {c : Nat} {q : Queue (Nat × α)} (hq : Queue.new c = .ok q)
    (retryTimeout : Duration) :
    (∀ (as : List (Act α)) (tr : List (Event α)) (s : State α),
      (machine retryTimeout q).Run OwnRetry as tr s → PerItem retryTimeout tr) ∧
    (∀ (as : List (Act α)) (tr : List (Event α)) (s : State α),
      (machine retryTimeout q).Run OwnRetry as tr s → 0 < retryTimeout →
      ¬ OwnRetry s (.process false) →
      ∃ bs tr' s', (machine retryTimeout q).Run Machine.Free (as ++ bs) tr' s' ∧
        ¬ PerItem retryTimeout tr') ∧
    ∀ (as : List (Act α)) (tr : List (Event α)) (s : State α),
      (machine retryTimeout q).Run LeavesRoom as tr s →
      (machine retryTimeout q).Run OwnRetry as tr s := by
  refine ⟨fun as tr s h => (timed_of_run h).perItem, fun as tr s h hpos hown => ?_,
    fun as tr s => run_ownRetry⟩
  simp only [OwnRetry, Act.refuses, true_implies, not_forall] at hown
  obtain ⟨front, hprocessing, start, hkept, hother⟩ := hown
  cases hpc : s.pc with
  | process front' observed =>
      rw [hpc] at hprocessing
      obtain rfl := Option.some.inj hprocessing
      exact discarded_early hq h hpos hpc hkept hother
  | top | peek | peeked | observe | failed | started | restore | wait | waiting | ended =>
      rw [hpc] at hprocessing
      cases hprocessing

/-- One round of the loop, up to the answer of `process`. -/
def attempt (result : Bool) : List (Act α) := [.work, .work, .work, .work, .process result]

/-- What becomes of a refused item that is not discarded: it is put back, and
the worker waits. -/
def putBack : List (Act α) := [.work, .work, .work, .work]

/-- The theorem on an item that is refused twice, and 25 ms later discarded. -/
theorem retry_timeout_per_item_refused :
    ∃ (tr : List (Event Nat)) (s : State Nat),
      (machine 20000000 (Queue.fresh 1 Nat.one_pos)).Run OwnRetry
        ([.push 7] ++ attempt false ++ putBack ++ [.tick 25000000, .work] ++ attempt false ++
          [.work, .work]) tr s ∧
      .timedOut (0, 7) 25000000 ∈ tr ∧ PerItem 20000000 tr := by
  have hrun : (machine 20000000 (Queue.fresh 1 Nat.one_pos)).Run OwnRetry
      ([.push 7] ++ attempt false ++ putBack ++ [.tick 25000000, .work] ++ attempt false ++
        [.work, .work]) _ _ :=
    Machine.run_of_exec (g := fun s a => decide (OwnRetry s a)) (fun _ _ => of_decide_eq_true) rfl
  exact ⟨_, _, hrun, by decide, (retry_timeout_per_item (c := 1) rfl 20000000).1 _ _ _ hrun⟩

/-- The queue holds one item.  While the worker waits to try it again another
is pushed, and evicts it; that one is refused once, and discarded. -/
theorem inherited_start :
    ∃ (tr : List (Event Nat)) (s : State Nat),
      (machine 20000000 (Queue.fresh 1 Nat.one_pos)).Run Machine.Free
        ([.push 7] ++ attempt false ++ putBack ++ [.push 8, .tick 25000000, .work] ++
          attempt false ++ [.work, .work]) tr s ∧
      tr = [.attempted (0, 7) false 0, .attempted (1, 8) false 25000000,
        .timedOut (1, 8) 25000000] ∧
      ¬ PerItem 20000000 tr := by
  refine ⟨_, _, Machine.run_of_exec (g := fun _ _ => true) (fun _ _ _ => trivial) rfl, rfl, ?_⟩
  intro hper
  obtain ⟨t, hfirst, hlate⟩ :=
    hper [.attempted (0, 7) false 0, .attempted (1, 8) false 25000000] (1, 8) 25000000 [] rfl
  rcases List.mem_cons.mp hfirst.mem with hmem | hmem
  · cases hmem
  · obtain ⟨-, -, rfl⟩ := Event.attempted.inj (List.mem_singleton.mp hmem)
    exact absurd hlate (by decide)

end AutobricksVpn.QueueWorker
