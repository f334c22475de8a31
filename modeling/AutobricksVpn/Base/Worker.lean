/-
# `AutobricksVpn.Base.Worker` — a worker that retries the front of its queue

The thread that `QueueWorker::spawn_peek` of `src/base/worker.rs` starts, among
the threads that share its queue and its signal.  The worker tries the item at
the front; an item that `process` refuses goes back to the front and is tried
again when the signal changes or the time is up, and it is discarded once
`retry_timeout` has passed since `retry_started`.

An action is one access to what the threads share, or one reading of the
clock.  The threads take them in any order, and the clock moves on in between
(`tick`).  What `process` answers is part of the action, so every sequence of
answers is a run.  Items carry the number of the `push` that brought them, so
two equal payloads are two items.

What the worker does to its queue are calls of `QueueRun` (`step_queue`), and
what it does to the item it tries is one of five things (`step_effect`).
-/
import AutobricksVpn.Base.QueueRun
import AutobricksVpn.Net.Ipv4

namespace AutobricksVpn.QueueWorker

variable {α : Type}

/-- `WorkerSignal`. -/
structure WorkerSignal where
  generation : UInt64

namespace WorkerSignal

def new : WorkerSignal := ⟨0⟩

/-- `notify`: `generation.wrapping_add(1)`. -/
def notify (signal : WorkerSignal) : WorkerSignal := ⟨signal.generation + 1⟩

/-- `wait_for_change`: `none` while the caller keeps waiting. -/
def waitForChange (signal : WorkerSignal) (observed : UInt64) (timedOut : Bool) : Option Bool :=
  if signal.generation != observed then some true
  else if timedOut then some false
  else none

end WorkerSignal

/-- `retry_started`, and the item whose attempt it was set for, which the
source does not keep. -/
structure RetryStart (α : Type) where
  time : Instant
  item : Nat × α
  deriving DecidableEq

/-- Where the worker is in its loop, with its local variables. -/
inductive Pc (α : Type) where
  | top
  | peek
  /-- Before the second look at the stop bit. -/
  | peeked (front : QueueFront (Nat × α))
  | observe (front : QueueFront (Nat × α))
  | process (front : QueueFront (Nat × α)) (observed : UInt64)
  /-- `process` has answered `false`. -/
  | failed (front : QueueFront (Nat × α)) (observed : UInt64)
  /-- After `get_or_insert_with`, before `elapsed`. -/
  | started (front : QueueFront (Nat × α)) (observed : UInt64) (start : RetryStart α)
  | restore (front : QueueFront (Nat × α)) (observed : UInt64) (remaining : Duration)
  | wait (observed : UInt64) (remaining : Duration)
  | waiting (observed : UInt64) (deadline : Instant)
  | ended
  deriving DecidableEq

/-- The reservation the worker holds. -/
def Pc.front : Pc α → Option (QueueFront (Nat × α))
  | .peeked front | .observe front | .process front _ | .failed front _ | .started front _ _
  | .restore front _ _ => some front
  | .top | .peek | .wait _ _ | .waiting _ _ | .ended => none

/-- The reservation that `process` is about to be called on. -/
def Pc.processing : Pc α → Option (QueueFront (Nat × α))
  | .process front _ => some front
  | _ => none

structure State (α : Type) where
  queue : Queue (Nat × α)
  pushes : Nat
  signal : WorkerSignal
  stop : Bool
  now : Instant
  pc : Pc α
  retryStarted : Option (RetryStart α)

/-- What the threads do: producers push; somebody notifies or closes the queue,
notifies the signal or sets the stop bit; time passes; and the worker goes on,
in a call of `process` with the answer given. -/
inductive Act (α : Type) where
  | push (item : α)
  | notifyChange
  | close
  | notify
  | stop
  | tick (d : Duration)
  | process (result : Bool)
  | work

inductive Event (α : Type) where
  /-- `process` was called on the item. -/
  | attempted (item : Nat × α) (result : Bool) (time : Instant)
  /-- The item was discarded by the retry timeout. -/
  | timedOut (item : Nat × α) (time : Instant)
  deriving DecidableEq

def Event.time : Event α → Instant
  | .attempted _ _ time => time
  | .timedOut _ time => time

/-- The next step of the loop, but for the call of `process`. -/
def work (retryTimeout : Duration) (s : State α) : Option (State α × List (Event α)) :=
  match s.pc with
  | .top => some ({ s with pc := if s.stop then .ended else .peek }, [])
  | .peek =>
      match s.queue.peek with
      | none => none
      | some (none, queue) => some ({ s with queue := queue, pc := .ended }, [])
      | some (some front, queue) => some ({ s with queue := queue, pc := .peeked front }, [])
  | .peeked front =>
      -- leaving the loop drops the reservation
      if s.stop then some ({ s with queue := front.drop s.queue, pc := .ended }, [])
      else some ({ s with pc := .observe front }, [])
  | .observe front => some ({ s with pc := .process front s.signal.generation }, [])
  | .process _ _ => none
  | .failed front observed =>
      let start := s.retryStarted.getD ⟨s.now, front.item⟩
      some ({ s with retryStarted := some start, pc := .started front observed start }, [])
  | .started front observed start =>
      let elapsed := s.now - start.time
      if retryTimeout ≤ elapsed then
        some ({ s with retryStarted := none, pc := .top }, [.timedOut front.pop s.now])
      else some ({ s with pc := .restore front observed (retryTimeout - elapsed) }, [])
  | .restore front observed remaining =>
      some ({ s with queue := front.drop s.queue, pc := .wait observed remaining }, [])
  | .wait observed remaining =>
      match s.signal.waitForChange observed false with
      | some _ => some ({ s with pc := .top }, [])
      | none => some ({ s with pc := .waiting observed (s.now + remaining) }, [])
  | .waiting observed deadline =>
      match s.signal.waitForChange observed (deadline ≤ s.now) with
      | some _ => some ({ s with pc := .top }, [])
      | none => none
  | .ended => none

def step (retryTimeout : Duration) (s : State α) : Act α → Option (State α × List (Event α))
  | .push x =>
      match s.queue.push (s.pushes, x) with
      | .ok (queue, _) => some ({ s with queue := queue, pushes := s.pushes + 1 }, [])
      | .error _ => some ({ s with pushes := s.pushes + 1 }, [])
  | .notifyChange => some ({ s with queue := s.queue.notifyChange }, [])
  | .close => some ({ s with queue := s.queue.close }, [])
  | .notify => some ({ s with signal := s.signal.notify }, [])
  | .stop => some ({ s with stop := true }, [])
  | .tick d => some ({ s with now := s.now + d }, [])
  | .process result =>
      match s.pc with
      | .process front observed =>
          let event := .attempted front.value result s.now
          if result then some ({ s with retryStarted := none, pc := .top }, [event])
          else some ({ s with pc := .failed front observed }, [event])
      | _ => none
  | .work => work retryTimeout s

/-- The worker over an existing queue. -/
def machine (retryTimeout : Duration) (q : Queue (Nat × α)) :
    Machine (State α) (Act α) (Event α) where
  init :=
    { queue := q, pushes := 0, signal := WorkerSignal.new, stop := false, now := 0, pc := .top,
      retryStarted := none }
  step := step retryTimeout

/-! ## The queue -/

/-- The queue with its consumer's reservation. -/
def State.shared (s : State α) : QueueRun.Shared α :=
  { queue := s.queue, front := s.pc.front, pushes := s.pushes }

/-- The step is a call on the queue, or the queue is left alone.  An item is
taken for good only when `retry_started` is taken back. -/
def OnQueue (s s' : State α) (a : Act α) : Prop :=
  s'.shared = s.shared ∨
    ∃ call log, QueueRun.step s.shared call = some (s'.shared, log) ∧
      (∀ x, call = .push x → a = .push x) ∧
      (QueueRun.delivered log = [] ∨ s'.retryStarted = none)

theorem work_queue {retryTimeout : Duration} {s s' : State α} {evs : List (Event α)} :
    work retryTimeout s = some (s', evs) → OnQueue s s' .work := by
  intro h
  obtain ⟨queue, pushes, signal, stop, now, pc, start⟩ := s
  cases pc with
  | top =>
      obtain ⟨rfl, -⟩ := Prod.mk.inj (Option.some.inj h)
      cases stop <;> exact .inl rfl
  | peek =>
      refine .inr ⟨.peek, [], ?_, by simp, .inl rfl⟩
      simp only [work] at h
      split at h
      · cases h
      · rename_i hpeek
        obtain ⟨rfl, -⟩ := Prod.mk.inj (Option.some.inj h)
        simp [QueueRun.step, State.shared, Pc.front, hpeek]
      · rename_i hpeek
        obtain ⟨rfl, -⟩ := Prod.mk.inj (Option.some.inj h)
        simp [QueueRun.step, State.shared, Pc.front, hpeek]
  | peeked front =>
      cases stop with
      | true =>
          obtain ⟨rfl, -⟩ := Prod.mk.inj (Option.some.inj h)
          exact .inr ⟨.restore, _, rfl, by simp, .inl (QueueRun.delivered_map_discarded _)⟩
      | false =>
          obtain ⟨rfl, -⟩ := Prod.mk.inj (Option.some.inj h)
          exact .inl rfl
  | observe front | failed front observed =>
      obtain ⟨rfl, -⟩ := Prod.mk.inj (Option.some.inj h)
      exact .inl rfl
  | started front observed start =>
      simp only [work] at h
      split at h
      · obtain ⟨rfl, -⟩ := Prod.mk.inj (Option.some.inj h)
        exact .inr ⟨.commit, _, rfl, by simp, .inr rfl⟩
      · obtain ⟨rfl, -⟩ := Prod.mk.inj (Option.some.inj h)
        exact .inl rfl
  | restore front observed remaining =>
      obtain ⟨rfl, -⟩ := Prod.mk.inj (Option.some.inj h)
      exact .inr ⟨.restore, _, rfl, by simp, .inl (QueueRun.delivered_map_discarded _)⟩
  | wait observed remaining =>
      simp only [work] at h
      split at h <;> obtain ⟨rfl, -⟩ := Prod.mk.inj (Option.some.inj h) <;> exact .inl rfl
  | waiting observed deadline =>
      simp only [work] at h
      split at h
      · obtain ⟨rfl, -⟩ := Prod.mk.inj (Option.some.inj h)
        exact .inl rfl
      · cases h
  | process front observed | ended => cases h

theorem step_queue {retryTimeout : Duration} {s s' : State α} {a : Act α}
    {evs : List (Event α)} : step retryTimeout s a = some (s', evs) → OnQueue s s' a := by
  intro h
  cases a with
  | push x =>
      have hcall : ∀ y, QueueRun.Act.push x = .push y → Act.push x = .push y := by
        rintro y ⟨⟩
        rfl
      simp only [step] at h
      split at h
      · rename_i queue old hpush
        obtain ⟨rfl, -⟩ := Prod.mk.inj (Option.some.inj h)
        cases old with
        | none =>
            refine .inr ⟨.push x, [.accepted (s.pushes, x)], ?_, hcall, .inl rfl⟩
            simp only [QueueRun.step, State.shared, hpush]
        | some old =>
            refine .inr ⟨.push x, [.accepted (s.pushes, x), .returned old], ?_, hcall, .inl rfl⟩
            simp only [QueueRun.step, State.shared, hpush]
      · rename_i refused hpush
        obtain ⟨rfl, -⟩ := Prod.mk.inj (Option.some.inj h)
        refine .inr ⟨.push x, [.refused refused.item], ?_, hcall, .inl rfl⟩
        simp only [QueueRun.step, State.shared, hpush]
  | notifyChange =>
      obtain ⟨rfl, -⟩ := Prod.mk.inj (Option.some.inj h)
      exact .inr ⟨.notifyChange, _, rfl, by simp, .inl rfl⟩
  | close =>
      obtain ⟨rfl, -⟩ := Prod.mk.inj (Option.some.inj h)
      exact .inr ⟨.close, _, rfl, by simp, .inl (QueueRun.delivered_map_discarded _)⟩
  | notify | stop | tick d =>
      obtain ⟨rfl, -⟩ := Prod.mk.inj (Option.some.inj h)
      exact .inl rfl
  | process result =>
      obtain ⟨queue, pushes, signal, stop, now, pc, start⟩ := s
      cases pc with
      | process front observed =>
          cases result with
          | true =>
              obtain ⟨rfl, -⟩ := Prod.mk.inj (Option.some.inj h)
              exact .inr ⟨.commit, _, rfl, by simp, .inr rfl⟩
          | false =>
              obtain ⟨rfl, -⟩ := Prod.mk.inj (Option.some.inj h)
              exact .inl rfl
      | top | peek | peeked | observe | failed | started | restore | wait | waiting | ended =>
          cases h
  | work => exact work_queue h

/-- A run of the worker is a run of its queue. -/
theorem run_queue {retryTimeout : Duration} {q : Queue (Nat × α)} {as : List (Act α)}
    {tr : List (Event α)} {s : State α} {G : State α → Act α → Prop} :
    (machine retryTimeout q).Run G as tr s →
    ∃ calls log, (QueueRun.machine q).Run Machine.Free calls log s.shared := by
  intro h
  induction h with
  | start => exact ⟨[], [], .start⟩
  | next _ _ hstep ih =>
      obtain ⟨calls, log, hrun⟩ := ih
      rcases step_queue hstep with hsame | ⟨call, evs, hcall, -, -⟩
      · exact ⟨calls, log, hsame ▸ hrun⟩
      · exact ⟨calls ++ [call], log ++ evs, hrun.next trivial hcall⟩

/-! ## The item that is tried -/

/-- Between the answer `false` and what becomes of the item. -/
def Pc.refused : Pc α → Bool
  | .failed _ _ | .started _ _ _ => true
  | _ => false

/-- What a step does to the item that is tried, and to `retry_started`. -/
inductive Effect (retryTimeout : Duration) (s s' : State α) (a : Act α) : List (Event α) → Prop
  | quiet : s'.retryStarted = s.retryStarted → s.now ≤ s'.now →
      s'.pc = s.pc ∨ s'.pc.refused = false → Effect retryTimeout s s' a []
  | succeeded (front : QueueFront (Nat × α)) (observed : UInt64) :
      s.pc = .process front observed → s'.pc = .top → s'.retryStarted = none → s'.now = s.now →
      Effect retryTimeout s s' a [.attempted front.item true s.now]
  | failed (front : QueueFront (Nat × α)) (observed : UInt64) :
      a = .process false → s.pc = .process front observed → s'.pc = .failed front observed →
      s'.retryStarted = s.retryStarted → s'.now = s.now →
      Effect retryTimeout s s' a [.attempted front.item false s.now]
  | started (front : QueueFront (Nat × α)) (observed : UInt64) (start : RetryStart α) :
      s.pc = .failed front observed → s'.pc = .started front observed start →
      start = s.retryStarted.getD ⟨s.now, front.item⟩ → s'.retryStarted = some start →
      s'.now = s.now → Effect retryTimeout s s' a []
  | timedOut (front : QueueFront (Nat × α)) (observed : UInt64) (start : RetryStart α) :
      s.pc = .started front observed start → retryTimeout ≤ s.now - start.time → s'.pc = .top →
      s'.retryStarted = none → s'.now = s.now →
      Effect retryTimeout s s' a [.timedOut front.item s.now]

theorem work_effect {retryTimeout : Duration} {s s' : State α} {evs : List (Event α)} :
    work retryTimeout s = some (s', evs) → Effect retryTimeout s s' .work evs := by
  intro h
  unfold work at h
  split at h
  · obtain ⟨rfl, rfl⟩ := Prod.mk.inj (Option.some.inj h)
    refine .quiet rfl (Nat.le_refl _) (.inr ?_)
    cases s.stop <;> rfl
  · split at h
    · cases h
    · obtain ⟨rfl, rfl⟩ := Prod.mk.inj (Option.some.inj h)
      exact .quiet rfl (Nat.le_refl _) (.inr rfl)
    · obtain ⟨rfl, rfl⟩ := Prod.mk.inj (Option.some.inj h)
      exact .quiet rfl (Nat.le_refl _) (.inr rfl)
  · split at h <;> obtain ⟨rfl, rfl⟩ := Prod.mk.inj (Option.some.inj h) <;>
      exact .quiet rfl (Nat.le_refl _) (.inr rfl)
  · obtain ⟨rfl, rfl⟩ := Prod.mk.inj (Option.some.inj h)
    exact .quiet rfl (Nat.le_refl _) (.inr rfl)
  · cases h
  · rename_i front observed hpc
    obtain ⟨rfl, rfl⟩ := Prod.mk.inj (Option.some.inj h)
    exact .started front observed _ hpc rfl rfl rfl rfl
  · rename_i front observed start hpc
    dsimp only at h
    split at h
    · rename_i hover
      obtain ⟨rfl, rfl⟩ := Prod.mk.inj (Option.some.inj h)
      exact .timedOut front observed start hpc hover rfl rfl rfl
    · obtain ⟨rfl, rfl⟩ := Prod.mk.inj (Option.some.inj h)
      exact .quiet rfl (Nat.le_refl _) (.inr rfl)
  · obtain ⟨rfl, rfl⟩ := Prod.mk.inj (Option.some.inj h)
    exact .quiet rfl (Nat.le_refl _) (.inr rfl)
  · split at h <;> obtain ⟨rfl, rfl⟩ := Prod.mk.inj (Option.some.inj h) <;>
      exact .quiet rfl (Nat.le_refl _) (.inr rfl)
  · split at h
    · obtain ⟨rfl, rfl⟩ := Prod.mk.inj (Option.some.inj h)
      exact .quiet rfl (Nat.le_refl _) (.inr rfl)
    · cases h
  · cases h

/-- Every step has one of the effects listed. -/
theorem step_effect {retryTimeout : Duration} {s s' : State α} {a : Act α}
    {evs : List (Event α)} :
    step retryTimeout s a = some (s', evs) → Effect retryTimeout s s' a evs := by
  intro h
  cases a with
  | push x =>
      simp only [step] at h
      split at h <;> obtain ⟨rfl, rfl⟩ := Prod.mk.inj (Option.some.inj h) <;>
        exact .quiet rfl (Nat.le_refl _) (.inl rfl)
  | notifyChange | close | notify | stop =>
      obtain ⟨rfl, rfl⟩ := Prod.mk.inj (Option.some.inj h)
      exact .quiet rfl (Nat.le_refl _) (.inl rfl)
  | tick d =>
      obtain ⟨rfl, rfl⟩ := Prod.mk.inj (Option.some.inj h)
      exact .quiet rfl (Nat.le_add_right _ _) (.inl rfl)
  | process result =>
      simp only [step] at h
      split at h
      · rename_i front observed hpc
        cases result with
        | true =>
            obtain ⟨rfl, rfl⟩ := Prod.mk.inj (Option.some.inj h)
            exact .succeeded front observed hpc rfl rfl rfl
        | false =>
            obtain ⟨rfl, rfl⟩ := Prod.mk.inj (Option.some.inj h)
            exact .failed front observed rfl hpc rfl rfl rfl
      · cases h
  | work => exact work_effect h

end AutobricksVpn.QueueWorker
