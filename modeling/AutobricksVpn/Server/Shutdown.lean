/-
# `AutobricksVpn.Server.Shutdown` — when the server stops, and with what result

The server does not stop by itself: as long as nobody interrupts it and no thread
meets an error or panics, both flags are up, both queues open, and every thread
in its loop (`keeps_running`).

When one thread is on its way out, all of them are.  Once a flag is down the
threads take a bounded number of actions before the main thread has joined them
all, and until then one of them can go on (`winds_down`).  The bound counts what
is still in `tun_read_queue` and in the channel of the reloads; datagrams that
keep coming would keep the main thread in its inner loop.

The result is the first error, in the order of `run`; but the error of the TUN
reader reaches it through a channel, and the decrypt worker may end between the
moment the flag is cleared and the moment the error is sent (`server_returns`).
-/
import AutobricksVpn.Server.Threads

namespace AutobricksVpn

namespace ServerThreads

open SendPath (Reading WorkerSignal)

/-! ## Calls on the queues -/

section Calls

variable {sh sh' : Shared} {name : QueueName} {a : QueueRun.Act name.Item}
  {evs : List (QueueRun.Event name.Item)}

theorem call_some :
    sh.call name a = some (sh', evs) →
    ∃ queue, QueueRun.step (sh.queues name) a = some (queue, evs) ∧
      sh' = { sh with queues := Function.update sh.queues name queue } := by
  intro h
  unfold Shared.call at h
  split at h
  · rename_i queue evs' hstep
    obtain ⟨rfl, rfl⟩ := Prod.mk.inj (Option.some.inj h)
    exact ⟨queue, hstep, rfl⟩
  · cases h

theorem call_self :
    sh.call name a = some (sh', evs) →
    QueueRun.step (sh.queues name) a = some (sh'.queues name, evs) := by
  intro h
  obtain ⟨queue, hstep, rfl⟩ := call_some h
  rw [hstep]
  simp only [Function.update_self]

theorem call_of_ne {name' : QueueName} (hne : name' ≠ name) :
    sh.call name a = some (sh', evs) → sh'.queues name' = sh.queues name' := by
  intro h
  obtain ⟨queue, -, rfl⟩ := call_some h
  exact Function.update_of_ne hne _ _

theorem call_closed (name' : QueueName) :
    sh.call name a = some (sh', evs) →
    (sh'.queues name').queue.closed =
      ((sh.queues name').queue.closed || (decide (name' = name) && a.closes)) := by
  intro h
  by_cases hname : name' = name
  · subst hname
    rw [(QueueRun.step_frame (call_self h)).2.2, decide_eq_true rfl, Bool.true_and]
  · rw [call_of_ne hname h, decide_eq_false hname, Bool.false_and, Bool.or_false]

theorem call_reloads :
    sh.call name a = some (sh', evs) → sh'.reloads = sh.reloads := by
  intro h
  obtain ⟨queue, -, rfl⟩ := call_some h
  rfl

theorem call_push_open {x : name.Item} (hopen : (sh.queues name).queue.closed = false) :
    sh.call name (.push x) = some (sh', evs) → pushAnswer evs ≠ .refused := by
  intro h
  have hstep := call_self h
  rcases Queue.push_cases (sh.queues name).queue ((sh.queues name).pushes, x) with
    ⟨hclosed, -⟩ | ⟨old, rest, queue, -, -, -, hp, -⟩ | ⟨queue, -, -, hp, -⟩
  · exact absurd (hopen.symm.trans hclosed) Bool.false_ne_true
  · simp only [QueueRun.step, hp, Option.some.injEq, Prod.mk.injEq] at hstep
    obtain ⟨-, rfl⟩ := hstep
    simp [pushAnswer]
  · simp only [QueueRun.step, hp, Option.some.injEq, Prod.mk.injEq] at hstep
    obtain ⟨-, rfl⟩ := hstep
    simp [pushAnswer]

/-- The call leaves the consumer with a reservation. -/
def reserves {α : Type} : QueueRun.Act α → Bool
  | .peek | .tryPeek => true
  | _ => false

theorem step_front {α : Type} {q q' : QueueRun.Shared α} {a : QueueRun.Act α}
    {evs : List (QueueRun.Event α)} (ha : reserves a = false) :
    QueueRun.step q a = some (q', evs) → q.front = none → q'.front = none := by
  intro h hfront
  cases a with
  | push x =>
      rcases Queue.push_cases q.queue (q.pushes, x) with
        ⟨-, hp⟩ | ⟨old, rest, queue, -, -, -, hp, -⟩ | ⟨queue, -, -, hp, -⟩ <;>
        simp only [QueueRun.step, hp, Option.some.injEq, Prod.mk.injEq] at h <;>
        obtain ⟨rfl, -⟩ := h <;> exact hfront
  | notifyChange | close =>
      obtain ⟨rfl, -⟩ := Prod.mk.inj (Option.some.inj h)
      exact hfront
  | tryPop | pop | popTimeout =>
      obtain ⟨-, ⟨rfl, -⟩ | ⟨x, rest, -, rfl, -⟩⟩ := QueueRun.step_take (by simp) h <;> exact hfront
  | peek | tryPeek => cases ha
  | commit | restore =>
      simp only [QueueRun.step, hfront] at h
      cases h

end Calls

/-! ## What a step is -/

/-- A step, by the action. -/
inductive Takes (s : State) : Act → State → List Event → Prop
  | interrupt : Takes s .interrupt { s with shared := { s.shared with running := false } } []
  | panic {worker : Worker} {s' : State} :
      s.panic worker = some s' → Takes s (.panic worker) s' [.panicked worker]
  | inside {worker : Worker} {notice : Notice} {sh : Shared} {evs : List Event} :
      worker.Gives notice = true → s.shared.give notice = some (sh, evs) →
      Takes s (.inside worker notice) { s with shared := sh } evs
  | main {call : MainCall} {sh : Shared} {pc : MainPc} {evs : List Event} :
      mainStep (fun worker => (s.joined worker).isSome) s.shared s.main call =
        some (sh, pc, evs) →
      Takes s (.main call) { s with shared := sh, main := pc } evs
  | tunRead {call : TunReadCall} {sh : Shared} {pc : TunReadPc} {evs : List Event} :
      tunReadStep s.shared s.tunRead call = some (sh, pc, evs) →
      Takes s (.tunRead call) { s with shared := sh, tunRead := pc } evs
  | encrypt {call : EncryptCall} {sh : Shared} {pc : EncryptPc} {evs : List Event} :
      encryptStep s.lockFree s.shared s.encrypt call = some (sh, pc, evs) →
      Takes s (.encrypt call) { s with shared := sh, encrypt := pc } evs
  | udpWrite {call : UdpWriteCall} {sh : Shared} {pc : UdpWritePc} {evs : List Event} :
      udpWriteStep s.lockFree s.shared s.udpWrite call = some (sh, pc, evs) →
      Takes s (.udpWrite call) { s with shared := sh, udpWrite := pc } evs
  | decrypt {call : DecryptCall} {sh : Shared} {pc : DecryptPc} {evs : List Event} :
      decryptStep s.lockFree s.shared s.decrypt call = some (sh, pc, evs) →
      Takes s (.decrypt call) { s with shared := sh, decrypt := pc } evs
  | control {call : ControlCall} {sh : Shared} {pc : ControlPc} {evs : List Event} :
      controlStep s.lockFree s.shared s.control call = some (sh, pc, evs) →
      Takes s (.control call) { s with shared := sh, control := pc } evs

theorem step_takes {s s' : State} {a : Act} {evs : List Event} :
    step s a = some (s', evs) → Takes s a s' evs := by
  intro h
  cases a with
  | interrupt =>
      obtain ⟨rfl, rfl⟩ := Prod.mk.inj (Option.some.inj h)
      exact .interrupt
  | panic worker =>
      obtain ⟨s'', hpanic, hs''⟩ := Option.map_eq_some_iff.mp h
      obtain ⟨rfl, rfl⟩ := Prod.mk.inj hs''
      exact .panic hpanic
  | inside worker notice =>
      simp only [step] at h
      split at h
      · rename_i hinside
        obtain ⟨r, hgive, hs''⟩ := Option.map_eq_some_iff.mp h
        obtain ⟨rfl, rfl⟩ := Prod.mk.inj hs''
        exact .inside (Bool.and_eq_true_iff.mp hinside).2 hgive
      · cases h
  | main call | tunRead call | encrypt call | udpWrite call | decrypt call | control call =>
      obtain ⟨r, hstep, hs''⟩ := Option.map_eq_some_iff.mp h
      obtain ⟨rfl, rfl⟩ := Prod.mk.inj hs''
      constructor
      exact hstep

/-! ## Nothing stops by itself -/

/-- Why a thread ends before the others. -/
def Event.failure : Event → Option IoError
  | .udpFailed error => some error
  | .tunFailed error => some error
  | .failed _ error => some error
  | .panicked worker => some worker.panic
  | .queue _ _ | .arrived _ | .captured _ | .received _ => none

/-- Nothing has failed. -/
def Calm (log : List Event) : Prop := ∀ event ∈ log, event.failure = none

def TunReadPc.Works : TunReadPc → Prop
  | .top | .poll | .read | .push _ => True
  | .store _ | .send _ | .close | .leave _ | .ended _ => False

def EncryptPc.Works : EncryptPc → Prop
  | .leave _ | .ended _ => False
  | _ => True

def UdpWritePc.Works : UdpWritePc → Prop
  | .leave _ | .ended _ => False
  | _ => True

def DecryptPc.Works : DecryptPc → Prop
  | .finish _ | .drop _ | .leave _ | .ended _ => False
  | _ => True

def ControlPc.Works : ControlPc → Prop
  | .leave _ | .ended _ => False
  | _ => True

def MainPc.Works : MainPc → Prop
  | .cleanup _ _ => False
  | _ => True

/-- Nothing tells a thread to stop. -/
structure Shared.Up (sh : Shared) : Prop where
  running : sh.running = true
  active : sh.active = true
  opened : ∀ name, (sh.queues name).queue.closed = false
  receivers : sh.receivers = true
  quiet : sh.errors = []

/-- Every thread is in its loop. -/
structure State.Serves (s : State) : Prop where
  up : s.shared.Up
  main : s.main.Works
  tunRead : s.tunRead.Works
  encrypt : s.encrypt.Works
  udpWrite : s.udpWrite.Works
  decrypt : s.decrypt.Works
  control : s.control.Works

section Serving

variable {sh sh' : Shared} {free : Bool} {evs : List Event}

theorem Shared.Up.continues (h : sh.Up) : sh.continues = true := by
  rw [Shared.continues, h.running, h.active]
  rfl

theorem Shared.Up.open (h : sh.Up) (name : QueueName) : sh.isClosed name = false := h.opened name

theorem Shared.Up.call {name : QueueName} {a : QueueRun.Act name.Item}
    {events : List (QueueRun.Event name.Item)} (h : sh.Up) (ha : a.closes = false) :
    sh.call name a = some (sh', events) → sh'.Up := by
  intro hcall
  have hclosed := fun name' => call_closed name' hcall
  obtain ⟨queue, -, rfl⟩ := call_some hcall
  refine ⟨h.running, h.active, fun name' => ?_, h.receivers, h.quiet⟩
  rw [hclosed, h.opened, ha, Bool.and_false]
  rfl

theorem calm_cons {event : Event} : Calm (event :: evs) → event.failure = none :=
  fun hcalm => hcalm event List.mem_cons_self

theorem tunReadStep_serves (hup : sh.Up) {pc pc' : TunReadPc} {call : TunReadCall}
    (hworks : pc.Works) :
    tunReadStep sh pc call = some (sh', pc', evs) → Calm evs → sh'.Up ∧ pc'.Works := by
  fun_cases tunReadStep sh pc call
  all_goals rintro ⟨⟩ hcalm
  case case1 =>
      rw [hup.continues]
      exact ⟨hup, trivial⟩
  case case2 | case3 | case7 | case8 => exact ⟨hup, trivial⟩
  case case4 | case5 | case9 => exact absurd (calm_cons hcalm) (by simp [Event.failure])
  case case6 packet =>
      refine ⟨hup, ?_⟩
      split <;> exact trivial
  case case11 hcall =>
      have hup' := hup.call rfl hcall
      rw [if_neg (call_push_open (hup.opened _) hcall)]
      exact ⟨⟨hup'.running, hup'.active, hup'.opened, hup'.receivers, hup'.quiet⟩, trivial⟩
  all_goals exact hworks.elim

theorem encryptStep_serves (hup : sh.Up) {pc pc' : EncryptPc} {call : EncryptCall} :
    encryptStep free sh pc call = some (sh', pc', evs) → pc.Works → sh'.Up ∧ pc'.Works := by
  fun_cases encryptStep free sh pc call
  all_goals rintro ⟨⟩ hworks
  case case1 =>
      rw [hup.continues]
      exact ⟨hup, trivial⟩
  case case4 hcall =>
      refine ⟨hup.call rfl hcall, ?_⟩
      split <;> exact trivial
  case case5 =>
      refine ⟨hup, ?_⟩
      split <;> exact trivial
  case case9 | case17 =>
      exact ⟨⟨hup.running, hup.active, hup.opened, hup.receivers, hup.quiet⟩, trivial⟩
  case case10 =>
      refine ⟨⟨hup.running, hup.active, hup.opened, hup.receivers, hup.quiet⟩, ?_⟩
      split <;> exact trivial
  case case18 =>
      rw [hup.open, if_neg Bool.false_ne_true]
      refine ⟨hup, ?_⟩
      split <;> exact trivial
  case case21 => exact hworks.elim
  all_goals exact ⟨hup, trivial⟩

theorem udpWriteStep_serves (hup : sh.Up) {pc pc' : UdpWritePc} {call : UdpWriteCall} :
    udpWriteStep free sh pc call = some (sh', pc', evs) → pc.Works → sh'.Up ∧ pc'.Works := by
  fun_cases udpWriteStep free sh pc call
  all_goals rintro ⟨⟩ hworks
  case case1 | case12 =>
      rw [hup.continues]
      exact ⟨hup, trivial⟩
  case case5 =>
      refine ⟨hup, ?_⟩
      split
      · exact trivial
      · split <;> exact trivial
  case case7 =>
      exact ⟨⟨hup.running, hup.active, hup.opened, hup.receivers, hup.quiet⟩, trivial⟩
  case case9 hcall => exact ⟨hup.call rfl hcall, trivial⟩
  case case10 =>
      refine ⟨hup, ?_⟩
      split <;> exact trivial
  case case15 => exact hworks.elim
  all_goals exact ⟨hup, trivial⟩

theorem decryptStep_serves (hup : sh.Up) {pc pc' : DecryptPc} {call : DecryptCall} :
    decryptStep free sh pc call = some (sh', pc', evs) → pc.Works → Calm evs →
    sh'.Up ∧ pc'.Works := by
  fun_cases decryptStep free sh pc call
  all_goals rintro ⟨⟩ hworks hcalm
  case case1 | case6 =>
      rw [hup.continues]
      exact ⟨hup, trivial⟩
  case case9 | case25 => exact absurd (calm_cons hcalm) (by simp [Event.failure])
  case case14 =>
      exact ⟨⟨hup.running, hup.active, hup.opened, hup.receivers, hup.quiet⟩, trivial⟩
  case case16 herrors => exact absurd (herrors.symm.trans hup.quiet) (List.cons_ne_nil _ _)
  case case19 hcall =>
      have hup' := hup.call rfl hcall
      rw [hup'.open, if_neg Bool.false_ne_true]
      refine ⟨hup', ?_⟩
      split
      · exact trivial
      · split <;> exact trivial
  case case26 | case27 | case28 | case29 | case30 => exact hworks.elim
  all_goals exact ⟨hup, trivial⟩

theorem controlStep_serves (hup : sh.Up) {pc pc' : ControlPc} {call : ControlCall} :
    controlStep free sh pc call = some (sh', pc', evs) → pc.Works → Calm evs →
    sh'.Up ∧ pc'.Works := by
  fun_cases controlStep free sh pc call
  all_goals rintro ⟨⟩ hworks hcalm
  case case1 =>
      rw [hup.continues]
      exact ⟨hup, trivial⟩
  case case5 | case23 => exact absurd (calm_cons hcalm) (by simp [Event.failure])
  case case12 | case24 =>
      exact ⟨⟨hup.running, hup.active, hup.opened, hup.receivers, hup.quiet⟩, trivial⟩
  case case13 hreceivers => exact absurd hup.receivers hreceivers
  case case15 hcall =>
      refine ⟨hup.call rfl hcall, ?_⟩
      split <;> exact trivial
  case case21 =>
      refine ⟨hup, ?_⟩
      split <;> exact trivial
  case case25 => exact hworks.elim
  all_goals exact ⟨hup, trivial⟩

theorem mainStep_serves (hup : sh.Up) {ended : Worker → Bool} {pc pc' : MainPc} {call : MainCall} :
    mainStep ended sh pc call = some (sh', pc', evs) → pc.Works → Calm evs →
    sh'.Up ∧ pc'.Works := by
  fun_cases mainStep ended sh pc call
  all_goals rintro ⟨⟩ hworks hcalm
  case case1 =>
      rw [hup.continues]
      exact ⟨hup, trivial⟩
  case case4 | case7 => exact absurd (calm_cons hcalm) (by simp [Event.failure])
  case case9 hcall =>
      have hup' := hup.call rfl hcall
      rw [if_neg (call_push_open (hup.opened _) hcall)]
      exact ⟨⟨hup'.running, hup'.active, hup'.opened, hup'.receivers, hup'.quiet⟩, trivial⟩
  case case10 =>
      exact ⟨⟨hup.running, hup.active, hup.opened, hup.receivers, hup.quiet⟩, trivial⟩
  case case12 => exact hworks.elim
  all_goals exact ⟨hup, trivial⟩

theorem give_up {notice : Notice} (hup : sh.Up) : sh.give notice = some (sh', evs) → sh'.Up := by
  fun_cases Shared.give sh notice
  all_goals rintro ⟨⟩
  case case4 hcall => exact hup.call rfl hcall
  all_goals exact ⟨hup.running, hup.active, hup.opened, hup.receivers, hup.quiet⟩

theorem step_serves {s s' : State} {a : Act} (h : Takes s a s' evs) (hs : s.Serves)
    (hcalm : Calm evs) (hrunning : s'.shared.running = true) : s'.Serves := by
  cases h with
  | interrupt => exact absurd hrunning Bool.false_ne_true
  | panic => exact absurd (calm_cons hcalm) (by simp [Event.failure])
  | inside _ hgive => exact { hs with up := give_up hs.up hgive }
  | main hstep =>
      obtain ⟨hup, hworks⟩ := mainStep_serves hs.up hstep hs.main hcalm
      exact { hs with up := hup, main := hworks }
  | tunRead hstep =>
      obtain ⟨hup, hworks⟩ := tunReadStep_serves hs.up hs.tunRead hstep hcalm
      exact { hs with up := hup, tunRead := hworks }
  | encrypt hstep =>
      obtain ⟨hup, hworks⟩ := encryptStep_serves hs.up hstep hs.encrypt
      exact { hs with up := hup, encrypt := hworks }
  | udpWrite hstep =>
      obtain ⟨hup, hworks⟩ := udpWriteStep_serves hs.up hstep hs.udpWrite
      exact { hs with up := hup, udpWrite := hworks }
  | decrypt hstep =>
      obtain ⟨hup, hworks⟩ := decryptStep_serves hs.up hstep hs.decrypt hcalm
      exact { hs with up := hup, decrypt := hworks }
  | control hstep =>
      obtain ⟨hup, hworks⟩ := controlStep_serves hs.up hstep hs.control hcalm
      exact { hs with up := hup, control := hworks }

end Serving

/-! ## What stays -/

/-- What every step does to what the threads share.  Only the control worker
empties the wake-up socket, and only the TUN reader sends errors. -/
structure Frame (drains : Prop) (sends : IoError → Prop) (sh sh' : Shared) : Prop where
  running : sh.running = false → sh'.running = false
  active : sh.active = false → sh'.active = false
  closed : ∀ name, (sh.queues name).queue.closed = true → (sh'.queues name).queue.closed = true
  count : sh.progress.generation.count ≤ sh'.progress.generation.count
  wake : ¬ drains → sh.wake = true → sh'.wake = true
  errors : ∀ error ∈ sh'.errors, error ∈ sh.errors ∨ sends error
  front : (∀ name, (sh.queues name).front = none) → ∀ name, (sh'.queues name).front = none

section Frames

variable {drains : Prop} {sends : IoError → Prop} {sh sh' : Shared} {free : Bool}
  {evs : List Event}

theorem Frame.refl (drains : Prop) (sends : IoError → Prop) (sh : Shared) :
    Frame drains sends sh sh :=
  ⟨id, id, fun _ => id, Nat.le_refl _, fun _ => id, fun _ => .inl, id⟩

theorem Frame.count_encrypted (h : Frame drains sends sh sh') (n : Nat) :
    Frame drains sends sh { sh' with encryptedDrops := n } :=
  ⟨h.running, h.active, h.closed, h.count, h.wake, h.errors, h.front⟩

theorem Frame.count_plain (h : Frame drains sends sh sh') (n : Nat) :
    Frame drains sends sh { sh' with plainDrops := n } :=
  ⟨h.running, h.active, h.closed, h.count, h.wake, h.errors, h.front⟩

theorem call_frame {name : QueueName} {a : QueueRun.Act name.Item}
    {events : List (QueueRun.Event name.Item)} (ha : reserves a = false)
    (hcall : sh.call name a = some (sh', events)) : Frame drains sends sh sh' := by
  have hclosed := fun name' => call_closed name' hcall
  have hfront : (∀ name, (sh.queues name).front = none) →
      ∀ name, (sh'.queues name).front = none := by
    intro hnone name'
    by_cases hname : name' = name
    · subst hname
      exact step_front ha (call_self hcall) (hnone name')
    · rw [call_of_ne hname hcall]
      exact hnone name'
  obtain ⟨queue, -, rfl⟩ := call_some hcall
  refine ⟨id, id, fun name' hname' => ?_, Nat.le_refl _, fun _ => id, fun _ => .inl, hfront⟩
  rw [hclosed, hname', Bool.true_or]

theorem tunReadStep_frame {pc pc' : TunReadPc} {call : TunReadCall} :
    tunReadStep sh pc call = some (sh', pc', evs) →
    Frame drains (fun error => pc = .send error) sh sh' := by
  fun_cases tunReadStep sh pc call
  all_goals rintro ⟨⟩
  case case11 hcall => exact (call_frame rfl hcall).count_plain _
  case case15 hcall => exact call_frame rfl hcall
  case case12 | case16 =>
      exact ⟨id, fun _ => rfl, fun _ => id, Nat.le_refl _, fun _ => id, fun _ => .inl, id⟩
  case case13 error =>
      refine ⟨id, id, fun _ => id, Nat.le_refl _, fun _ => id, fun error' herror' => ?_, id⟩
      dsimp only at herror'
      split at herror'
      · rcases List.mem_append.mp herror' with hmem | hmem
        · exact .inl hmem
        · exact .inr (congrArg TunReadPc.send (List.mem_singleton.mp hmem).symm)
      · exact .inl herror'
  all_goals exact .refl _ _ _

theorem encryptStep_frame {pc pc' : EncryptPc} {call : EncryptCall} :
    encryptStep free sh pc call = some (sh', pc', evs) → Frame drains sends sh sh' := by
  fun_cases encryptStep free sh pc call
  all_goals rintro ⟨⟩
  case case4 hcall => exact call_frame rfl hcall
  case case9 | case17 =>
      exact ⟨id, id, fun _ => id, Nat.le_succ _, fun _ => id, fun _ => .inl, id⟩
  case case10 => exact ⟨id, id, fun _ => id, Nat.le_refl _, fun _ => id, fun _ => .inl, id⟩
  case case21 => exact ⟨id, fun _ => rfl, fun _ => id, Nat.le_refl _, fun _ => id, fun _ => .inl, id⟩
  all_goals exact .refl _ _ _

theorem udpWriteStep_frame {pc pc' : UdpWritePc} {call : UdpWriteCall} :
    udpWriteStep free sh pc call = some (sh', pc', evs) → Frame drains sends sh sh' := by
  fun_cases udpWriteStep free sh pc call
  all_goals rintro ⟨⟩
  case case7 => exact ⟨id, id, fun _ => id, Nat.le_refl _, fun _ => id, fun _ => .inl, id⟩
  case case9 hcall => exact call_frame rfl hcall
  case case15 => exact ⟨id, fun _ => rfl, fun _ => id, Nat.le_refl _, fun _ => id, fun _ => .inl, id⟩
  all_goals exact .refl _ _ _

theorem decryptStep_frame {pc pc' : DecryptPc} {call : DecryptCall} :
    decryptStep free sh pc call = some (sh', pc', evs) → Frame drains sends sh sh' := by
  fun_cases decryptStep free sh pc call
  all_goals rintro ⟨⟩
  case case14 | case29 =>
      exact ⟨id, id, fun _ => id, Nat.le_refl _, fun _ => id, fun _ => .inl, id⟩
  case case16 herrors | case27 herrors =>
      refine ⟨id, id, fun _ => id, Nat.le_refl _, fun _ => id, fun error hmem => .inl ?_, id⟩
      rw [herrors]
      exact List.mem_cons_of_mem _ hmem
  case case19 hcall => exact call_frame rfl hcall
  case case30 => exact ⟨id, fun _ => rfl, fun _ => id, Nat.le_refl _, fun _ => id, fun _ => .inl, id⟩
  all_goals exact .refl _ _ _

theorem controlStep_frame {pc pc' : ControlPc} {call : ControlCall} :
    controlStep free sh pc call = some (sh', pc', evs) → Frame (pc = .drainWake) sends sh sh' := by
  fun_cases controlStep free sh pc call
  all_goals rintro ⟨⟩
  case case12 => exact ⟨id, id, fun _ => id, Nat.le_refl _, fun _ => id, fun _ => .inl, id⟩
  case case15 hcall => exact call_frame rfl hcall
  case case24 =>
      exact ⟨id, id, fun _ => id, Nat.le_refl _, fun hnot => absurd rfl hnot, fun _ => .inl, id⟩
  case case25 => exact ⟨id, fun _ => rfl, fun _ => id, Nat.le_refl _, fun _ => id, fun _ => .inl, id⟩
  all_goals exact .refl _ _ _

theorem cleanupStep_frame {ended : Worker → Bool} {op : Cleanup} :
    cleanupStep ended sh op = some (sh', evs) → Frame drains sends sh sh' := by
  fun_cases cleanupStep ended sh op
  all_goals rintro ⟨⟩
  case case1 => exact ⟨id, fun _ => rfl, fun _ => id, Nat.le_refl _, fun _ => id, fun _ => .inl, id⟩
  case case2 => exact ⟨id, id, fun _ => id, Nat.le_succ _, fun _ => id, fun _ => .inl, id⟩
  case case3 => exact ⟨id, id, fun _ => id, Nat.le_refl _, fun _ _ => rfl, fun _ => .inl, id⟩
  case case5 hcall => exact call_frame rfl hcall
  all_goals exact .refl _ _ _

theorem mainStep_frame {ended : Worker → Bool} {pc pc' : MainPc} {call : MainCall} :
    mainStep ended sh pc call = some (sh', pc', evs) → Frame drains sends sh sh' := by
  fun_cases mainStep ended sh pc call
  all_goals rintro ⟨⟩
  case case9 hcall => exact (call_frame rfl hcall).count_encrypted _
  case case10 => exact ⟨id, id, fun _ => id, Nat.le_succ _, fun _ => id, fun _ => .inl, id⟩
  case case12 hop => exact cleanupStep_frame hop
  all_goals exact .refl _ _ _

theorem give_frame {notice : Notice} :
    sh.give notice = some (sh', evs) → Frame drains sends sh sh' := by
  fun_cases Shared.give sh notice
  all_goals rintro ⟨⟩
  case case1 => exact ⟨id, id, fun _ => id, Nat.le_succ _, fun _ => id, fun _ => .inl, id⟩
  case case4 hcall => exact call_frame rfl hcall
  case case5 => exact ⟨id, id, fun _ => id, Nat.le_refl _, fun _ _ => rfl, fun _ => .inl, id⟩
  all_goals exact ⟨id, id, fun _ => id, Nat.le_refl _, fun _ => id, fun _ => .inl, id⟩

theorem panic_shared {s s' : State} {worker : Worker} :
    s.panic worker = some s' → s'.shared = s.shared := by
  fun_cases State.panic s worker
  all_goals rintro ⟨⟩
  all_goals rfl

theorem Takes.frame {s s' : State} {a : Act} (h : Takes s a s' evs) :
    Frame (s.control = .drainWake) (fun error => s.tunRead = .send error) s.shared s'.shared := by
  cases h with
  | interrupt => exact ⟨fun _ => rfl, id, fun _ => id, Nat.le_refl _, fun _ => id, fun _ => .inl, id⟩
  | panic hpanic =>
      rw [panic_shared hpanic]
      exact .refl _ _ _
  | inside _ hgive => exact give_frame hgive
  | main hstep => exact mainStep_frame hstep
  | tunRead hstep => exact tunReadStep_frame hstep
  | encrypt hstep => exact encryptStep_frame hstep
  | udpWrite hstep => exact udpWriteStep_frame hstep
  | decrypt hstep => exact decryptStep_frame hstep
  | control hstep => exact controlStep_frame hstep

end Frames

/-! ## What the threads end with -/

def TunReadPc.verdict : TunReadPc → Option (Except IoError Unit)
  | .leave result | .ended result => some result
  | _ => none

def EncryptPc.verdict : EncryptPc → Option (Except IoError Unit)
  | .leave result | .ended result => some result
  | _ => none

def UdpWritePc.verdict : UdpWritePc → Option (Except IoError Unit)
  | .leave result | .ended result => some result
  | _ => none

def DecryptPc.verdict : DecryptPc → Option (Except IoError Unit)
  | .finish result | .drop result | .leave result | .ended result => some result
  | _ => none

def ControlPc.verdict : ControlPc → Option (Except IoError Unit)
  | .leave result | .ended result => some result
  | _ => none

def MainPc.verdict : MainPc → Option (Except IoError Unit)
  | .cleanup result _ => some result
  | _ => none

/-- What a thread is about to end with, once it has left its loop; `none` is the
main thread. -/
def State.verdict (s : State) : Option Worker → Option (Except IoError Unit)
  | none => s.main.verdict
  | some .tunRead => s.tunRead.verdict
  | some .encrypt => s.encrypt.verdict
  | some .udpWrite => s.udpWrite.verdict
  | some .decrypt => s.decrypt.verdict
  | some .control => s.control.verdict

/-- An error that a thread is to end with. -/
def Event.fault : Event → Option (Option Worker × IoError)
  | .udpFailed error => some (none, error)
  | .failed worker error => some (some worker, error)
  | .panicked worker => some (some worker, worker.panic)
  | .received error => some (some .decrypt, error)
  | .queue _ _ | .arrived _ | .captured _ | .tunFailed _ => none

/-- The errors of a thread are those it shows, but for the one that says no more
than that the server is stopping. -/
structure Accounts (thread : Option Worker) (v v' : Option (Except IoError Unit))
    (evs : List Event) : Prop where
  stays : (∃ error, v = some (.error error)) → ∃ error, v' = some (.error error)
  shown : ∀ event ∈ evs, ∀ thread' error, event.fault = some (thread', error) →
    thread' = thread ∧ ∃ error', v' = some (.error error')
  meant : ∀ error, v' = some (.error error) →
    v = some (.error error) ∨ (∃ event ∈ evs, event.fault = some (thread, error)) ∨
      error = serverStopping

/-- No error is shown. -/
def Silent (evs : List Event) : Prop := ∀ event ∈ evs, event.fault = none

section Verdicts

variable {thread : Option Worker} {v v' : Option (Except IoError Unit)} {sh sh' : Shared}
  {free : Bool} {evs : List Event}

theorem silent_nil : Silent [] := fun _ hevent => absurd hevent List.not_mem_nil

theorem silent_map {name : QueueName} (events : List (QueueRun.Event name.Item)) :
    Silent (events.map (.queue name)) := by
  intro event hevent
  obtain ⟨_, -, rfl⟩ := List.mem_map.mp hevent
  rfl

theorem Silent.cons {event : Event} (hevent : event.fault = none) (h : Silent evs) :
    Silent (event :: evs) :=
  List.forall_mem_cons.mpr ⟨hevent, h⟩

theorem Accounts.same (hv : v' = v) (hevs : Silent evs) : Accounts thread v v' evs where
  stays h := by rw [hv]; exact h
  shown event hevent _ _ hfault := by rw [hevs event hevent] at hfault; cases hfault
  meant error herror := .inl (hv ▸ herror)

/-- There is no error before or after. -/
theorem Accounts.fine (hv : ∀ error, v ≠ some (.error error)) (hevs : Silent evs) :
    (∀ error, v' ≠ some (.error error)) → Accounts thread v v' evs := by
  intro hv'
  refine ⟨?_, ?_, fun error herror => absurd herror (hv' error)⟩
  · rintro ⟨error, herror⟩
    exact absurd herror (hv error)
  · intro event hevent _ _ hfault
    rw [hevs event hevent] at hfault
    cases hfault

theorem Accounts.fault {event : Event} {error : IoError} (hv' : v' = some (.error error))
    (hfault : event.fault = some (thread, error)) : Accounts thread v v' [event] where
  stays _ := ⟨error, hv'⟩
  shown event' hevent thread' error' hfault' := by
    obtain rfl := List.mem_singleton.mp hevent
    rw [hfault] at hfault'
    exact ⟨(Prod.mk.inj (Option.some.inj hfault')).1.symm, error, hv'⟩
  meant error' herror := by
    rw [hv'] at herror
    obtain rfl := Except.error.inj (Option.some.inj herror)
    exact .inr (.inl ⟨event, List.mem_singleton_self _, hfault⟩)

theorem tunReadStep_accounts {pc pc' : TunReadPc} {call : TunReadCall} :
    tunReadStep sh pc call = some (sh', pc', evs) →
    Accounts (some .tunRead) pc.verdict pc'.verdict evs := by
  fun_cases tunReadStep sh pc call
  all_goals rintro ⟨⟩
  case case1 =>
      refine .fine (by simp [TunReadPc.verdict]) silent_nil ?_
      split <;> simp [TunReadPc.verdict]
  case case4 | case5 | case9 => exact .same rfl (.cons rfl silent_nil)
  case case6 packet => cases packet <;> exact .same rfl silent_nil
  case case11 =>
      refine .fine (by simp [TunReadPc.verdict]) (.cons rfl (silent_map _)) ?_
      split <;> simp [TunReadPc.verdict]
  case case15 =>
      exact .fine (by simp [TunReadPc.verdict]) (silent_map _) (by simp [TunReadPc.verdict])
  all_goals exact .same rfl silent_nil

theorem encryptStep_accounts {pc pc' : EncryptPc} {call : EncryptCall} :
    encryptStep free sh pc call = some (sh', pc', evs) →
    Accounts (some .encrypt) pc.verdict pc'.verdict evs := by
  fun_cases encryptStep free sh pc call
  all_goals rintro ⟨⟩
  case case1 =>
      refine .fine (by simp [EncryptPc.verdict]) silent_nil ?_
      split <;> simp [EncryptPc.verdict]
  case case4 =>
      refine .fine (by simp [EncryptPc.verdict]) (silent_map _) ?_
      split <;> simp [EncryptPc.verdict]
  case case5 =>
      refine .fine (by simp [EncryptPc.verdict]) silent_nil ?_
      split <;> simp [EncryptPc.verdict]
  case case10 =>
      refine .fine (by simp [EncryptPc.verdict]) silent_nil ?_
      split <;> simp [EncryptPc.verdict]
  case case18 =>
      refine .fine (by simp [EncryptPc.verdict]) silent_nil ?_
      split
      · simp [EncryptPc.verdict]
      · split <;> simp [EncryptPc.verdict]
  all_goals exact .same rfl silent_nil

theorem udpWriteStep_accounts {pc pc' : UdpWritePc} {call : UdpWriteCall} :
    udpWriteStep free sh pc call = some (sh', pc', evs) →
    Accounts (some .udpWrite) pc.verdict pc'.verdict evs := by
  fun_cases udpWriteStep free sh pc call
  all_goals rintro ⟨⟩
  case case1 | case10 | case12 =>
      refine .fine (by simp [UdpWritePc.verdict]) silent_nil ?_
      split <;> simp [UdpWritePc.verdict]
  case case5 =>
      refine .fine (by simp [UdpWritePc.verdict]) silent_nil ?_
      split
      · simp [UdpWritePc.verdict]
      · split <;> simp [UdpWritePc.verdict]
  case case9 => exact .same rfl (silent_map _)
  all_goals exact .same rfl silent_nil

theorem decryptStep_accounts {pc pc' : DecryptPc} {call : DecryptCall} :
    decryptStep free sh pc call = some (sh', pc', evs) →
    Accounts (some .decrypt) pc.verdict pc'.verdict evs := by
  fun_cases decryptStep free sh pc call
  all_goals rintro ⟨⟩
  case case1 =>
      refine .fine (by simp [DecryptPc.verdict]) silent_nil ?_
      split <;> simp [DecryptPc.verdict]
  case case6 =>
      refine ⟨by simp [DecryptPc.verdict], fun event hevent => absurd hevent List.not_mem_nil, ?_⟩
      intro error herror
      split at herror
      · cases herror
      · exact .inr (.inr (Except.error.inj (Option.some.inj herror)).symm)
  case case9 | case16 | case25 | case27 => exact .fault rfl rfl
  case case19 =>
      refine .fine (by simp [DecryptPc.verdict]) (silent_map _) ?_
      split
      · simp [DecryptPc.verdict]
      · split
        · simp [DecryptPc.verdict]
        · split <;> simp [DecryptPc.verdict]
  all_goals exact .same rfl silent_nil

theorem controlStep_accounts {pc pc' : ControlPc} {call : ControlCall} :
    controlStep free sh pc call = some (sh', pc', evs) →
    Accounts (some .control) pc.verdict pc'.verdict evs := by
  fun_cases controlStep free sh pc call
  all_goals rintro ⟨⟩
  case case1 | case21 =>
      refine .fine (by simp [ControlPc.verdict]) silent_nil ?_
      split <;> simp [ControlPc.verdict]
  case case5 | case23 => exact .fault rfl rfl
  case case13 => exact .fine (by simp [ControlPc.verdict]) silent_nil (by simp [ControlPc.verdict])
  case case15 =>
      refine .fine (by simp [ControlPc.verdict]) (silent_map _) ?_
      split <;> simp [ControlPc.verdict]
  all_goals exact .same rfl silent_nil

theorem cleanupStep_silent {ended : Worker → Bool} {op : Cleanup} :
    cleanupStep ended sh op = some (sh', evs) → Silent evs := by
  fun_cases cleanupStep ended sh op
  all_goals rintro ⟨⟩
  case case5 => exact silent_map _
  all_goals exact silent_nil

theorem mainStep_accounts {ended : Worker → Bool} {pc pc' : MainPc} {call : MainCall} :
    mainStep ended sh pc call = some (sh', pc', evs) →
    Accounts none pc.verdict pc'.verdict evs := by
  fun_cases mainStep ended sh pc call
  all_goals rintro ⟨⟩
  case case1 =>
      refine .fine (by simp [MainPc.verdict]) silent_nil ?_
      split <;> simp [MainPc.verdict, MainPc.left]
  case case4 | case7 => exact .fault rfl rfl
  case case9 =>
      refine .fine (by simp [MainPc.verdict]) (.cons rfl (silent_map _)) ?_
      split <;> simp [MainPc.verdict, MainPc.left]
  case case12 hop => exact .same rfl (cleanupStep_silent hop)
  all_goals exact .same rfl silent_nil

theorem give_silent {notice : Notice} : sh.give notice = some (sh', evs) → Silent evs := by
  fun_cases Shared.give sh notice
  all_goals rintro ⟨⟩
  case case4 => exact silent_map _
  all_goals exact silent_nil

theorem panic_verdict {s s' : State} {worker : Worker} :
    s.panic worker = some s' → s'.verdict (some worker) = some (.error worker.panic) ∧
      ∀ thread, thread ≠ some worker → s'.verdict thread = s.verdict thread := by
  fun_cases State.panic s worker
  all_goals rintro ⟨⟩
  all_goals
    refine ⟨rfl, fun thread hne => ?_⟩
    rcases thread with _ | ⟨_ | _ | _ | _ | _⟩ <;> first | rfl | exact absurd rfl hne

/-- A step is the business of one thread. -/
theorem Takes.accounts {s s' : State} {a : Act} (h : Takes s a s' evs) :
    ∃ actor, Accounts actor (s.verdict actor) (s'.verdict actor) evs ∧
      ∀ thread, thread ≠ actor → s'.verdict thread = s.verdict thread := by
  cases h with
  | interrupt => exact ⟨none, .same rfl silent_nil, fun _ _ => rfl⟩
  | @panic worker _ hpanic =>
      obtain ⟨hverdict, hothers⟩ := panic_verdict hpanic
      exact ⟨some worker, .fault hverdict rfl, hothers⟩
  | inside _ hgive => exact ⟨none, .same rfl (give_silent hgive), fun _ _ => rfl⟩
  | main hstep =>
      refine ⟨none, mainStep_accounts hstep, fun thread hne => ?_⟩
      rcases thread with _ | ⟨_ | _ | _ | _ | _⟩ <;> first | rfl | exact absurd rfl hne
  | tunRead hstep =>
      refine ⟨some .tunRead, tunReadStep_accounts hstep, fun thread hne => ?_⟩
      rcases thread with _ | ⟨_ | _ | _ | _ | _⟩ <;> first | rfl | exact absurd rfl hne
  | encrypt hstep =>
      refine ⟨some .encrypt, encryptStep_accounts hstep, fun thread hne => ?_⟩
      rcases thread with _ | ⟨_ | _ | _ | _ | _⟩ <;> first | rfl | exact absurd rfl hne
  | udpWrite hstep =>
      refine ⟨some .udpWrite, udpWriteStep_accounts hstep, fun thread hne => ?_⟩
      rcases thread with _ | ⟨_ | _ | _ | _ | _⟩ <;> first | rfl | exact absurd rfl hne
  | decrypt hstep =>
      refine ⟨some .decrypt, decryptStep_accounts hstep, fun thread hne => ?_⟩
      rcases thread with _ | ⟨_ | _ | _ | _ | _⟩ <;> first | rfl | exact absurd rfl hne
  | control hstep =>
      refine ⟨some .control, controlStep_accounts hstep, fun thread hne => ?_⟩
      rcases thread with _ | ⟨_ | _ | _ | _ | _⟩ <;> first | rfl | exact absurd rfl hne

end Verdicts

/-! ## The channel of the TUN reader's error -/

/-- The errors that are sent, and those that are received, are the TUN reader's. -/
structure State.Told (log : List Event) (s : State) : Prop where
  sent : ∀ error ∈ s.shared.errors, .tunFailed error ∈ log
  sending : ∀ error, s.tunRead = .store error ∨ s.tunRead = .send error → .tunFailed error ∈ log
  received : ∀ error, .received error ∈ log → .tunFailed error ∈ log

section Channel

variable {sh sh' : Shared} {free : Bool} {s s' : State} {a : Act} {evs log : List Event}

theorem tunReadStep_sending {pc pc' : TunReadPc} {call : TunReadCall} {error : IoError} :
    tunReadStep sh pc call = some (sh', pc', evs) → pc' = .store error ∨ pc' = .send error →
    pc = .store error ∨ .tunFailed error ∈ evs := by
  fun_cases tunReadStep sh pc call
  all_goals rintro ⟨⟩ hpc
  case case4 | case5 | case9 =>
      rcases hpc with hpc | hpc
      · exact .inr (by rw [TunReadPc.store.inj hpc]; exact List.mem_singleton_self _)
      · cases hpc
  case case12 =>
      rcases hpc with hpc | hpc
      · cases hpc
      · exact .inl (by rw [TunReadPc.send.inj hpc])
  case case1 => cases hcontinues : sh.continues <;> simp [hcontinues] at hpc
  case case6 => split at hpc <;> simp at hpc
  case case11 => split at hpc <;> simp at hpc
  all_goals simp at hpc

theorem decryptStep_received {pc pc' : DecryptPc} {call : DecryptCall} {error : IoError} :
    decryptStep free sh pc call = some (sh', pc', evs) → .received error ∈ evs →
    error ∈ sh.errors := by
  fun_cases decryptStep free sh pc call
  all_goals rintro ⟨⟩ hmem
  case case16 herrors | case27 herrors =>
      obtain rfl := Event.received.inj (List.mem_singleton.mp hmem)
      rw [herrors]
      exact List.mem_cons_self
  case case19 =>
      obtain ⟨_, -, hevent⟩ := List.mem_map.mp hmem
      cases hevent
  all_goals simp at hmem

/-- Only the decrypt worker receives. -/
theorem received_actor {actor : Option Worker} {v v' : Option (Except IoError Unit)}
    (h : Accounts actor v v' evs) {error : IoError} (hmem : .received error ∈ evs) :
    actor = some .decrypt :=
  (h.shown _ hmem _ _ rfl).1.symm

theorem Takes.received (h : Takes s a s' evs) {error : IoError} :
    .received error ∈ evs → error ∈ s.shared.errors := by
  intro hmem
  cases h with
  | interrupt => cases hmem
  | panic => exact absurd (List.mem_singleton.mp hmem) (by simp)
  | inside _ hgive => exact absurd (give_silent hgive _ hmem) (by simp [Event.fault])
  | main hstep => exact absurd (received_actor (mainStep_accounts hstep) hmem) (by simp)
  | tunRead hstep => exact absurd (received_actor (tunReadStep_accounts hstep) hmem) (by simp)
  | encrypt hstep => exact absurd (received_actor (encryptStep_accounts hstep) hmem) (by simp)
  | udpWrite hstep => exact absurd (received_actor (udpWriteStep_accounts hstep) hmem) (by simp)
  | decrypt hstep => exact decryptStep_received hstep hmem
  | control hstep => exact absurd (received_actor (controlStep_accounts hstep) hmem) (by simp)

theorem panic_tunRead {worker : Worker} :
    s.panic worker = some s' → s'.tunRead = s.tunRead ∨ ∃ result, s'.tunRead = .leave result := by
  fun_cases State.panic s worker
  all_goals rintro ⟨⟩
  case case3 => exact .inr ⟨_, rfl⟩
  all_goals exact .inl rfl

theorem Takes.sending (h : Takes s a s' evs) {error : IoError} :
    s'.tunRead = .store error ∨ s'.tunRead = .send error →
    (s.tunRead = .store error ∨ s.tunRead = .send error) ∨ .tunFailed error ∈ evs := by
  intro hpc
  cases h with
  | tunRead hstep => exact (tunReadStep_sending hstep hpc).imp_left .inl
  | panic hpanic =>
      rcases panic_tunRead hpanic with hsame | ⟨result, hleave⟩
      · exact .inl (hsame ▸ hpc)
      · rw [hleave] at hpc
        rcases hpc with hpc | hpc <;> cases hpc
  | interrupt | inside | main | encrypt | udpWrite | decrypt | control => exact .inl hpc

theorem Takes.told (h : Takes s a s' evs) (hs : s.Told log) : s'.Told (log ++ evs) where
  sent error hmem := by
    refine List.mem_append_left _ ?_
    rcases h.frame.errors error hmem with hmem | hsending
    · exact hs.sent error hmem
    · exact hs.sending error (.inr hsending)
  sending error hpc := by
    rcases h.sending hpc with hbefore | hnow
    · exact List.mem_append_left _ (hs.sending error hbefore)
    · exact List.mem_append_right _ hnow
  received error hmem := by
    refine List.mem_append_left _ ?_
    rcases List.mem_append.mp hmem with hmem | hmem
    · exact hs.received error hmem
    · exact hs.sent error (h.received hmem)

end Channel

/-! ## The cleanup -/

/-- The main thread has done this. -/
def State.Done (s : State) : Cleanup → Prop
  | .store => s.shared.active = false
  | .notify => True
  | .wake => True
  | .close name => (s.shared.queues name).queue.closed = true
  | .join worker => (s.joined worker).isSome = true

/-- What is still to do of the cleanup is the end of it, and the rest is done. -/
def State.Cleaned (s : State) : Prop :=
  ∀ result rest, s.main = .cleanup result rest →
    ∃ before, before ++ rest = cleanup ∧ ∀ op ∈ before, s.Done op

theorem mem_cleanup (op : Cleanup) : op ∈ cleanup := by
  cases op with
  | close name => cases name <;> decide
  | join worker => cases worker <;> decide
  | store | notify | wake => decide

section Cleaning

variable {sh sh' : Shared} {s s' : State} {a : Act} {evs : List Event}

theorem panic_joined {worker worker' : Worker} :
    s.panic worker = some s' → (s.joined worker').isSome = true →
    (s'.joined worker').isSome = true := by
  fun_cases State.panic s worker
  all_goals rintro ⟨⟩ hjoined
  case case3 hleave hended =>
      cases worker' with
      | tunRead =>
          cases hpc : s.tunRead with
          | ended result => exact (hended _ hpc).elim
          | _ => simp [State.joined, hpc] at hjoined
      | _ => exact hjoined
  case case6 hleave hended =>
      cases worker' with
      | encrypt =>
          cases hpc : s.encrypt with
          | ended result => exact (hended _ hpc).elim
          | _ => simp [State.joined, hpc] at hjoined
      | _ => exact hjoined
  case case9 hleave hended =>
      cases worker' with
      | udpWrite =>
          cases hpc : s.udpWrite with
          | ended result => exact (hended _ hpc).elim
          | _ => simp [State.joined, hpc] at hjoined
      | _ => exact hjoined
  case case13 hdrop hleave hended =>
      cases worker' with
      | decrypt =>
          cases hpc : s.decrypt with
          | ended result => exact (hended _ hpc).elim
          | _ => simp [State.joined, hpc] at hjoined
      | _ => exact hjoined
  case case16 hleave hended =>
      cases worker' with
      | control =>
          cases hpc : s.control with
          | ended result => exact (hended _ hpc).elim
          | _ => simp [State.joined, hpc] at hjoined
      | _ => exact hjoined

/-- A thread that has ended stays so. -/
theorem Takes.joined (h : Takes s a s' evs) (worker : Worker) :
    (s.joined worker).isSome = true → (s'.joined worker).isSome = true := by
  intro hjoined
  cases h with
  | interrupt | inside | main => exact hjoined
  | panic hpanic => exact panic_joined hpanic hjoined
  | @tunRead call _ _ _ hstep =>
      cases worker with
      | tunRead =>
          cases hpc : s.tunRead with
          | ended result => rw [hpc] at hstep; cases call <;> cases hstep
          | _ => simp [State.joined, hpc] at hjoined
      | _ => exact hjoined
  | @encrypt call _ _ _ hstep =>
      cases worker with
      | encrypt =>
          cases hpc : s.encrypt with
          | ended result => rw [hpc] at hstep; cases call <;> cases hstep
          | _ => simp [State.joined, hpc] at hjoined
      | _ => exact hjoined
  | @udpWrite call _ _ _ hstep =>
      cases worker with
      | udpWrite =>
          cases hpc : s.udpWrite with
          | ended result => rw [hpc] at hstep; cases call <;> cases hstep
          | _ => simp [State.joined, hpc] at hjoined
      | _ => exact hjoined
  | @decrypt call _ _ _ hstep =>
      cases worker with
      | decrypt =>
          cases hpc : s.decrypt with
          | ended result => rw [hpc] at hstep; cases call <;> cases hstep
          | _ => simp [State.joined, hpc] at hjoined
      | _ => exact hjoined
  | @control call _ _ _ hstep =>
      cases worker with
      | control =>
          cases hpc : s.control with
          | ended result => rw [hpc] at hstep; cases call <;> cases hstep
          | _ => simp [State.joined, hpc] at hjoined
      | _ => exact hjoined

theorem Takes.done (h : Takes s a s' evs) {op : Cleanup} : s.Done op → s'.Done op := by
  cases op with
  | store => exact h.frame.active
  | notify | wake => exact id
  | close name => exact h.frame.closed name
  | join worker => exact h.joined worker

theorem cleanupStep_done {ended : Worker → Bool} {op : Cleanup} {pc : MainPc}
    (hended : ended = fun worker => (s.joined worker).isSome) :
    cleanupStep ended s.shared op = some (sh', evs) →
    State.Done { s with shared := sh', main := pc } op := by
  fun_cases cleanupStep ended s.shared op
  all_goals rintro ⟨⟩
  case case1 => rfl
  case case2 | case3 => trivial
  case case5 name _ hcall =>
      show (Shared.queues _ name).queue.closed = true
      rw [call_closed name hcall, decide_eq_true rfl]
      exact Bool.or_true _
  case case6 hjoined =>
      rw [hended] at hjoined
      exact hjoined

theorem mainStep_cleanup {ended : Worker → Bool} {pc : MainPc} {call : MainCall}
    {result : Except IoError Unit} {rest : List Cleanup} :
    mainStep ended sh pc call = some (sh', .cleanup result rest, evs) →
    rest = cleanup ∨ ∃ op, pc = .cleanup result (op :: rest) ∧
      cleanupStep ended sh op = some (sh', evs) := by
  generalize hpc' : MainPc.cleanup result rest = pc'
  fun_cases mainStep ended sh pc call
  all_goals rintro ⟨⟩
  case case1 =>
      split at hpc'
      · cases hpc'
      · exact .inl (MainPc.cleanup.inj hpc').2
  case case4 | case7 => exact .inl (MainPc.cleanup.inj hpc').2
  case case9 =>
      split at hpc'
      · exact .inl (MainPc.cleanup.inj hpc').2
      · cases hpc'
  case case12 op _ hop =>
      obtain ⟨rfl, rfl⟩ := MainPc.cleanup.inj hpc'
      exact .inr ⟨op, rfl, hop⟩
  all_goals cases hpc'

theorem Takes.main_stays (h : Takes s a s' evs) : (∃ call, a = .main call) ∨ s'.main = s.main := by
  cases h with
  | main => exact .inl ⟨_, rfl⟩
  | @panic worker _ hpanic =>
      refine .inr ?_
      revert hpanic
      fun_cases State.panic s worker
      all_goals rintro ⟨⟩
      all_goals rfl
  | interrupt | inside | tunRead | encrypt | udpWrite | decrypt | control => exact .inr rfl

theorem Takes.cleaned (h : Takes s a s' evs) : s.Cleaned → s'.Cleaned := by
  intro hs result rest hpc
  have hdone : ∀ op, s.Done op → s'.Done op := fun _ => h.done
  rcases h.main_stays with ⟨call, rfl⟩ | hmain
  · cases h with
    | main hstep =>
        obtain rfl : _ = MainPc.cleanup result rest := hpc
        rcases mainStep_cleanup hstep with rfl | ⟨op, hbefore, hop⟩
        · exact ⟨[], rfl, fun op hop => absurd hop List.not_mem_nil⟩
        · obtain ⟨before, hcleanup, hall⟩ := hs result (op :: rest) hbefore
          refine ⟨before ++ [op], by rw [← hcleanup, List.append_assoc]; rfl, fun op' hop' => ?_⟩
          rcases List.mem_append.mp hop' with hop' | hop'
          · exact hdone op' (hall op' hop')
          · rw [List.mem_singleton.mp hop']
            exact cleanupStep_done rfl hop
  · obtain ⟨before, hcleanup, hall⟩ := hs result rest (hmain ▸ hpc)
    exact ⟨before, hcleanup, fun op hop => hdone op (hall op hop)⟩

end Cleaning

/-! ## Runs -/

/-- Everything that holds in every state. -/
structure State.Sound (log : List Event) (s : State) : Prop where
  serves : s.shared.running = true → Calm log → s.Serves
  told : s.Told log
  shown : ∀ event ∈ log, ∀ thread error, event.fault = some (thread, error) →
    ∃ error', s.verdict thread = some (.error error')
  meant : ∀ thread error, s.verdict thread = some (.error error) →
    (∃ event ∈ log, event.fault = some (thread, error)) ∨ error = serverStopping
  cleaned : s.Cleaned

section Runs

variable {G : State → Act → Prop} {as : List Act} {log evs : List Event} {s s' : State} {a : Act}

theorem calm_append : Calm (log ++ evs) ↔ Calm log ∧ Calm evs := by
  simp only [Calm, List.forall_mem_append]

theorem Takes.running (h : Takes s a s' evs) :
    s'.shared.running = true → s.shared.running = true := by
  intro hrunning
  rw [← Bool.not_eq_false]
  exact fun hstopped => absurd ((h.frame.running hstopped).symm.trans hrunning) Bool.false_ne_true

theorem Takes.sound (h : Takes s a s' evs) (hs : s.Sound log) : s'.Sound (log ++ evs) := by
  obtain ⟨actor, haccounts, hothers⟩ := h.accounts
  refine ⟨fun hrunning hcalm => ?_, h.told hs.told, ?_, ?_, h.cleaned hs.cleaned⟩
  · obtain ⟨hlog, hevs⟩ := calm_append.mp hcalm
    exact step_serves h (hs.serves (h.running hrunning) hlog) hevs hrunning
  · intro event hevent thread error hfault
    rcases List.mem_append.mp hevent with hevent | hevent
    · have hbefore := hs.shown event hevent thread error hfault
      by_cases hthread : thread = actor
      · subst hthread
        exact haccounts.stays hbefore
      · rw [hothers thread hthread]
        exact hbefore
    · obtain ⟨rfl, hshown⟩ := haccounts.shown event hevent thread error hfault
      exact hshown
  · intro thread error herror
    have hbefore : s.verdict thread = some (.error error) →
        (∃ event ∈ log ++ evs, event.fault = some (thread, error)) ∨ error = serverStopping := by
      intro hverdict
      refine (hs.meant thread error hverdict).imp_left ?_
      rintro ⟨event, hevent, hfault⟩
      exact ⟨event, List.mem_append_left _ hevent, hfault⟩
    by_cases hthread : thread = actor
    · subst hthread
      rcases haccounts.meant error herror with hverdict | ⟨event, hevent, hfault⟩ | hstopping
      · exact hbefore hverdict
      · exact .inl ⟨event, List.mem_append_right _ hevent, hfault⟩
      · exact .inr hstopping
    · exact hbefore (hothers thread hthread ▸ herror)

theorem start_sound : State.start.Sound [] where
  serves _ _ := ⟨⟨rfl, rfl, fun name => by cases name <;> rfl, rfl, rfl⟩,
    trivial, trivial, trivial, trivial, trivial, trivial⟩
  told :=
    { sent := fun _ hmem => absurd hmem List.not_mem_nil
      sending := fun _ hpc => by rcases hpc with hpc | hpc <;> cases hpc
      received := fun _ hmem => absurd hmem List.not_mem_nil }
  shown _ hevent := absurd hevent List.not_mem_nil
  meant thread _ hverdict := by
    rcases thread with _ | ⟨_ | _ | _ | _ | _⟩ <;> cases hverdict
  cleaned _ _ hpc := by cases hpc

theorem run_sound (h : machine.Run G as log s) : s.Sound log :=
  h.invariant (fun log s => s.Sound log) start_sound fun hs _ hstep => (step_takes hstep).sound hs

/-- As long as nobody interrupts the server and nothing fails, both flags are up,
both queues open, and every thread in its loop. -/
theorem keeps_running (h : machine.Run G as log s) (hrunning : s.shared.running = true)
    (hcalm : Calm log) : s.Serves :=
  (run_sound h).serves hrunning hcalm

/-- A datagram comes in and is handled, and the control worker reloads. -/
def servingActs : List Act :=
  [.main .go, .main (.poll .readable),
    .main (.recv (.ok { peer := ⟨AF_INET, 4433, 1, []⟩, peerSize := 16, packet := [22] })),
    .main .go, .control .go, .control .go, .decrypt .go, .decrypt .go, .main .go,
    .control (.passed (.ok ())), .decrypt .go, .decrypt (.readAll false), .decrypt .go,
    .decrypt .go, .control (.decide (.accepted true)), .decrypt .go, .decrypt .go, .decrypt .go,
    .control .go, .control .go, .control .go, .control .go, .decrypt .go,
    .inside .decrypt .progress, .decrypt (.handled (.ok ()))]

def servingSample : State × List Event := machine.outcome (fun _ _ => true) servingActs

theorem keeps_running_sample : servingSample.1.Serves ∧ servingSample.1.shared.reloads = 1 := by
  have hrun : machine.Run Machine.Free servingActs servingSample.2 servingSample.1 :=
    Machine.run_outcome (fun _ _ _ => trivial) (by decide +kernel)
  have hcalm : Calm servingSample.2 := by
    unfold Calm
    decide +kernel
  exact ⟨keeps_running hrun (by decide +kernel) hcalm, by decide +kernel⟩

theorem verdict_of_joined {worker : Worker} {result : Except IoError Unit} :
    s.joined worker = some result → s.verdict (some worker) = some result := by
  intro hjoined
  cases worker with
  | tunRead =>
      cases hpc : s.tunRead <;> simp [State.joined, hpc] at hjoined
      simp [State.verdict, hpc, TunReadPc.verdict, hjoined]
  | encrypt =>
      cases hpc : s.encrypt <;> simp [State.joined, hpc] at hjoined
      simp [State.verdict, hpc, EncryptPc.verdict, hjoined]
  | udpWrite =>
      cases hpc : s.udpWrite <;> simp [State.joined, hpc] at hjoined
      simp [State.verdict, hpc, UdpWritePc.verdict, hjoined]
  | decrypt =>
      cases hpc : s.decrypt <;> simp [State.joined, hpc] at hjoined
      simp [State.verdict, hpc, DecryptPc.verdict, hjoined]
  | control =>
      cases hpc : s.control <;> simp [State.joined, hpc] at hjoined
      simp [State.verdict, hpc, ControlPc.verdict, hjoined]

/-- The result is an error of one of the threads, or nobody has one. -/
theorem result_cases {read : Except IoError Unit} (hread : s.verdict none = some read)
    (hjoined : ∀ worker, (s.joined worker).isSome = true) :
    ∃ result, s.result read = some result ∧
      (result = .ok () → ∀ thread, s.verdict thread = some (.ok ())) ∧
      ∀ error, result = .error error → ∃ thread, s.verdict thread = some (.error error) := by
  obtain ⟨decrypt, hdecrypt⟩ := Option.isSome_iff_exists.mp (hjoined .decrypt)
  obtain ⟨control, hcontrol⟩ := Option.isSome_iff_exists.mp (hjoined .control)
  obtain ⟨encrypt, hencrypt⟩ := Option.isSome_iff_exists.mp (hjoined .encrypt)
  obtain ⟨udpWrite, hudpWrite⟩ := Option.isSome_iff_exists.mp (hjoined .udpWrite)
  obtain ⟨tunRead, htunRead⟩ := Option.isSome_iff_exists.mp (hjoined .tunRead)
  have herror : ∀ {thread : Option Worker} {error error' : IoError},
      s.verdict thread = some (.error error) → Except.error (α := Unit) error = .error error' →
      ∃ thread, s.verdict thread = some (.error error') := by
    intro thread error error' hverdict heq
    exact ⟨thread, Except.error.inj heq ▸ hverdict⟩
  simp only [State.result, hdecrypt, hcontrol, hencrypt, hudpWrite, htunRead]
  refine ⟨_, rfl, ?_⟩
  cases read with
  | error error => exact ⟨fun hok => (by cases hok), fun _ => herror hread⟩
  | ok _ =>
    cases decrypt with
    | error error =>
        exact ⟨fun hok => (by cases hok), fun _ => herror (verdict_of_joined hdecrypt)⟩
    | ok _ =>
      cases control with
      | error error =>
          exact ⟨fun hok => (by cases hok), fun _ => herror (verdict_of_joined hcontrol)⟩
      | ok _ =>
        cases encrypt with
        | error error =>
            exact ⟨fun hok => (by cases hok), fun _ => herror (verdict_of_joined hencrypt)⟩
        | ok _ =>
          cases udpWrite with
          | error error =>
              exact ⟨fun hok => (by cases hok), fun _ => herror (verdict_of_joined hudpWrite)⟩
          | ok _ =>
            cases tunRead with
            | error error =>
                exact ⟨fun hok => (by cases hok), fun _ => herror (verdict_of_joined htunRead)⟩
            | ok _ =>
                refine ⟨fun _ thread => ?_, fun _ heq => (by cases heq)⟩
                rcases thread with _ | worker
                · exact hread
                · cases worker with
                  | tunRead => exact verdict_of_joined htunRead
                  | encrypt => exact verdict_of_joined hencrypt
                  | udpWrite => exact verdict_of_joined hudpWrite
                  | decrypt => exact verdict_of_joined hdecrypt
                  | control => exact verdict_of_joined hcontrol

/-- When `run` returns, the flag is down and both queues are closed; the server was
interrupted, or something has failed.  It returns `Ok(())` only if nothing has
failed but the TUN reader, whose error nobody has received.  An error it returns
is one that a thread has met, or that of a packet for the TUN device which was
given up because the server was stopping. -/
theorem server_returns (h : machine.Run G as log s) (read : Except IoError Unit)
    (hpc : s.main = .cleanup read []) :
    ∃ result, s.result read = some result ∧ s.shared.active = false ∧
      (∀ name, (s.shared.queues name).queue.closed = true) ∧
      (s.shared.running = false ∨ ¬ Calm log) ∧
      (result = .ok () → (∀ error, .received error ∉ log) ∧
        ∀ event ∈ log, ∀ error, event.failure = some error → event = .tunFailed error) ∧
      ∀ error, result = .error error →
        (∃ event ∈ log, event.failure = some error) ∨ error = serverStopping := by
  have hs := run_sound h
  obtain ⟨before, hbefore, hdone⟩ := hs.cleaned read [] hpc
  rw [List.append_nil] at hbefore
  have hall : ∀ op, s.Done op := fun op => hdone op (hbefore ▸ mem_cleanup op)
  have hread : s.verdict none = some read := by rw [State.verdict, hpc]; rfl
  obtain ⟨result, hresult, hok, herror⟩ := result_cases hread fun worker => hall (.join worker)
  refine ⟨result, hresult, hall .store, fun name => hall (.close name), ?_, fun hfine => ?_, ?_⟩
  · by_contra hneither
    obtain ⟨hrunning, hcalm⟩ := not_or.mp hneither
    have hserves := hs.serves (Bool.eq_true_of_not_eq_false hrunning) (not_not.mp hcalm)
    exact absurd hserves.main (by rw [hpc]; exact id)
  · have hnone : ∀ event ∈ log, event.fault = none := by
      intro event hevent
      cases hfault : event.fault with
      | none => rfl
      | some fault =>
          obtain ⟨error', herror'⟩ := hs.shown event hevent fault.1 fault.2 hfault
          rw [hok hfine fault.1] at herror'
          cases herror'
    refine ⟨fun error hmem => absurd (hnone _ hmem) (by simp [Event.fault]), ?_⟩
    intro event hevent error hfailure
    have hnot := hnone event hevent
    cases event with
    | tunFailed => exact congrArg Event.tunFailed (Option.some.inj hfailure)
    | udpFailed | failed | panicked => cases hnot
    | queue | arrived | captured | received => cases hfailure
  · intro error heq
    obtain ⟨thread, hverdict⟩ := herror error heq
    refine (hs.meant thread error hverdict).imp_left ?_
    rintro ⟨event, hevent, hfault⟩
    cases event with
    | udpFailed error' | failed worker error' =>
        exact ⟨_, hevent, congrArg (Option.map Prod.snd) hfault⟩
    | panicked worker => exact ⟨_, hevent, congrArg (Option.map Prod.snd) hfault⟩
    | received error' =>
        obtain rfl : error' = error := (Prod.mk.inj (Option.some.inj hfault)).2
        exact ⟨_, hs.told.received _ hevent, rfl⟩
    | queue | arrived | captured | tunFailed => cases hfault

/-- The TUN reader clears the flag; the decrypt worker has ended before the error
is sent. -/
def racedActs : List Act :=
  [.tunRead .go, .tunRead (.poll .broken), .tunRead .go, .decrypt .go, .decrypt .go,
    .decrypt .go, .decrypt .go, .main .go, .tunRead .go, .tunRead .go, .tunRead .go,
    .encrypt .go, .encrypt .go, .udpWrite .go, .udpWrite .go, .control .go, .control .go,
    .main .go, .main .go, .main .go, .main .go, .main .go, .main .go, .main .go, .main .go,
    .main .go, .main .go]

def raced : State × List Event := machine.outcome (fun _ _ => true) racedActs

theorem server_returns_raced :
    raced.1.result (.ok ()) = some (.ok ()) ∧ raced.1.shared.running = true ∧ ¬ Calm raced.2 := by
  have hrun : machine.Run Machine.Free racedActs raced.2 raced.1 :=
    Machine.run_outcome (fun _ _ _ => trivial) (by decide +kernel)
  obtain ⟨_, hresult, -, -, hreason, -⟩ := server_returns hrun (.ok ()) rfl
  have hrunning : raced.1.shared.running = true := by decide +kernel
  refine ⟨rfl, hrunning, hreason.resolve_left ?_⟩
  rw [hrunning]
  exact Bool.noConfusion

end Runs

end ServerThreads

end AutobricksVpn
