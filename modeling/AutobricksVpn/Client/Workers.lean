/-
# `AutobricksVpn.Client.Workers` — what a worker of the client can do

Seen from the other threads the six workers are alike.  A worker works on; or it
meets an error, and then clears `active`, sends the error and winds up; or it
finds that it is to stop, and ends (`Effect`, `Phase`).  What it logs is its own
business (`Event.By`): a queue has one consumer, and the events beside those of
the queues belong to one thread each.  To the queues a step is at most one call
(`QueueStep`), so a run of the connection is a run of each of its queues
(`run_queue`).
-/
import AutobricksVpn.Client.Tunnel

namespace AutobricksVpn

namespace ClientTunnel

/-! ## The log -/

def Event.onQueue (name : QueueName) : Event → Option (QueueRun.Event name.Item)
  | .queue name' event => if h : name' = name then some (h ▸ event) else none
  | _ => none

/-- What happened to a queue. -/
def queueLog (name : QueueName) (log : List Event) : List (QueueRun.Event name.Item) :=
  log.filterMap (Event.onQueue name)

def Event.failure : Event → Option IoError
  | .failed error => some error
  | _ => none

/-- The errors sent. -/
def failures (log : List Event) : List IoError := log.filterMap Event.failure

section Logs

variable {name name' : QueueName}

@[simp] theorem queueLog_nil : queueLog name [] = [] := rfl

theorem queueLog_append (log log' : List Event) :
    queueLog name (log ++ log') = queueLog name log ++ queueLog name log' :=
  List.filterMap_append

theorem failures_append (log log' : List Event) :
    failures (log ++ log') = failures log ++ failures log' :=
  List.filterMap_append

@[simp] theorem queueLog_map (evs : List (QueueRun.Event name.Item)) :
    queueLog name (evs.map (.queue name)) = evs := by
  have hself : Event.onQueue name ∘ Event.queue name = some := by
    funext event
    simp [Event.onQueue]
  rw [queueLog, List.filterMap_map, hself, List.filterMap_some]

theorem queueLog_map_of_ne (h : name' ≠ name) (evs : List (QueueRun.Event name'.Item)) :
    queueLog name (evs.map (.queue name')) = [] := by
  rw [queueLog, List.filterMap_map, List.filterMap_eq_nil_iff]
  intro event _
  simp [Event.onQueue, h]

@[simp] theorem failures_map (evs : List (QueueRun.Event name.Item)) :
    failures (evs.map (.queue name)) = [] := by
  rw [failures, List.filterMap_map, List.filterMap_eq_nil_iff]
  intro event _
  rfl

/-- An event that is no call on a queue. -/
theorem queueLog_cons {event : Event} (h : ∀ name, event.onQueue name = none) (log : List Event) :
    queueLog name (event :: log) = queueLog name log :=
  List.filterMap_cons_none (h name)

theorem failures_cons {event : Event} (h : event.failure = none) (log : List Event) :
    failures (event :: log) = failures log :=
  List.filterMap_cons_none h

end Logs

/-! ## Who does what -/

/-- Who takes an action: a worker, the main thread, wolfSSL inside a call, or
nobody in particular. -/
inductive Role where
  | worker (thread : Thread)
  | main
  | wolfSsl
  | outside
  deriving DecidableEq

def QueueName.consumer : QueueName → Role
  | .encryptedRx => .worker .decrypt
  | .rawTx => .worker .encrypt
  | .tunWrite => .worker .tunWrite
  | .encTx => .worker .udpWrite

def QueueName.FedBy (role : Role) : QueueName → Prop
  | .encryptedRx => role = .worker .udpRead
  | .rawTx => role = .worker .tunRead ∨ role = .main
  | .tunWrite => role = .worker .decrypt
  | .encTx => role = .wolfSsl

/-- Whether the role makes such a call.  Anybody may close a queue; the decrypt
worker pops, the other consumers reserve. -/
def QueueName.Allows (name : QueueName) (role : Role) : QueueRun.Act name.Item → Prop
  | .push _ => name.FedBy role
  | .close => True
  | .tryPop => name = .encryptedRx ∧ role = name.consumer
  | .peek | .commit | .restore => name ≠ .encryptedRx ∧ role = name.consumer
  | .notifyChange | .pop | .popTimeout | .tryPeek => False

/-- One call of the role's on the queue, or none. -/
def QueueStep (role : Role) (name : QueueName) (q q' : QueueRun.Shared name.Item)
    (evs : List (QueueRun.Event name.Item)) : Prop :=
  (q' = q ∧ evs = []) ∨ ∃ a, name.Allows role a ∧ QueueRun.step q a = some (q', evs)

/-- Whether the event can be of this role's making. -/
def Event.By (role : Role) : Event → Prop
  | .queue name (.accepted _) => name.FedBy role
  | .queue name (.refused _) => name.FedBy role
  | .queue name (.returned _) => name.FedBy role
  | .queue name (.delivered _) => role = name.consumer
  | .queue _ (.discarded _) => True
  | .arrived _ => role = .worker .udpRead
  | .injected _ => role = .worker .decrypt
  | .plaintext _ => role = .worker .decrypt
  | .wroteTun _ => role = .worker .tunWrite
  | .offered _ => role = .worker .tunRead ∨ role = .main
  | .wroteDtls _ => role = .worker .encrypt
  | .sent _ _ => role = .worker .udpWrite
  | .keepalive _ => role = .main
  | .failed _ => ∃ thread, role = .worker thread

section Roles

variable {name : QueueName} {role : Role} {q q' : QueueRun.Shared name.Item}
  {a : QueueRun.Act name.Item} {evs : List (QueueRun.Event name.Item)}

theorem discarded_by (l : List (Nat × name.Item)) :
    ∀ event ∈ (l.map QueueRun.Event.discarded).map (Event.queue name), event.By role := by
  intro event hevent
  obtain ⟨_, ⟨item, -, rfl⟩, rfl⟩ := by simpa only [List.mem_map] using hevent
  exact trivial

theorem queueStep_by (hallowed : name.Allows role a) :
    QueueRun.step q a = some (q', evs) → ∀ event ∈ evs.map (Event.queue name), event.By role := by
  intro h
  cases a with
  | push x =>
      have hfed : name.FedBy role := hallowed
      rcases Queue.push_cases q.queue (q.pushes, x) with
        ⟨-, hp⟩ | ⟨old, rest, queue, -, -, -, hp, -⟩ | ⟨queue, -, -, hp, -⟩ <;>
        simp only [QueueRun.step, hp, Option.some.injEq, Prod.mk.injEq] at h <;>
        obtain ⟨-, rfl⟩ := h <;> simpa [Event.By] using hfed
  | close =>
      obtain ⟨-, rfl⟩ := Prod.mk.inj (Option.some.inj h)
      exact discarded_by _
  | tryPop =>
      have hconsumer : role = name.consumer := hallowed.2
      obtain ⟨-, ⟨-, rfl⟩ | ⟨x, rest, -, -, rfl⟩⟩ := QueueRun.step_take (.inl rfl) h
      · exact fun _ hevent => absurd hevent List.not_mem_nil
      · simpa [Event.By] using hconsumer
  | peek =>
      obtain ⟨-, rfl, -⟩ := QueueRun.step_reserve (.inl rfl) h
      exact fun _ hevent => absurd hevent List.not_mem_nil
  | commit =>
      have hconsumer : role = name.consumer := hallowed.2
      simp only [QueueRun.step] at h
      split at h
      · obtain ⟨-, rfl⟩ := Prod.mk.inj (Option.some.inj h)
        simpa [Event.By] using hconsumer
      · cases h
  | restore =>
      simp only [QueueRun.step] at h
      split at h
      · obtain ⟨-, rfl⟩ := Prod.mk.inj (Option.some.inj h)
        exact discarded_by _
      · cases h
  | notifyChange | pop | popTimeout | tryPeek => exact hallowed.elim

end Roles

/-! ## Steps that leave the flags and the errors alone -/

/-- What every step does to the queues and the log, to the counters of the
producers, the last activity and the signal. -/
structure Carries (role : Role) (sh sh' : Shared) (evs : List Event) : Prop where
  queue : ∀ name, QueueStep role name (sh.queues name) (sh'.queues name) (queueLog name evs)
  by_role : ∀ event ∈ evs, event.By role
  encryptedDrops : ¬ QueueName.encryptedRx.FedBy role → sh'.encryptedDrops = sh.encryptedDrops
  plainDrops : ¬ QueueName.rawTx.FedBy role → sh'.plainDrops = sh.plainDrops
  activity : role ≠ .worker .decrypt → sh'.activity = sh.activity
  progress : sh'.progress = sh.progress ∨ sh'.progress = sh.progress.notify

/-- What every step of a worker does to what the threads share. -/
structure Frame (role : Role) (sh sh' : Shared) (evs : List Event) : Prop
    extends Carries role sh sh' evs where
  running : sh'.running = sh.running
  encryptStop : sh'.encryptStop = sh.encryptStop
  now : sh'.now = sh.now

/-- Nothing is closed, cleared or sent. -/
structure Quiet (role : Role) (sh sh' : Shared) (evs : List Event) : Prop
    extends Frame role sh sh' evs where
  active : sh'.active = sh.active
  errors : sh'.errors = sh.errors
  failures : failures evs = []
  closed : ∀ name, (sh'.queues name).queue.closed = (sh.queues name).queue.closed

section Calls

variable {role : Role} {sh sh' : Shared} {name : QueueName} {a : QueueRun.Act name.Item}
  {evs : List (QueueRun.Event name.Item)} {events : List Event}

theorem call_some :
    sh.call name a = some (sh', evs) →
    ∃ queue, QueueRun.step (sh.queues name) a = some (queue, evs) ∧
      sh' = { sh with queues := Function.update sh.queues name queue } := by
  intro h
  unfold Shared.call at h
  split at h
  · rename_i queue evs' hstep
    obtain ⟨rfl, rfl⟩ := Prod.mk.inj (Option.some.inj h)
    exact ⟨queue, hstep, rfl⟩
  · cases h

theorem call_self :
    sh.call name a = some (sh', evs) →
    QueueRun.step (sh.queues name) a = some (sh'.queues name, evs) := by
  intro h
  obtain ⟨queue, hstep, rfl⟩ := call_some h
  rw [hstep]
  simp only [Function.update_self]

theorem call_of_ne {name' : QueueName} (hne : name' ≠ name) :
    sh.call name a = some (sh', evs) → sh'.queues name' = sh.queues name' := by
  intro h
  obtain ⟨queue, -, rfl⟩ := call_some h
  exact Function.update_of_ne hne _ _

theorem call_frame (h : sh.call name a = some (sh', evs)) (hallowed : name.Allows role a) :
    Frame role sh sh' (evs.map (.queue name)) := by
  have hqueue : ∀ name', QueueStep role name' (sh.queues name') (sh'.queues name')
      (queueLog name' (evs.map (.queue name))) := by
    intro name'
    by_cases hname : name = name'
    · subst hname
      rw [queueLog_map]
      exact .inr ⟨a, hallowed, call_self h⟩
    · exact .inl ⟨call_of_ne (Ne.symm hname) h, queueLog_map_of_ne hname evs⟩
  have hby := queueStep_by hallowed (call_self h)
  obtain ⟨queue, -, rfl⟩ := call_some h
  exact ⟨⟨hqueue, hby, fun _ => rfl, fun _ => rfl, fun _ => rfl, .inl rfl⟩, rfl, rfl, rfl⟩

theorem call_quiet (h : sh.call name a = some (sh', evs)) (hallowed : name.Allows role a)
    (ha : a.closes = false) : Quiet role sh sh' (evs.map (.queue name)) := by
  have hclosed : ∀ name', (sh'.queues name').queue.closed = (sh.queues name').queue.closed := by
    intro name'
    by_cases hname : name' = name
    · subst hname
      rw [(QueueRun.step_frame (call_self h)).2.2, ha, Bool.or_false]
    · rw [call_of_ne hname h]
  have hframe := call_frame h hallowed
  obtain ⟨queue, -, rfl⟩ := call_some h
  exact
    { toFrame := hframe, active := rfl, errors := rfl, failures := failures_map _
      closed := hclosed }

theorem not_mem_by : ∀ event ∈ ([] : List Event), event.By role :=
  fun _ hevent => absurd hevent List.not_mem_nil

/-- A step that leaves the queues, the counters and the clocks alone. -/
theorem Carries.quiet (hqueues : sh'.queues = sh.queues)
    (hencrypted : sh'.encryptedDrops = sh.encryptedDrops)
    (hplain : sh'.plainDrops = sh.plainDrops)
    (hactivity : role ≠ .worker .decrypt → sh'.activity = sh.activity)
    (hprogress : sh'.progress = sh.progress ∨ sh'.progress = sh.progress.notify) :
    Carries role sh sh' [] where
  queue name := .inl ⟨congrFun hqueues name, rfl⟩
  by_role := not_mem_by
  encryptedDrops _ := hencrypted
  plainDrops _ := hplain
  activity := hactivity
  progress := hprogress

theorem Carries.refl (role : Role) (sh : Shared) : Carries role sh sh [] :=
  .quiet rfl rfl rfl (fun _ => rfl) (.inl rfl)

theorem Frame.refl (role : Role) (sh : Shared) : Frame role sh sh [] :=
  ⟨.refl role sh, rfl, rfl, rfl⟩

theorem Quiet.refl (role : Role) (sh : Shared) : Quiet role sh sh [] :=
  { toFrame := Frame.refl role sh, active := rfl, errors := rfl, failures := rfl
    closed := fun _ => rfl }

/-- An event about no queue and no error. -/
theorem Quiet.cons {event : Event} (h : Quiet role sh sh' events) (hby : event.By role) :
    (∀ name, event.onQueue name = none) → event.failure = none →
    Quiet role sh sh' (event :: events) := by
  intro hqueue hfailure
  exact
    { h with
      queue := fun name => by rw [queueLog_cons hqueue]; exact h.queue name
      by_role := List.forall_mem_cons.mpr ⟨hby, h.by_role⟩
      failures := by rw [failures_cons hfailure]; exact h.failures }

theorem Quiet.count_encrypted (h : Quiet role sh sh' events)
    (hfed : QueueName.encryptedRx.FedBy role) (n : Nat) :
    Quiet role sh { sh' with encryptedDrops := n } events :=
  { h with encryptedDrops := fun hnot => absurd hfed hnot }

theorem Quiet.count_plain (h : Quiet role sh sh' events) (hfed : QueueName.rawTx.FedBy role)
    (n : Nat) : Quiet role sh { sh' with plainDrops := n } events :=
  { h with plainDrops := fun hnot => absurd hfed hnot }

theorem Quiet.touch (sh : Shared) :
    Quiet (.worker .decrypt) sh { sh with activity := sh.now } [] :=
  { toCarries := .quiet rfl rfl rfl (fun hne => absurd rfl hne) (.inl rfl)
    running := rfl, encryptStop := rfl, now := rfl
    active := rfl, errors := rfl, failures := rfl, closed := fun _ => rfl }

theorem Quiet.notify (role : Role) (sh : Shared) :
    Quiet role sh { sh with progress := sh.progress.notify } [] :=
  { toCarries := .quiet rfl rfl rfl (fun _ => rfl) (.inr rfl)
    running := rfl, encryptStop := rfl, now := rfl
    active := rfl, errors := rfl, failures := rfl, closed := fun _ => rfl }

end Calls

/-! ## Queues that are closed -/

section Answers

variable {α : Type} {q q' : QueueRun.Shared α} {evs : List (QueueRun.Event α)}

theorem pushAnswer_refused {x : α} :
    QueueRun.step q (.push x) = some (q', evs) → pushAnswer evs = .refused →
    q.queue.closed = true := by
  intro h hanswer
  rcases Queue.push_cases q.queue (q.pushes, x) with
    ⟨hc, -⟩ | ⟨old, rest, queue, -, -, -, hp, -⟩ | ⟨queue, -, -, hp, -⟩
  · exact hc
  · simp only [QueueRun.step, hp, Option.some.injEq, Prod.mk.injEq] at h
    obtain ⟨-, rfl⟩ := h
    cases hanswer
  · simp only [QueueRun.step, hp, Option.some.injEq, Prod.mk.injEq] at h
    obtain ⟨-, rfl⟩ := h
    cases hanswer

/-- `peek` comes back without an item from a closed queue only. -/
theorem peek_none :
    QueueRun.step q .peek = some (q', evs) → q'.front = none → q.queue.closed = true := by
  intro h hfront
  cases hf : q.front with
  | some f => simp [QueueRun.step, hf] at h
  | none =>
      rcases Queue.pop_cases q.queue with ⟨-, -, hp⟩ | ⟨hc, -⟩ | ⟨x, rest, -, -, hp⟩
      · simp [QueueRun.step, hf, Queue.peek, hp] at h
      · exact hc
      · simp only [QueueRun.step, hf, Queue.peek, hp, Option.map_some, Option.some.injEq,
          Prod.mk.injEq] at h
        obtain ⟨rfl, -⟩ := h
        cases hfront

end Answers

/-! ## What a worker can do -/

/-- Where a worker is, as far as it matters to the others. -/
inductive Phase where
  | working
  /-- It has met an error. -/
  | storing (error : IoError)
  /-- It has cleared `active`. -/
  | sending (error : IoError)
  /-- It has sent the error, and is to close a queue. -/
  | closing
  /-- It is about to end. -/
  | leaving
  | ended

def UdpReadPc.phase : UdpReadPc → Phase
  | .top | .poll | .recv | .push _ | .notify => .working
  | .store error => .storing error
  | .send error => .sending error
  | .close => .closing
  | .ended => .ended

def TunReadPc.phase : TunReadPc → Phase
  | .top | .poll | .read | .push _ => .working
  | .store error => .storing error
  | .send error => .sending error
  | .close => .closing
  | .ended => .ended

def DecryptPc.phase : DecryptPc → Phase
  | .top | .observe | .read _ | .received _ | .push _ | .notify _ | .next _ | .inject _ | .wait _
  | .waitWrite _ => .working
  | .store error => .storing error
  | .send error => .sending error
  | .ended => .ended

def TunWritePc.phase : TunWritePc → Phase
  | .top | .peek | .peeked | .write | .restore => .working
  | .store error => .storing error
  | .send error => .sending error
  | .leave => .leaving
  | .ended => .ended

def EncryptPc.phase : EncryptPc → Phase
  | .top | .peek | .peeked | .process | .write | .restore | .commit => .working
  | .store error => .storing error
  | .send error => .sending error
  | .close => .closing
  | .leave => .leaving
  | .ended => .ended

def UdpWritePc.phase : UdpWritePc → Phase
  | .top | .peek | .peeked | .check | .send _ | .notify | .restore => .working
  | .store error => .storing error
  | .report error => .sending error
  | .leave => .leaving
  | .ended => .ended

def State.phase (s : State) : Thread → Phase
  | .udpRead => s.udpRead.phase
  | .tunRead => s.tunRead.phase
  | .decrypt => s.decrypt.pc.phase
  | .tunWrite => s.tunWrite.phase
  | .encrypt => s.encrypt.phase
  | .udpWrite => s.udpWrite.phase

/-- There is a reason to end. -/
def Shared.Stops (sh : Shared) : Prop :=
  sh.continues = false ∨ sh.encryptStop = true ∨ ∃ name, (sh.queues name).queue.closed = true

/-- A step of the worker. -/
inductive Effect (thread : Thread) (sh : Shared) : Phase → Shared → Phase → List Event → Prop
  | work {sh' : Shared} {evs : List Event} :
      Quiet (.worker thread) sh sh' evs → Effect thread sh .working sh' .working evs
  | fail {error : IoError} : Effect thread sh .working sh (.storing error) []
  | quit {sh' : Shared} {phase : Phase} {evs : List Event} :
      Quiet (.worker thread) sh sh' evs → sh.Stops → phase = .leaving ∨ phase = .ended →
      Effect thread sh .working sh' phase evs
  | store {error : IoError} :
      Effect thread sh (.storing error) { sh with active := false } (.sending error) []
  | send {error : IoError} {phase : Phase} :
      phase = .closing ∨ phase = .leaving ∨ phase = .ended →
      Effect thread sh (.sending error) { sh with errors := sh.errors ++ [error] } phase
        [.failed error]
  | close {sh' : Shared} {name : QueueName} {evs : List (QueueRun.Event name.Item)}
      {phase : Phase} :
      sh.call name .close = some (sh', evs) → phase = .working ∨ phase = .ended →
      Effect thread sh .closing sh' phase (evs.map (.queue name))
  | leave {sh' : Shared} {evs : List Event} :
      Quiet (.worker thread) sh sh' evs → Effect thread sh .leaving sh' .ended evs

section Steps

variable {thread : Thread} {sh sh' : Shared} {evs : List Event}

theorem stops_of_continues : sh.continues ≠ true → sh.Stops :=
  fun h => .inl (Bool.eq_false_iff.mpr h)

theorem stops_of_closed {name : QueueName} : (sh.queues name).queue.closed = true → sh.Stops :=
  fun h => .inr (.inr ⟨name, h⟩)

/-- The worker works on if `p` holds, and has a reason to end if not. -/
theorem Effect.guard {β : Type} (f : β → Phase) {p : Prop} [Decidable p] {go quit : β}
    (hquiet : Quiet (.worker thread) sh sh' evs) (hstops : ¬ p → sh.Stops)
    (hgo : f go = .working) (hquit : f quit = .leaving ∨ f quit = .ended) :
    Effect thread sh .working sh' (f (if p then go else quit)) evs := by
  by_cases hp : p
  · rw [if_pos hp, hgo]
    exact .work hquiet
  · rw [if_neg hp]
    exact .quit hquiet (hstops hp) hquit

/-- The other way around. -/
theorem Effect.unless {β : Type} (f : β → Phase) {p : Prop} [Decidable p] {go quit : β}
    (hquiet : Quiet (.worker thread) sh sh' evs) (hstops : p → sh.Stops)
    (hgo : f go = .working) (hquit : f quit = .leaving ∨ f quit = .ended) :
    Effect thread sh .working sh' (f (if p then quit else go)) evs := by
  by_cases hp : p
  · rw [if_pos hp]
    exact .quit hquiet (hstops hp) hquit
  · rw [if_neg hp, hgo]
    exact .work hquiet

theorem stops_of_refused {name : QueueName} {x : name.Item}
    {evs : List (QueueRun.Event name.Item)} :
    sh.call name (.push x) = some (sh', evs) → pushAnswer evs = .refused → sh.Stops :=
  fun hcall hanswer => stops_of_closed (pushAnswer_refused (call_self hcall) hanswer)

theorem stops_of_peek {name : QueueName} {evs : List (QueueRun.Event name.Item)} :
    sh.call name .peek = some (sh', evs) → ¬ (sh'.front name).isSome = true → sh.Stops := by
  intro hcall hfront
  refine stops_of_closed (peek_none (call_self hcall) ?_)
  simpa [Shared.front] using hfront

theorem udpReadStep_effect {pc pc' : UdpReadPc} {call : UdpReadCall} :
    udpReadStep sh pc call = some (sh', pc', evs) →
    Effect .udpRead sh pc.phase sh' pc'.phase evs := by
  fun_cases udpReadStep sh pc call
  all_goals rintro ⟨⟩
  case case1 => exact .guard UdpReadPc.phase (.refl _ sh) stops_of_continues rfl (.inr rfl)
  case case2 ready _ => cases ready <;> exact .work (.refl _ sh)
  case case3 | case7 => exact .fail
  case case4 | case5 | case6 => exact .work (.refl _ sh)
  case case9 hcall =>
      exact .unless UdpReadPc.phase
        (((call_quiet hcall rfl rfl).count_encrypted rfl _).cons rfl (fun _ => rfl) rfl)
        (stops_of_refused hcall) rfl (.inr rfl)
  case case10 => exact .work (.notify _ sh)
  case case11 => exact .store
  case case12 => exact .send (.inl rfl)
  case case14 hcall => exact .close hcall (.inr rfl)

theorem tunReadStep_effect {pc pc' : TunReadPc} {call : TunReadCall} :
    tunReadStep sh pc call = some (sh', pc', evs) →
    Effect .tunRead sh pc.phase sh' pc'.phase evs := by
  fun_cases tunReadStep sh pc call
  all_goals rintro ⟨⟩
  case case1 => exact .guard TunReadPc.phase (.refl _ sh) stops_of_continues rfl (.inr rfl)
  case case2 | case3 | case4 | case7 | case8 => exact .work (.refl _ sh)
  case case5 | case9 => exact .fail
  case case6 packet => cases packet <;> exact .work (.refl _ sh)
  case case11 hcall =>
      exact .unless TunReadPc.phase
        (((call_quiet hcall (.inl rfl) rfl).count_plain (.inl rfl) _).cons (.inl rfl) (fun _ => rfl) rfl)
        (stops_of_refused hcall) rfl (.inr rfl)
  case case12 => exact .store
  case case13 => exact .send (.inl rfl)
  case case15 hcall => exact .close hcall (.inr rfl)

/-- The worker ends on a closed queue only. -/
theorem popped_effect {sh'' : Shared} {d : Decrypt} {observed : SendPath.Reading}
    {evs : List (QueueRun.Event Packet)} (hcall : sh.call .encryptedRx .tryPop = some (sh'', evs)) :
    Effect .decrypt sh .working sh''
      (d.popped observed (sh''.queues .encryptedRx).queue.isClosed evs).pc.phase
      (evs.map (.queue .encryptedRx)) := by
  have hquiet : Quiet (.worker .decrypt) sh sh'' _ := call_quiet hcall ⟨rfl, rfl⟩ rfl
  obtain ⟨-, ⟨-, rfl⟩ | ⟨datagram, -, -, -, rfl⟩⟩ := QueueRun.step_take (.inl rfl) (call_self hcall)
  · refine .unless DecryptPc.phase hquiet (fun hclosed => ?_) rfl (.inr rfl)
    exact stops_of_closed ((hquiet.closed .encryptedRx).symm.trans hclosed)
  · exact .work hquiet

theorem decryptStep_effect {d d' : Decrypt} {call : DecryptCall} :
    decryptStep sh d call = some (sh', d', evs) →
    Effect .decrypt sh d.pc.phase sh' d'.pc.phase evs := by
  fun_cases decryptStep sh d call
  all_goals rintro ⟨⟩
  case case1 hpc =>
      rw [hpc]
      exact .guard DecryptPc.phase (.refl _ sh) stops_of_continues rfl (.inr rfl)
  case case2 hpc =>
      rw [hpc]
      cases d.drain <;> exact .work (.refl _ sh)
  case case3 message hpc =>
      rw [hpc]
      cases hmessage : isTunnelPacket message <;> exact .work (.touch sh)
  case case5 hpc _ hcall =>
      rw [hpc]
      exact .unless DecryptPc.phase (call_quiet hcall rfl rfl) (stops_of_refused hcall) rfl (.inr rfl)
  case case6 hpc =>
      rw [hpc]
      exact .work (.notify _ sh)
  case case7 hpc _ _ | case10 hpc _ _ | case12 hpc _ _ =>
      rw [hpc]
      exact .work (.refl _ sh)
  case case9 hpc _ _ hcall =>
      rw [hpc]
      exact popped_effect hcall
  case case14 hpc =>
      rw [hpc]
      exact .store
  case case15 hpc =>
      rw [hpc]
      exact .send (.inr (.inr rfl))
  case case19 hpc | case21 hpc | case22 hpc | case26 hpc =>
      rw [hpc]
      exact .work (.refl _ sh)
  case case20 hpc _ _ | case25 hpc =>
      rw [hpc]
      exact .work ((Quiet.refl _ sh).cons rfl (fun _ => rfl) rfl)
  case case23 hpc _ | case27 hpc _ =>
      rw [hpc]
      exact .fail

theorem tunWriteStep_effect {pc pc' : TunWritePc} {call : TunWriteCall} :
    tunWriteStep sh pc call = some (sh', pc', evs) →
    Effect .tunWrite sh pc.phase sh' pc'.phase evs := by
  fun_cases tunWriteStep sh pc call
  all_goals rintro ⟨⟩
  case case1 => exact .guard TunWritePc.phase (.refl _ sh) stops_of_continues rfl (.inr rfl)
  case case3 hcall =>
      exact .guard TunWritePc.phase (call_quiet hcall ⟨by simp, rfl⟩ rfl) (stops_of_peek hcall) rfl (.inr rfl)
  case case4 => exact .guard TunWritePc.phase (.refl _ sh) stops_of_continues rfl (.inl rfl)
  case case7 hcall => exact .work ((call_quiet hcall ⟨by simp, rfl⟩ rfl).cons rfl (fun _ => rfl) rfl)
  case case8 | case10 => exact .fail
  case case9 => exact .work (.refl _ sh)
  case case12 hcall => exact .work (call_quiet hcall ⟨by simp, rfl⟩ rfl)
  case case13 => exact .store
  case case14 => exact .send (.inr (.inl rfl))
  case case16 hcall => exact .leave (call_quiet hcall ⟨by simp, rfl⟩ rfl)

theorem encryptStep_effect {pc pc' : EncryptPc} {call : EncryptCall} :
    encryptStep sh pc call = some (sh', pc', evs) →
    Effect .encrypt sh pc.phase sh' pc'.phase evs := by
  fun_cases encryptStep sh pc call
  all_goals rintro ⟨⟩
  case case1 => exact .unless EncryptPc.phase (.refl _ sh) (fun h => .inr (.inl h)) rfl (.inr rfl)
  case case3 hcall =>
      exact .guard EncryptPc.phase (call_quiet hcall ⟨by simp, rfl⟩ rfl) (stops_of_peek hcall) rfl (.inr rfl)
  case case4 => exact .unless EncryptPc.phase (.refl _ sh) (fun h => .inr (.inl h)) rfl (.inl rfl)
  case case5 => cases sh.active <;> exact .work (.refl _ sh)
  case case7 => exact .work ((Quiet.refl _ sh).cons rfl (fun _ => rfl) rfl)
  case case8 | case9 | case10 => exact .work (.refl _ sh)
  case case11 => exact .fail
  case case13 hcall | case19 hcall => exact .work (call_quiet hcall ⟨by simp, rfl⟩ rfl)
  case case14 => exact .store
  case case15 => exact .send (.inl rfl)
  case case17 hcall => exact .close hcall (.inl rfl)
  case case21 hcall => exact .leave (call_quiet hcall ⟨by simp, rfl⟩ rfl)

theorem udpWriteStep_effect {pc pc' : UdpWritePc} {call : UdpWriteCall} :
    udpWriteStep sh pc call = some (sh', pc', evs) →
    Effect .udpWrite sh pc.phase sh' pc'.phase evs := by
  fun_cases udpWriteStep sh pc call
  all_goals rintro ⟨⟩
  case case1 => exact .guard UdpWritePc.phase (.refl _ sh) stops_of_continues rfl (.inr rfl)
  case case3 hcall =>
      exact .guard UdpWritePc.phase (call_quiet hcall ⟨by simp, rfl⟩ rfl) (stops_of_peek hcall) rfl (.inr rfl)
  case case4 => exact .guard UdpWritePc.phase (.refl _ sh) stops_of_continues rfl (.inl rfl)
  case case7 hcall | case17 hcall => exact .work (call_quiet hcall ⟨by simp, rfl⟩ rfl)
  case case8 | case13 => exact .work (.refl _ sh)
  case case11 hcall => exact .work ((call_quiet hcall ⟨by simp, rfl⟩ rfl).cons rfl (fun _ => rfl) rfl)
  case case12 | case14 => exact .fail
  case case15 => exact .work (.notify _ sh)
  case case18 => exact .store
  case case19 => exact .send (.inr (.inl rfl))
  case case21 hcall => exact .leave (call_quiet hcall ⟨by simp, rfl⟩ rfl)

/-- A worker never touches `RUNNING`, the stop bit or the clock. -/
theorem Effect.frame {phase phase' : Phase} (h : Effect thread sh phase sh' phase' evs) :
    Frame (.worker thread) sh sh' evs := by
  cases h with
  | work hquiet | quit hquiet | leave hquiet => exact hquiet.toFrame
  | fail => exact .refl _ sh
  | store => exact ⟨.quiet rfl rfl rfl (fun _ => rfl) (.inl rfl), rfl, rfl, rfl⟩
  | @send error _ _ =>
      have hby : ∀ event ∈ [Event.failed error], event.By (.worker thread) := by
        intro event hevent
        rw [List.mem_singleton.mp hevent]
        exact ⟨thread, rfl⟩
      exact ⟨{ Carries.refl _ sh with by_role := hby }, rfl, rfl, rfl⟩
  | close hcall => exact call_frame hcall trivial

end Steps

/-! ## What the main thread can do -/

/-- Why the loop is left without an error received. -/
inductive Reason (sh : Shared) : Except IoError Unit → Prop
  | stopped : sh.continues = false → Reason sh (.ok ())
  | silent : SERVER_LIVENESS_TIMEOUT ≤ sh.now - sh.activity → Reason sh (.error notResponding)
  | refused : (sh.queues .rawTx).queue.closed = true → Reason sh (.error rawTxClosed)

def MainPc.Loops : MainPc → Prop
  | .cleanup _ _ => False
  | _ => True

inductive MainEffect (ended : Thread → Bool) (sh : Shared) :
    MainPc → Shared → MainPc → List Event → Prop
  | work {pc pc' : MainPc} {sh' : Shared} {evs : List Event} :
      pc.Loops → pc'.Loops → Quiet .main sh sh' evs → MainEffect ended sh pc sh' pc' evs
  | leave {pc : MainPc} {sh' : Shared} {evs : List Event} {result : Except IoError Unit} :
      pc.Loops → Quiet .main sh sh' evs → Reason sh result →
      MainEffect ended sh pc sh' (.cleanup result cleanup) evs
  | receive {deadline : Instant} {error : IoError} {rest : List IoError} :
      sh.errors = error :: rest →
      MainEffect ended sh (.receiving deadline) { sh with errors := rest }
        (.cleanup (.error error) cleanup) []
  | cleanup {result : Except IoError Unit} {op : Cleanup} {rest : List Cleanup} {sh' : Shared}
      {evs : List Event} :
      cleanupStep ended sh op = some (sh', evs) →
      MainEffect ended sh (.cleanup result (op :: rest)) sh' (.cleanup result rest) evs

section Main

variable {interval : Duration} {ended : Thread → Bool} {sh sh' : Shared} {m m' : Main}
  {evs : List Event}

theorem mainStep_effect :
    mainStep interval ended sh m = some (sh', m', evs) →
    MainEffect ended sh m.pc sh' m'.pc evs := by
  fun_cases mainStep interval ended sh m
  all_goals rintro ⟨⟩
  case case1 hpc =>
      rw [hpc]
      by_cases hcontinues : sh.continues = true
      · rw [if_pos hcontinues]
        exact .work trivial trivial (.refl _ sh)
      · rw [if_neg hcontinues]
        exact .leave trivial (.refl _ sh) (.stopped (Bool.eq_false_iff.mpr hcontinues))
  case case2 hpc hsilent =>
      rw [hpc]
      exact .leave trivial (.refl _ sh) (.silent hsilent)
  case case3 hpc _ | case4 hpc | case5 hpc _ | case6 hpc _ | case10 hpc | case11 hpc =>
      rw [hpc]
      exact .work trivial trivial (.refl _ sh)
  case case8 hpc _ _ hcall =>
      rw [hpc]
      split
      · rename_i hanswer
        exact .leave trivial
          (((call_quiet hcall (.inr rfl) rfl).count_plain (.inr rfl) _).cons (.inr rfl) (fun _ => rfl) rfl)
          (.refused (pushAnswer_refused (call_self hcall) hanswer))
      · exact .work trivial trivial
          (((call_quiet hcall (.inr rfl) rfl).count_plain (.inr rfl) _).cons (.inr rfl) (fun _ => rfl) rfl)
  case case9 probeDue hpc =>
      rw [hpc]
      cases probeDue <;> exact .work trivial trivial ((Quiet.refl _ sh).cons rfl (fun _ => rfl) rfl)
  case case12 hpc _ _ herrors =>
      rw [hpc]
      exact .receive herrors
  case case13 hpc _ _ =>
      rw [hpc]
      exact .work trivial trivial (.refl _ sh)
  case case17 hpc hstep =>
      rw [hpc]
      exact .cleanup hstep

/-- The cleanup clears `active`, sets the stop bit and closes queues. -/
structure CleanupFrame (sh sh' : Shared) (evs : List Event) : Prop
    extends Carries .main sh sh' evs where
  running : sh'.running = sh.running
  now : sh'.now = sh.now
  errors : sh'.errors = sh.errors
  failures : failures evs = []

theorem cleanupStep_frame {op : Cleanup} :
    cleanupStep ended sh op = some (sh', evs) → CleanupFrame sh sh' evs := by
  fun_cases cleanupStep ended sh op
  all_goals rintro ⟨⟩
  case case1 | case7 =>
      exact ⟨.quiet rfl rfl rfl (fun _ => rfl) (.inl rfl), rfl, rfl, rfl, rfl⟩
  case case4 => exact ⟨.quiet rfl rfl rfl (fun _ => rfl) (.inr rfl), rfl, rfl, rfl, rfl⟩
  case case3 hcall =>
      have hframe : Frame .main sh sh' _ := call_frame hcall trivial
      obtain ⟨queue, -, rfl⟩ := call_some hcall
      exact ⟨hframe.toCarries, rfl, rfl, rfl, failures_map _⟩
  case case5 => exact ⟨.refl _ sh, rfl, rfl, rfl, rfl⟩

theorem MainEffect.carries {pc pc' : MainPc} (h : MainEffect ended sh pc sh' pc' evs) :
    Carries .main sh sh' evs := by
  cases h with
  | work _ _ hquiet | leave _ hquiet _ => exact hquiet.toCarries
  | receive => exact .quiet rfl rfl rfl (fun _ => rfl) (.inl rfl)
  | cleanup hstep => exact (cleanupStep_frame hstep).toCarries

end Main

/-! ## Steps of the connection -/

def Act.role : Act → Role
  | .tick _ => .outside
  | .interrupt => .outside
  | .dtlsSend _ => .wolfSsl
  | .udpRead _ => .worker .udpRead
  | .tunRead _ => .worker .tunRead
  | .decrypt _ => .worker .decrypt
  | .tunWrite _ => .worker .tunWrite
  | .encrypt _ => .worker .encrypt
  | .udpWrite _ => .worker .udpWrite
  | .main => .main

section

variable {a : Act}

theorem Act.udpRead_of_role (h : a.role = .worker .udpRead) : ∃ call, a = .udpRead call := by
  cases a <;> first | exact ⟨_, rfl⟩ | cases h

theorem Act.tunRead_of_role (h : a.role = .worker .tunRead) : ∃ call, a = .tunRead call := by
  cases a <;> first | exact ⟨_, rfl⟩ | cases h

theorem Act.decrypt_of_role (h : a.role = .worker .decrypt) : ∃ call, a = .decrypt call := by
  cases a <;> first | exact ⟨_, rfl⟩ | cases h

theorem Act.tunWrite_of_role (h : a.role = .worker .tunWrite) : ∃ call, a = .tunWrite call := by
  cases a <;> first | exact ⟨_, rfl⟩ | cases h

theorem Act.encrypt_of_role (h : a.role = .worker .encrypt) : ∃ call, a = .encrypt call := by
  cases a <;> first | exact ⟨_, rfl⟩ | cases h

theorem Act.udpWrite_of_role (h : a.role = .worker .udpWrite) : ∃ call, a = .udpWrite call := by
  cases a <;> first | exact ⟨_, rfl⟩ | cases h

theorem Act.main_of_role (h : a.role = .main) : a = .main := by
  cases a <;> first | rfl | cases h

end

/-- What a step does, by whose step it is. -/
inductive StepEffect (s : State) : Role → State → List Event → Prop
  | tick {d : Duration} :
      StepEffect s .outside { s with shared := { s.shared with now := s.shared.now + d } } []
  | interrupt :
      StepEffect s .outside { s with shared := { s.shared with running := false } } []
  | dtlsSend {bytes : Packet} {sh : Shared} {evs : List (QueueRun.Event EncryptedDatagram)} :
      s.shared.call .encTx (.push ⟨bytes, s.shared.now⟩) = some (sh, evs) →
      StepEffect s .wolfSsl { s with shared := sh } (evs.map (.queue .encTx))
  | worker {s' : State} {evs : List Event} {thread : Thread} :
      Effect thread s.shared (s.phase thread) s'.shared (s'.phase thread) evs →
      (∀ other, other ≠ thread → s'.phase other = s.phase other) → s'.main = s.main →
      StepEffect s (.worker thread) s' evs
  | main {sh : Shared} {m : Main} {evs : List Event} :
      MainEffect s.ended s.shared s.main.pc sh m.pc evs →
      StepEffect s .main { s with shared := sh, main := m } evs

section Composite

variable {interval : Duration} {s s' : State} {a : Act} {evs : List Event}

theorem step_effect : step interval s a = some (s', evs) → StepEffect s a.role s' evs := by
  intro h
  cases a with
  | tick d =>
      obtain ⟨rfl, rfl⟩ := Prod.mk.inj (Option.some.inj h)
      exact .tick
  | interrupt =>
      obtain ⟨rfl, rfl⟩ := Prod.mk.inj (Option.some.inj h)
      exact .interrupt
  | dtlsSend bytes =>
      simp only [step] at h
      split at h
      · split at h
        · cases h
        · rename_i hcall
          obtain ⟨rfl, rfl⟩ := Prod.mk.inj (Option.some.inj h)
          exact .dtlsSend hcall
      · cases h
  | udpRead call =>
      obtain ⟨⟨sh, pc, evs'⟩, hstep, hr⟩ := Option.map_eq_some_iff.mp h
      obtain ⟨rfl, rfl⟩ := Prod.mk.inj hr
      refine .worker (udpReadStep_effect hstep) (fun other hother => ?_) rfl
      cases other <;> first | rfl | exact absurd rfl hother
  | tunRead call =>
      obtain ⟨⟨sh, pc, evs'⟩, hstep, hr⟩ := Option.map_eq_some_iff.mp h
      obtain ⟨rfl, rfl⟩ := Prod.mk.inj hr
      refine .worker (tunReadStep_effect hstep) (fun other hother => ?_) rfl
      cases other <;> first | rfl | exact absurd rfl hother
  | decrypt call =>
      obtain ⟨⟨sh, d, evs'⟩, hstep, hr⟩ := Option.map_eq_some_iff.mp h
      obtain ⟨rfl, rfl⟩ := Prod.mk.inj hr
      refine .worker (decryptStep_effect hstep) (fun other hother => ?_) rfl
      cases other <;> first | rfl | exact absurd rfl hother
  | tunWrite call =>
      obtain ⟨⟨sh, pc, evs'⟩, hstep, hr⟩ := Option.map_eq_some_iff.mp h
      obtain ⟨rfl, rfl⟩ := Prod.mk.inj hr
      refine .worker (tunWriteStep_effect hstep) (fun other hother => ?_) rfl
      cases other <;> first | rfl | exact absurd rfl hother
  | encrypt call =>
      obtain ⟨⟨sh, pc, evs'⟩, hstep, hr⟩ := Option.map_eq_some_iff.mp h
      obtain ⟨rfl, rfl⟩ := Prod.mk.inj hr
      refine .worker (encryptStep_effect hstep) (fun other hother => ?_) rfl
      cases other <;> first | rfl | exact absurd rfl hother
  | udpWrite call =>
      obtain ⟨⟨sh, pc, evs'⟩, hstep, hr⟩ := Option.map_eq_some_iff.mp h
      obtain ⟨rfl, rfl⟩ := Prod.mk.inj hr
      refine .worker (udpWriteStep_effect hstep) (fun other hother => ?_) rfl
      cases other <;> first | rfl | exact absurd rfl hother
  | main =>
      obtain ⟨⟨sh, m, evs'⟩, hstep, hr⟩ := Option.map_eq_some_iff.mp h
      obtain ⟨rfl, rfl⟩ := Prod.mk.inj hr
      exact .main (mainStep_effect hstep)

theorem StepEffect.carries {role : Role} (h : StepEffect s role s' evs) :
    Carries role s.shared s'.shared evs := by
  cases h with
  | tick | interrupt => exact .quiet rfl rfl rfl (fun _ => rfl) (.inl rfl)
  | dtlsSend hcall => exact (call_frame hcall rfl).toCarries
  | worker heffect => exact heffect.frame.toCarries
  | main heffect => exact heffect.carries

theorem step_carries :
    step interval s a = some (s', evs) → Carries a.role s.shared s'.shared evs :=
  fun h => (step_effect h).carries

/-- A thread changes no other's variables. -/
structure Untouched (role : Role) (s s' : State) : Prop where
  udpRead : role ≠ .worker .udpRead → s'.udpRead = s.udpRead
  tunRead : role ≠ .worker .tunRead → s'.tunRead = s.tunRead
  decrypt : role ≠ .worker .decrypt → s'.decrypt = s.decrypt
  tunWrite : role ≠ .worker .tunWrite → s'.tunWrite = s.tunWrite
  encrypt : role ≠ .worker .encrypt → s'.encrypt = s.encrypt
  udpWrite : role ≠ .worker .udpWrite → s'.udpWrite = s.udpWrite
  main : role ≠ .main → s'.main = s.main

theorem step_untouched : step interval s a = some (s', evs) → Untouched a.role s s' := by
  intro h
  cases a with
  | tick d | interrupt =>
      obtain ⟨rfl, -⟩ := Prod.mk.inj (Option.some.inj h)
      constructor <;> exact fun _ => rfl
  | dtlsSend bytes =>
      simp only [step] at h
      split at h
      · split at h
        · cases h
        · obtain ⟨rfl, -⟩ := Prod.mk.inj (Option.some.inj h)
          constructor <;> exact fun _ => rfl
      · cases h
  | udpRead call | tunRead call | decrypt call | tunWrite call | encrypt call | udpWrite call
  | main =>
      obtain ⟨r, -, hr⟩ := Option.map_eq_some_iff.mp h
      obtain ⟨rfl, -⟩ := Prod.mk.inj hr
      constructor <;> first | exact fun _ => rfl | exact fun hne => absurd rfl hne

theorem step_udpRead {call : UdpReadCall} :
    step interval s (.udpRead call) = some (s', evs) →
    udpReadStep s.shared s.udpRead call = some (s'.shared, s'.udpRead, evs) := by
  intro h
  obtain ⟨r, hstep, hr⟩ := Option.map_eq_some_iff.mp h
  obtain ⟨rfl, rfl⟩ := Prod.mk.inj hr
  exact hstep

theorem step_tunRead {call : TunReadCall} :
    step interval s (.tunRead call) = some (s', evs) →
    tunReadStep s.shared s.tunRead call = some (s'.shared, s'.tunRead, evs) := by
  intro h
  obtain ⟨r, hstep, hr⟩ := Option.map_eq_some_iff.mp h
  obtain ⟨rfl, rfl⟩ := Prod.mk.inj hr
  exact hstep

theorem step_decrypt {call : DecryptCall} :
    step interval s (.decrypt call) = some (s', evs) →
    decryptStep s.shared s.decrypt call = some (s'.shared, s'.decrypt, evs) := by
  intro h
  obtain ⟨r, hstep, hr⟩ := Option.map_eq_some_iff.mp h
  obtain ⟨rfl, rfl⟩ := Prod.mk.inj hr
  exact hstep

theorem step_tunWrite {call : TunWriteCall} :
    step interval s (.tunWrite call) = some (s', evs) →
    tunWriteStep s.shared s.tunWrite call = some (s'.shared, s'.tunWrite, evs) := by
  intro h
  obtain ⟨r, hstep, hr⟩ := Option.map_eq_some_iff.mp h
  obtain ⟨rfl, rfl⟩ := Prod.mk.inj hr
  exact hstep

theorem step_encrypt {call : EncryptCall} :
    step interval s (.encrypt call) = some (s', evs) →
    encryptStep s.shared s.encrypt call = some (s'.shared, s'.encrypt, evs) := by
  intro h
  obtain ⟨r, hstep, hr⟩ := Option.map_eq_some_iff.mp h
  obtain ⟨rfl, rfl⟩ := Prod.mk.inj hr
  exact hstep

theorem step_udpWrite {call : UdpWriteCall} :
    step interval s (.udpWrite call) = some (s', evs) →
    udpWriteStep s.shared s.udpWrite call = some (s'.shared, s'.udpWrite, evs) := by
  intro h
  obtain ⟨r, hstep, hr⟩ := Option.map_eq_some_iff.mp h
  obtain ⟨rfl, rfl⟩ := Prod.mk.inj hr
  exact hstep

theorem step_main :
    step interval s .main = some (s', evs) →
    mainStep interval s.ended s.shared s.main = some (s'.shared, s'.main, evs) := by
  intro h
  obtain ⟨r, hstep, hr⟩ := Option.map_eq_some_iff.mp h
  obtain ⟨rfl, rfl⟩ := Prod.mk.inj hr
  exact hstep

end Composite

/-! ## Runs -/

section Runs

variable {configured : Duration} {running : Bool} {now : Instant} {G : State → Act → Prop}
  {as : List Act} {log : List Event} {s : State}

/-- A run of the connection is a run of each of its queues. -/
theorem run_queue (name : QueueName) (h : (machine configured running now).Run G as log s) :
    ∃ calls, (QueueRun.machine (Queue.fresh QUEUE_CAPACITY queue_capacity_pos)).Run Machine.Free
      calls (queueLog name log) (s.shared.queues name) := by
  refine h.invariant (fun log s => ∃ calls,
    (QueueRun.machine (Queue.fresh QUEUE_CAPACITY queue_capacity_pos)).Run Machine.Free
      calls (queueLog name log) (s.shared.queues name)) ⟨[], .start⟩ ?_
  rintro log s a s' evs ⟨calls, hcalls⟩ - hs
  rw [queueLog_append]
  rcases (step_carries hs).queue name with ⟨hq, hevs⟩ | ⟨act, -, hact⟩
  · rw [hq, hevs, List.append_nil]
    exact ⟨calls, hcalls⟩
  · exact ⟨calls ++ [act], hcalls.next trivial hact⟩

end Runs

end ClientTunnel

end AutobricksVpn
