/-
# `AutobricksVpn.Server.Intake` — the two queues of the server, and their sleepers

    UDP socket ⊒ datagrams that the decrypt worker has taken, and those waiting
    TUN device ⊒ packets that the encrypt worker has taken, and those waiting

Each line holds with the position of every item in its source (`Stamped`), and
while the queue is open nothing is missing but what its counter of drops says
(`intake_carried`).

The two consumers sleep on the generation of their queue, which they have read
before they looked at anything.  So neither oversleeps: when one sleeps, its queue
is empty; and when the decrypt worker sleeps there is no reload for it either, or
the control worker has just sent it and is about to wake it (`nobody_oversleeps`).
The generation has 64 bits, so this is about runs of fewer than 2⁶⁴ actions.
-/
import AutobricksVpn.Base.QueueStamps
import AutobricksVpn.Server.Shutdown

namespace AutobricksVpn

namespace ServerThreads

/-! ## The log -/

def Event.onQueue (name : QueueName) : Event → Option (QueueRun.Event name.Item)
  | .queue name' event => if h : name' = name then some (h ▸ event) else none
  | _ => none

/-- What happened to a queue. -/
def queueLog (name : QueueName) (log : List Event) : List (QueueRun.Event name.Item) :=
  log.filterMap (Event.onQueue name)

def Event.handedTo : (name : QueueName) → Event → Option name.Item
  | .udpRx, .arrived datagram => some datagram
  | .tunRead, .captured packet => some packet
  | _, _ => none

/-- What the producer of a queue has got hold of. -/
def handed (name : QueueName) (log : List Event) : List name.Item :=
  log.filterMap (Event.handedTo name)

/-- What the consumer of a queue has taken. -/
def taken (name : QueueName) (log : List Event) : List (Nat × name.Item) :=
  QueueRun.delivered (queueLog name log)

/-- The counter of the producer. -/
def Shared.drops (sh : Shared) : QueueName → Nat
  | .udpRx => sh.encryptedDrops
  | .tunRead => sh.plainDrops

/-- The event is about no queue. -/
def Event.Aside (event : Event) : Prop :=
  ∀ name, event.onQueue name = none ∧ event.handedTo name = none

section Logs

variable {name name' : QueueName} {log log' : List Event}

theorem queueLog_append :
    queueLog name (log ++ log') = queueLog name log ++ queueLog name log' :=
  List.filterMap_append

theorem handed_append : handed name (log ++ log') = handed name log ++ handed name log' :=
  List.filterMap_append

theorem queueLog_map (evs : List (QueueRun.Event name.Item)) :
    queueLog name (evs.map (.queue name)) = evs := by
  have hself : Event.onQueue name ∘ Event.queue name = some := by
    funext event
    simp [Event.onQueue]
  rw [queueLog, List.filterMap_map, hself, List.filterMap_some]

theorem queueLog_map_of_ne (h : name' ≠ name) (evs : List (QueueRun.Event name'.Item)) :
    queueLog name (evs.map (.queue name')) = [] := by
  rw [queueLog, List.filterMap_map, List.filterMap_eq_nil_iff]
  intro event _
  simp [Event.onQueue, h]

theorem handed_map (evs : List (QueueRun.Event name'.Item)) :
    handed name (evs.map (.queue name')) = [] := by
  rw [handed, List.filterMap_map, List.filterMap_eq_nil_iff]
  intro event _
  cases name <;> rfl

theorem queueLog_aside (h : ∀ event ∈ log, event.Aside) : queueLog name log = [] :=
  List.filterMap_eq_nil_iff.mpr fun event hevent => (h event hevent name).1

theorem handed_aside (h : ∀ event ∈ log, event.Aside) : handed name log = [] :=
  List.filterMap_eq_nil_iff.mpr fun event hevent => (h event hevent name).2

end Logs

/-! ## What a step does to the queues -/

/-- A queue is left alone, or there was one call. -/
def QueueStep {α : Type} (q q' : QueueRun.Shared α) (evs : List (QueueRun.Event α)) : Prop :=
  (q' = q ∧ evs = []) ∨ ∃ a : QueueRun.Act α, a.Plain ∧ QueueRun.step q a = some (q', evs)

/-- What a step does to the queues, to the log and to the counters. -/
structure Carries (sh sh' : Shared) (evs : List Event) : Prop where
  queue : ∀ name, QueueStep (sh.queues name) (sh'.queues name) (queueLog name evs)
  handed : ∀ name, handed name evs = QueueRun.pushed (queueLog name evs)
  drops : ∀ name, sh'.drops name = sh.drops name + (QueueRun.returned (queueLog name evs)).length

section Carrying

variable {sh sh' : Shared} {free : Bool} {name : QueueName} {evs : List Event}

theorem Carries.quiet (hqueues : sh'.queues = sh.queues)
    (hdrops : ∀ name, sh'.drops name = sh.drops name) (haside : ∀ event ∈ evs, event.Aside) :
    Carries sh sh' evs where
  queue name := .inl ⟨by rw [hqueues], queueLog_aside haside⟩
  handed name := by rw [queueLog_aside haside, handed_aside haside]; rfl
  drops name := by rw [queueLog_aside haside, hdrops]; rfl

/-- A call of a queue, with its events. -/
theorem call_queueStep {a : QueueRun.Act name.Item} {events : List (QueueRun.Event name.Item)}
    (hplain : a.Plain) (h : sh.call name a = some (sh', events)) (name' : QueueName) :
    QueueStep (sh.queues name') (sh'.queues name')
      (queueLog name' (events.map (.queue name))) := by
  by_cases hname : name = name'
  · subst hname
    rw [queueLog_map]
    exact .inr ⟨a, hplain, call_self h⟩
  · exact .inl ⟨call_of_ne (Ne.symm hname) h, queueLog_map_of_ne hname events⟩

theorem call_drops {a : QueueRun.Act name.Item} {events : List (QueueRun.Event name.Item)}
    (h : sh.call name a = some (sh', events)) (name' : QueueName) :
    sh'.drops name' = sh.drops name' := by
  obtain ⟨queue, -, rfl⟩ := call_some h
  cases name' <;> rfl

/-- A call that is no `push`. -/
theorem call_carries {a : QueueRun.Act name.Item} {events : List (QueueRun.Event name.Item)}
    (hplain : a.Plain) (hpush : ∀ x, a ≠ .push x) (h : sh.call name a = some (sh', events)) :
    Carries sh sh' (events.map (.queue name)) := by
  have hstep := call_self h
  have hpushed : QueueRun.pushed events = [] := by
    rcases QueueRun.step_pushed hstep with ⟨x, ha, -⟩ | ⟨-, hpushed, -⟩
    · exact absurd ha (hpush x)
    · exact hpushed
  have hreturned : QueueRun.returned events = [] := by
    rcases QueueRun.step_returned hstep with hreturned | ⟨x, ha, -⟩
    · exact hreturned
    · exact absurd ha (hpush x)
  refine ⟨call_queueStep hplain h, fun name' => ?_, fun name' => ?_⟩
  · rw [handed_map]
    by_cases hname : name = name'
    · subst hname
      rw [queueLog_map, hpushed]
    · rw [queueLog_map_of_ne hname]
      rfl
  · rw [call_drops h]
    by_cases hname : name = name'
    · subst hname
      rw [queueLog_map, hreturned]
      rfl
    · rw [queueLog_map_of_ne hname]
      rfl

/-- What `push` hands in and returns, and what the producer makes of it. -/
theorem call_push {x : name.Item} {events : List (QueueRun.Event name.Item)} :
    sh.call name (.push x) = some (sh', events) →
    QueueRun.pushed events = [x] ∧
      (pushAnswer events).dropped = (QueueRun.returned events).length := by
  intro h
  have hstep := call_self h
  rcases Queue.push_cases (sh.queues name).queue ((sh.queues name).pushes, x) with
    ⟨-, hp⟩ | ⟨old, rest, queue, -, -, -, hp, -⟩ | ⟨queue, -, -, hp, -⟩ <;>
    simp only [QueueRun.step, hp, Option.some.injEq, Prod.mk.injEq] at hstep <;>
    obtain ⟨-, rfl⟩ := hstep <;> exact ⟨rfl, rfl⟩

/-- A producer hands in an item, and counts what comes back. -/
theorem push_carries {x : name.Item} {events : List (QueueRun.Event name.Item)} {event : Event}
    {sh'' : Shared} (h : sh.call name (.push x) = some (sh', events))
    (hon : ∀ name', event.onQueue name' = none) (hself : event.handedTo name = some x)
    (hothers : ∀ name', name' ≠ name → event.handedTo name' = none)
    (hqueues : sh''.queues = sh'.queues)
    (hdrops : sh''.drops name = sh'.drops name + (pushAnswer events).dropped)
    (hsame : ∀ name', name' ≠ name → sh''.drops name' = sh'.drops name') :
    Carries sh sh'' (event :: events.map (.queue name)) := by
  obtain ⟨hpushed, hdropped⟩ := call_push h
  have hlog : ∀ name', queueLog name' (event :: events.map (.queue name)) =
      queueLog name' (events.map (.queue name)) := fun name' => List.filterMap_cons_none (hon name')
  refine ⟨fun name' => ?_, fun name' => ?_, fun name' => ?_⟩ <;> rw [hlog]
  · rw [hqueues]
    exact call_queueStep (by trivial) h name'
  · by_cases hname : name' = name
    · subst hname
      rw [queueLog_map, hpushed, handed, List.filterMap_cons_some hself]
      exact congrArg (x :: ·) (handed_map events)
    · rw [queueLog_map_of_ne (Ne.symm hname), handed, List.filterMap_cons_none (hothers _ hname)]
      exact handed_map events
  · by_cases hname : name' = name
    · subst hname
      rw [queueLog_map, ← hdropped, hdrops, call_drops h]
    · rw [queueLog_map_of_ne (Ne.symm hname), hsame _ hname, call_drops h]
      rfl

/-- One event that is about no queue, and nothing done to them. -/
theorem Carries.one {event : Event} (hqueues : sh'.queues = sh.queues)
    (hdrops : ∀ name, sh'.drops name = sh.drops name) (haside : event.Aside) :
    Carries sh sh' [event] :=
  .quiet hqueues hdrops fun _ h => List.mem_singleton.mp h ▸ haside

/-- Nothing is logged, and nothing done to the queues. -/
theorem Carries.silent (hqueues : sh'.queues = sh.queues)
    (hdrops : ∀ name, sh'.drops name = sh.drops name) : Carries sh sh' [] :=
  .quiet hqueues hdrops fun _ h => absurd h List.not_mem_nil

theorem forall_name {P : QueueName → Prop} (hudpRx : P .udpRx) (htunRead : P .tunRead) :
    ∀ name, P name
  | .udpRx => hudpRx
  | .tunRead => htunRead

theorem tunReadStep_carries {pc pc' : TunReadPc} {call : TunReadCall} :
    tunReadStep sh pc call = some (sh', pc', evs) → Carries sh sh' evs := by
  fun_cases tunReadStep sh pc call
  all_goals rintro ⟨⟩
  case case4 | case5 | case9 =>
      exact .one rfl (fun _ => rfl) (forall_name ⟨rfl, rfl⟩ ⟨rfl, rfl⟩)
  case case11 hcall =>
      exact push_carries hcall (fun _ => rfl) rfl
        (forall_name (fun _ => rfl) fun hname => absurd rfl hname) rfl rfl
        (forall_name (fun _ => rfl) fun hname => absurd rfl hname)
  case case15 hcall => exact call_carries (by trivial) (by simp) hcall
  all_goals exact .silent rfl (forall_name rfl rfl)

theorem encryptStep_carries {pc pc' : EncryptPc} {call : EncryptCall} :
    encryptStep free sh pc call = some (sh', pc', evs) → Carries sh sh' evs := by
  fun_cases encryptStep free sh pc call
  all_goals rintro ⟨⟩
  case case4 hcall => exact call_carries (by trivial) (by simp) hcall
  all_goals exact .silent rfl (forall_name rfl rfl)

theorem udpWriteStep_carries {pc pc' : UdpWritePc} {call : UdpWriteCall} :
    udpWriteStep free sh pc call = some (sh', pc', evs) → Carries sh sh' evs := by
  fun_cases udpWriteStep free sh pc call
  all_goals rintro ⟨⟩
  case case9 hcall => exact call_carries (by trivial) (by simp) hcall
  all_goals exact .silent rfl (forall_name rfl rfl)

theorem decryptStep_carries {pc pc' : DecryptPc} {call : DecryptCall} :
    decryptStep free sh pc call = some (sh', pc', evs) → Carries sh sh' evs := by
  fun_cases decryptStep free sh pc call
  all_goals rintro ⟨⟩
  case case9 | case16 | case25 | case27 =>
      exact .one rfl (forall_name rfl rfl) (forall_name ⟨rfl, rfl⟩ ⟨rfl, rfl⟩)
  case case19 hcall => exact call_carries (by trivial) (by simp) hcall
  all_goals exact .silent rfl (forall_name rfl rfl)

theorem controlStep_carries {pc pc' : ControlPc} {call : ControlCall} :
    controlStep free sh pc call = some (sh', pc', evs) → Carries sh sh' evs := by
  fun_cases controlStep free sh pc call
  all_goals rintro ⟨⟩
  case case5 | case23 => exact .one rfl (fun _ => rfl) (forall_name ⟨rfl, rfl⟩ ⟨rfl, rfl⟩)
  case case15 hcall => exact call_carries (by trivial) (by simp) hcall
  all_goals exact .silent rfl (forall_name rfl rfl)

theorem cleanupStep_carries {ended : Worker → Bool} {op : Cleanup} :
    cleanupStep ended sh op = some (sh', evs) → Carries sh sh' evs := by
  fun_cases cleanupStep ended sh op
  all_goals rintro ⟨⟩
  case case5 hcall => exact call_carries (by trivial) (by simp) hcall
  all_goals exact .silent rfl (forall_name rfl rfl)

theorem mainStep_carries {ended : Worker → Bool} {pc pc' : MainPc} {call : MainCall} :
    mainStep ended sh pc call = some (sh', pc', evs) → Carries sh sh' evs := by
  fun_cases mainStep ended sh pc call
  all_goals rintro ⟨⟩
  case case4 | case7 => exact .one rfl (fun _ => rfl) (forall_name ⟨rfl, rfl⟩ ⟨rfl, rfl⟩)
  case case9 hcall =>
      exact push_carries hcall (fun _ => rfl) rfl
        (forall_name (fun hname => absurd rfl hname) fun _ => rfl) rfl rfl
        (forall_name (fun hname => absurd rfl hname) fun _ => rfl)
  case case12 hop => exact cleanupStep_carries hop
  all_goals exact .silent rfl (forall_name rfl rfl)

theorem give_carries {notice : Notice} : sh.give notice = some (sh', evs) → Carries sh sh' evs := by
  fun_cases Shared.give sh notice
  all_goals rintro ⟨⟩
  case case4 hcall => exact call_carries (by trivial) (by simp) hcall
  all_goals exact .silent rfl (forall_name rfl rfl)

theorem Takes.carries {s s' : State} {a : Act} (h : Takes s a s' evs) :
    Carries s.shared s'.shared evs := by
  cases h with
  | interrupt => exact .silent rfl (forall_name rfl rfl)
  | panic hpanic =>
      rw [panic_shared hpanic]
      exact .one rfl (fun _ => rfl) (forall_name ⟨rfl, rfl⟩ ⟨rfl, rfl⟩)
  | inside _ hgive => exact give_carries hgive
  | main hstep => exact mainStep_carries hstep
  | tunRead hstep => exact tunReadStep_carries hstep
  | encrypt hstep => exact encryptStep_carries hstep
  | udpWrite hstep => exact udpWriteStep_carries hstep
  | decrypt hstep => exact decryptStep_carries hstep
  | control hstep => exact controlStep_carries hstep

end Carrying

/-! ## Sleepers -/

/-- The generation has been incremented since it was `observed`, or `quiet` holds;
`k` bounds the increments. -/
def Since (k : Nat) (generation observed : UInt64) (quiet : Prop) : Prop :=
  ∃ n ≤ k, generation = observed + UInt64.ofNat n ∧ (n = 0 → quiet)

section Since

variable {k : Nat} {generation generation' observed : UInt64} {quiet quiet' : Prop}

theorem Since.refl (h : quiet) : Since k observed observed quiet :=
  ⟨0, Nat.zero_le _, (UInt64.add_zero _).symm, fun _ => h⟩

theorem Since.next (h : Since k generation observed quiet)
    (hnext : generation' = generation ∧ (quiet → quiet') ∨ generation' = generation + 1) :
    Since (k + 1) generation' observed quiet' := by
  obtain ⟨n, hn, hgeneration, hquiet⟩ := h
  rcases hnext with ⟨hsame, hkeep⟩ | hbump
  · exact ⟨n, Nat.le_succ_of_le hn, hsame.trans hgeneration, fun hzero => hkeep (hquiet hzero)⟩
  · refine ⟨n + 1, Nat.succ_le_succ hn, ?_, fun h => absurd h (Nat.succ_ne_zero n)⟩
    rw [hbump, hgeneration, UInt64.add_assoc, UInt64.ofNat_add]
    rfl

/-- A generation that is what it was has not gone round. -/
theorem Since.settled (h : Since k observed observed quiet) (hk : k < UInt64.size) : quiet := by
  obtain ⟨n, hn, hgeneration, hquiet⟩ := h
  refine hquiet ?_
  have hzero : UInt64.ofNat n = 0 := by
    have := hgeneration.symm
    rwa [UInt64.add_eq_left] at this
  have hmod : n % UInt64.size = 0 := by
    have := congrArg UInt64.toNat hzero
    rwa [UInt64.toNat_ofNat'] at this
  rwa [Nat.mod_eq_of_lt (Nat.lt_of_le_of_lt hn hk)] at hmod

end Since

/-- An empty queue stays so, or its generation is incremented. -/
theorem QueueStep.generation {α : Type} {q q' : QueueRun.Shared α}
    {evs : List (QueueRun.Event α)} :
    QueueStep q q' evs →
    q'.queue.generation = q.queue.generation ∧ (q.queue.items = [] → q'.queue.items = []) ∨
      q'.queue.generation = q.queue.generation + 1 := by
  rintro (⟨rfl, -⟩ | ⟨a, hplain, hstep⟩)
  · exact .inl ⟨rfl, id⟩
  cases a with
  | push x =>
      simp only [QueueRun.step] at hstep
      split at hstep
      · obtain ⟨rfl, -⟩ := Prod.mk.inj (Option.some.inj hstep)
        exact .inl ⟨rfl, id⟩
      · rename_i hpush
        obtain ⟨rfl, -⟩ := Prod.mk.inj (Option.some.inj hstep)
        exact .inr (SendPath.WatchedQueue.generation_of_push hpush)
      · rename_i hpush
        obtain ⟨rfl, -⟩ := Prod.mk.inj (Option.some.inj hstep)
        exact .inr (SendPath.WatchedQueue.generation_of_push hpush)
  | tryPop =>
      obtain ⟨-, ⟨rfl, -⟩ | ⟨x, rest, hitems, rfl, -⟩⟩ := QueueRun.step_take (.inl rfl) hstep
      · exact .inl ⟨rfl, id⟩
      · exact .inl ⟨rfl, fun hempty => absurd (hitems.symm.trans hempty) (List.cons_ne_nil _ _)⟩
  | notifyChange =>
      obtain ⟨rfl, -⟩ := Prod.mk.inj (Option.some.inj hstep)
      exact .inr rfl
  | close =>
      obtain ⟨rfl, -⟩ := Prod.mk.inj (Option.some.inj hstep)
      show (Queue.close _).generation = _ ∧ _ ∨ (Queue.close _).generation = _
      unfold Queue.close
      split
      · exact .inl ⟨rfl, id⟩
      · exact .inr rfl
  | pop | popTimeout | peek | tryPeek | commit | restore => exact hplain.elim

/-- The generation of `tun_read_queue` that the encrypt worker has read. -/
def EncryptPc.observed : EncryptPc → Option UInt64
  | .tryPop observed | .packet observed _ | .lockRoute observed | .route observed
  | .notifyRouted observed | .swapRetry observed | .lockRetry observed | .retry observed
  | .lockFlush observed | .flush observed | .notifyFlushed observed _ | .check observed _
  | .wait observed => some observed
  | .top | .observe | .leave _ | .ended _ => none

/-- The encrypt worker has found its queue empty. -/
def EncryptPc.Emptied : EncryptPc → Prop
  | .lockFlush _ | .flush _ | .notifyFlushed _ _ | .check _ _ | .wait _ => True
  | _ => False

/-- The generation of `udp_rx_queue` that the decrypt worker has read. -/
def DecryptPc.observed : DecryptPc → Option UInt64
  | .lockRead observed | .read observed | .writeTun observed _ | .tunCall observed _
  | .lockDedupe observed _ | .dedupe observed _ | .reloads observed _ | .errors observed _
  | .tryPop observed _ | .wait observed => some observed
  | .top | .observe | .lockPeer _ | .handle _ | .finish _ | .drop _ | .leave _ | .ended _ => none

/-- The decrypt worker has found its queue empty. -/
def DecryptPc.Emptied : DecryptPc → Prop
  | .wait _ => True
  | _ => False

/-- The decrypt worker has found no reload. -/
def DecryptPc.Reloaded : DecryptPc → Prop
  | .errors _ _ | .tryPop _ _ | .wait _ => True
  | _ => False

/-- There is no reload to adopt, or the control worker has yet to announce it, or is
on its way out. -/
def State.Announced (s : State) : Prop :=
  s.shared.reloads = 0 ∨ (∃ requested, s.control = .change requested) ∨ ¬ s.control.Works

/-- What the two consumers know while their reading is up to date. -/
structure State.Attentive (k : Nat) (s : State) : Prop where
  encrypt : ∀ observed, s.encrypt.observed = some observed →
    Since k (s.shared.generation .tunRead) observed
      (s.encrypt.Emptied → (s.shared.queues .tunRead).queue.items = [])
  decrypt : ∀ observed, s.decrypt.observed = some observed →
    Since k (s.shared.generation .udpRx) observed
      ((s.decrypt.Emptied → (s.shared.queues .udpRx).queue.items = []) ∧
        (s.decrypt.Reloaded → s.Announced))

section Sleeping

variable {sh sh' : Shared} {free : Bool} {s s' : State} {a : Act} {evs : List Event}

/-- `try_pop` has found nothing. -/
theorem empty_of_popped {name : QueueName} {events : List (QueueRun.Event name.Item)}
    (h : sh.call name .tryPop = some (sh', events)) (hnone : popped events = none) :
    (sh'.queues name).queue.items = [] := by
  have hstep := call_self h
  simp only [QueueRun.step] at hstep
  split at hstep
  · obtain ⟨-, rfl⟩ := Prod.mk.inj (Option.some.inj hstep)
    cases hnone
  · rename_i hpop
    obtain ⟨hqueue, -⟩ := Prod.mk.inj (Option.some.inj hstep)
    rw [← hqueue]
    rcases Queue.tryPop_cases (sh.queues name).queue with
      ⟨x, rest, -, hp⟩ | ⟨hitems, -⟩ | ⟨hitems, -⟩
    · cases hp.symm.trans hpop
    · exact hitems
    · exact hitems
  · cases hstep

theorem encryptStep_observed {pc pc' : EncryptPc} {call : EncryptCall} {observed : UInt64} :
    encryptStep free sh pc call = some (sh', pc', evs) → pc'.observed = some observed →
    pc.observed = some observed ∧
        (pc'.Emptied → pc.Emptied ∨ (sh'.queues .tunRead).queue.items = []) ∨
      observed = sh'.generation .tunRead ∧ ¬ pc'.Emptied := by
  fun_cases encryptStep free sh pc call
  all_goals rintro ⟨⟩ hobserved
  case case1 => split at hobserved <;> cases hobserved
  case case2 => exact .inr ⟨(Option.some.inj hobserved).symm, id⟩
  case case4 hcall =>
      cases hpopped : popped _ with
      | some packet =>
          rw [hpopped] at hobserved
          exact .inl ⟨hobserved, fun h => h.elim⟩
      | none =>
          rw [hpopped] at hobserved
          exact .inl ⟨hobserved, fun _ => .inr (empty_of_popped hcall hpopped)⟩
  case case5 | case10 =>
      revert hobserved
      split <;> exact fun hobserved => .inl ⟨hobserved, fun h => h.elim⟩
  case case18 =>
      split at hobserved
      · cases hobserved
      · split at hobserved
        · cases hobserved
        · exact .inl ⟨hobserved, fun _ => .inl trivial⟩
  case case14 | case16 | case17 => exact .inl ⟨hobserved, fun _ => .inl trivial⟩
  all_goals first | exact .inl ⟨hobserved, fun h => h.elim⟩ | cases hobserved

theorem decryptStep_observed {pc pc' : DecryptPc} {call : DecryptCall} {observed : UInt64} :
    decryptStep free sh pc call = some (sh', pc', evs) → pc'.observed = some observed →
    pc.observed = some observed ∧
        (pc'.Emptied → (sh'.queues .udpRx).queue.items = []) ∧
        (pc'.Reloaded → pc.Reloaded ∨ sh'.reloads = 0) ∨
      observed = sh'.generation .udpRx ∧ ¬ pc'.Emptied ∧ ¬ pc'.Reloaded := by
  fun_cases decryptStep free sh pc call
  all_goals rintro ⟨⟩ hobserved
  case case1 | case6 =>
      revert hobserved
      split
      · exact fun hobserved => .inl ⟨hobserved, fun h => h.elim, fun h => h.elim⟩
      · exact fun hobserved => by cases hobserved
  case case2 => exact .inr ⟨(Option.some.inj hobserved).symm, id, id⟩
  case case15 hreloads => exact .inl ⟨hobserved, fun h => h.elim, fun _ => .inr hreloads⟩
  case case17 => exact .inl ⟨hobserved, fun h => h.elim, fun _ => .inl trivial⟩
  case case19 hcall =>
      cases hpopped : popped _ with
      | some datagram =>
          rw [hpopped] at hobserved
          cases hobserved
      | none =>
          rw [hpopped] at hobserved
          dsimp only at hobserved
          split at hobserved
          · cases hobserved
          · split at hobserved
            · cases hobserved
            · exact .inl ⟨hobserved, fun _ => empty_of_popped hcall hpopped, fun _ => .inl trivial⟩
  all_goals first | exact .inl ⟨hobserved, fun h => h.elim, fun h => h.elim⟩ | cases hobserved

/-! Only the control worker sends reloads. -/

theorem tunReadStep_reloads {pc pc' : TunReadPc} {call : TunReadCall} :
    tunReadStep sh pc call = some (sh', pc', evs) → sh'.reloads = sh.reloads := by
  fun_cases tunReadStep sh pc call
  all_goals rintro ⟨⟩
  case case11 hcall | case15 hcall =>
      have hreloads := call_reloads hcall
      exact hreloads
  all_goals rfl

theorem encryptStep_reloads {pc pc' : EncryptPc} {call : EncryptCall} :
    encryptStep free sh pc call = some (sh', pc', evs) → sh'.reloads = sh.reloads := by
  fun_cases encryptStep free sh pc call
  all_goals rintro ⟨⟩
  case case4 hcall => exact call_reloads hcall
  all_goals rfl

theorem udpWriteStep_reloads {pc pc' : UdpWritePc} {call : UdpWriteCall} :
    udpWriteStep free sh pc call = some (sh', pc', evs) → sh'.reloads = sh.reloads := by
  fun_cases udpWriteStep free sh pc call
  all_goals rintro ⟨⟩
  case case9 hcall => exact call_reloads hcall
  all_goals rfl

theorem decryptStep_reloads {pc pc' : DecryptPc} {call : DecryptCall} :
    decryptStep free sh pc call = some (sh', pc', evs) → sh'.reloads ≤ sh.reloads := by
  fun_cases decryptStep free sh pc call
  all_goals rintro ⟨⟩
  case case14 hreloads => exact hreloads ▸ Nat.le_succ _
  case case19 hcall => exact Nat.le_of_eq (call_reloads hcall)
  all_goals exact Nat.le_refl _

theorem cleanupStep_reloads {ended : Worker → Bool} {op : Cleanup} :
    cleanupStep ended sh op = some (sh', evs) → sh'.reloads = sh.reloads := by
  fun_cases cleanupStep ended sh op
  all_goals rintro ⟨⟩
  case case5 hcall => exact call_reloads hcall
  all_goals rfl

theorem mainStep_reloads {ended : Worker → Bool} {pc pc' : MainPc} {call : MainCall} :
    mainStep ended sh pc call = some (sh', pc', evs) → sh'.reloads = sh.reloads := by
  fun_cases mainStep ended sh pc call
  all_goals rintro ⟨⟩
  case case9 hcall =>
      have hreloads := call_reloads hcall
      exact hreloads
  case case12 hop => exact cleanupStep_reloads hop
  all_goals rfl

theorem give_reloads {notice : Notice} :
    sh.give notice = some (sh', evs) → sh'.reloads = sh.reloads := by
  fun_cases Shared.give sh notice
  all_goals rintro ⟨⟩
  case case4 hcall => exact call_reloads hcall
  all_goals rfl

theorem call_notifyChange_generation {name : QueueName}
    {events : List (QueueRun.Event name.Item)}
    (h : sh.call name .notifyChange = some (sh', events)) :
    sh'.generation name = sh.generation name + 1 := by
  obtain ⟨hqueue, -⟩ := Prod.mk.inj (Option.some.inj (call_self h))
  rw [Shared.generation, ← hqueue]
  rfl

/-- The control worker wakes the decrypt worker. -/
theorem controlStep_change {requested : Bool} {pc' : ControlPc} {call : ControlCall} :
    controlStep free sh (.change requested) call = some (sh', pc', evs) →
    sh'.generation .udpRx = sh.generation .udpRx + 1 := by
  generalize hpc : ControlPc.change requested = pc
  fun_cases controlStep free sh pc call
  all_goals rintro ⟨⟩
  case case15 hcall => exact call_notifyChange_generation hcall
  all_goals cases hpc

theorem controlStep_announced {pc pc' : ControlPc} {call : ControlCall} :
    controlStep free sh pc call = some (sh', pc', evs) →
    sh.reloads = 0 ∨ (∃ requested, pc = .change requested) ∨ ¬ pc.Works →
    (sh'.reloads = 0 ∨ (∃ requested, pc' = .change requested) ∨ ¬ pc'.Works) ∨
      sh'.generation .udpRx = sh.generation .udpRx + 1 := by
  fun_cases controlStep free sh pc call
  all_goals rintro ⟨⟩ hs
  case case12 requested _ => exact .inl (.inr (.inl ⟨requested, rfl⟩))
  case case15 hcall => exact .inr (call_notifyChange_generation hcall)
  case case5 | case13 | case23 | case25 => exact .inl (.inr (.inr id))
  all_goals
    refine .inl (.inl (hs.resolve_right ?_))
    rintro (⟨requested, hpc⟩ | hworks)
    · cases hpc
    · exact hworks trivial

/-- A reload that has not been announced yet will be. -/
theorem Takes.announced (h : Takes s a s' evs) :
    s.Announced →
    s'.Announced ∨ s'.shared.generation .udpRx = s.shared.generation .udpRx + 1 := by
  intro hs
  have hless : s'.control = s.control → s'.shared.reloads ≤ s.shared.reloads →
      s'.Announced ∨ s'.shared.generation .udpRx = s.shared.generation .udpRx + 1 := by
    intro hcontrol hle
    refine .inl (hs.imp (fun hzero => Nat.le_zero.mp (hle.trans (Nat.le_of_eq hzero))) ?_)
    rw [hcontrol]
    exact id
  cases h with
  | control hstep => exact controlStep_announced hstep hs
  | interrupt => exact hless rfl (Nat.le_refl _)
  | @panic worker _ hpanic =>
      revert hless hpanic
      fun_cases State.panic s worker
      all_goals rintro hless ⟨⟩
      case case16 => exact .inl (.inr (.inr id))
      all_goals exact hless rfl (Nat.le_refl _)
  | inside _ hgive => exact hless rfl (Nat.le_of_eq (give_reloads hgive))
  | main hstep => exact hless rfl (Nat.le_of_eq (mainStep_reloads hstep))
  | tunRead hstep => exact hless rfl (Nat.le_of_eq (tunReadStep_reloads hstep))
  | encrypt hstep => exact hless rfl (Nat.le_of_eq (encryptStep_reloads hstep))
  | udpWrite hstep => exact hless rfl (Nat.le_of_eq (udpWriteStep_reloads hstep))
  | decrypt hstep => exact hless rfl (decryptStep_reloads hstep)

/-- What a step does to the reading of the encrypt worker. -/
theorem Takes.encrypt_observed (h : Takes s a s' evs) {observed : UInt64} :
    s'.encrypt.observed = some observed →
    s.encrypt.observed = some observed ∧ (s'.encrypt.Emptied →
        s.encrypt.Emptied ∨ (s'.shared.queues .tunRead).queue.items = []) ∨
      observed = s'.shared.generation .tunRead ∧ ¬ s'.encrypt.Emptied := by
  intro hobserved
  cases h with
  | encrypt hstep => exact encryptStep_observed hstep hobserved
  | @panic worker _ hpanic =>
      revert hobserved hpanic
      fun_cases State.panic s worker
      all_goals rintro hobserved ⟨⟩
      case case6 => cases hobserved
      all_goals exact .inl ⟨hobserved, .inl⟩
  | interrupt | inside | main | tunRead | udpWrite | decrypt | control =>
      exact .inl ⟨hobserved, .inl⟩

/-- What a step does to the reading of the decrypt worker. -/
theorem Takes.decrypt_observed (h : Takes s a s' evs) {observed : UInt64} :
    s'.decrypt.observed = some observed →
    s.decrypt.observed = some observed ∧
        (s'.decrypt.Emptied → s.decrypt.Emptied ∨ (s'.shared.queues .udpRx).queue.items = []) ∧
        (s'.decrypt.Reloaded → s.decrypt.Reloaded ∨ s'.shared.reloads = 0) ∨
      observed = s'.shared.generation .udpRx ∧ ¬ s'.decrypt.Emptied ∧ ¬ s'.decrypt.Reloaded := by
  intro hobserved
  cases h with
  | decrypt hstep =>
      refine (decryptStep_observed hstep hobserved).imp_left ?_
      exact fun ⟨hsame, hempty, hreloaded⟩ => ⟨hsame, fun h => .inr (hempty h), hreloaded⟩
  | @panic worker _ hpanic =>
      revert hobserved hpanic
      fun_cases State.panic s worker
      all_goals rintro hobserved ⟨⟩
      case case13 => cases hobserved
      all_goals exact .inl ⟨hobserved, .inl, .inl⟩
  | interrupt | inside | main | tunRead | udpWrite | encrypt | control =>
      exact .inl ⟨hobserved, .inl, .inl⟩

theorem Takes.attentive {k : Nat} (h : Takes s a s' evs) (hs : s.Attentive k) :
    s'.Attentive (k + 1) where
  encrypt observed hobserved := by
    rcases h.encrypt_observed hobserved with ⟨hbefore, hempty⟩ | ⟨rfl, hnot⟩
    · refine (hs.encrypt observed hbefore).next ?_
      refine (h.carries.queue .tunRead).generation.imp_left fun ⟨hsame, hstays⟩ => ⟨hsame, ?_⟩
      exact fun hquiet hafter => (hempty hafter).elim (fun hwas => hstays (hquiet hwas)) id
    · exact .refl fun hemptied => absurd hemptied hnot
  decrypt observed hobserved := by
    rcases h.decrypt_observed hobserved with ⟨hbefore, hempty, hreloaded⟩ | ⟨rfl, hnot, hnot'⟩
    · refine (hs.decrypt observed hbefore).next ?_
      rcases (h.carries.queue .udpRx).generation with ⟨hsame, hstays⟩ | hbump
      · by_cases hbump : s'.shared.generation .udpRx = s.shared.generation .udpRx + 1
        · exact .inr hbump
        · refine .inl ⟨hsame, fun ⟨hquiet, hquiet'⟩ => ⟨fun hafter => ?_, fun hafter => ?_⟩⟩
          · exact (hempty hafter).elim (fun hwas => hstays (hquiet hwas)) id
          · rcases hreloaded hafter with hwas | hzero
            · exact (h.announced (hquiet' hwas)).resolve_right hbump
            · exact .inl hzero
      · exact .inr hbump
    · exact .refl ⟨fun hemptied => absurd hemptied hnot, fun hreload => absurd hreload hnot'⟩

theorem start_attentive : State.start.Attentive 0 where
  encrypt _ hobserved := by cases hobserved
  decrypt _ hobserved := by cases hobserved

end Sleeping

/-! ## Runs -/

section Runs

variable {G : State → Act → Prop} {as : List Act} {log : List Event} {s : State}

/-- A run of the server is a run of each of its queues. -/
theorem run_queue (name : QueueName) (h : machine.Run G as log s) :
    ∃ calls, (QueueRun.machine (freshQueues name).queue).Run Machine.Free calls
      (queueLog name log) (s.shared.queues name) := by
  refine h.invariant (fun log s => ∃ calls,
    (QueueRun.machine (freshQueues name).queue).Run Machine.Free calls (queueLog name log)
      (s.shared.queues name)) ⟨[], .start⟩ ?_
  rintro log s a s' evs ⟨calls, hcalls⟩ - hs
  rw [queueLog_append]
  rcases (step_takes hs).carries.queue name with ⟨hq, hevs⟩ | ⟨act, -, hact⟩
  · rw [hq, hevs, List.append_nil]
    exact ⟨calls, hcalls⟩
  · exact ⟨calls ++ [act], hcalls.next trivial hact⟩

theorem run_handed (name : QueueName) (h : machine.Run G as log s) :
    handed name log = QueueRun.pushed (queueLog name log) := by
  refine h.invariant (fun log _ => handed name log = QueueRun.pushed (queueLog name log)) rfl ?_
  intro log s a s' evs ih _ hs
  rw [handed_append, queueLog_append, QueueRun.pushed_append, ih, (step_takes hs).carries.handed]

theorem run_drops (name : QueueName) (h : machine.Run G as log s) :
    s.shared.drops name = (QueueRun.returned (queueLog name log)).length := by
  refine h.invariant
    (fun log s => s.shared.drops name = (QueueRun.returned (queueLog name log)).length)
    (by cases name <;> rfl) ?_
  intro log s a s' evs ih _ hs
  rw [(step_takes hs).carries.drops, ih, queueLog_append, QueueRun.returned_append,
    List.length_append]

/-- While a queue is open, its items are those handed in that were neither taken nor
pushed out. -/
theorem run_counted (name : QueueName) (h : machine.Run G as log s) :
    (s.shared.queues name).queue.closed = false →
    (QueueRun.pushed (queueLog name log)).length = (QueueRun.delivered (queueLog name log)).length +
      (QueueRun.returned (queueLog name log)).length + (s.shared.queues name).queue.items.length := by
  refine h.invariant (fun log s => (s.shared.queues name).queue.closed = false →
    (QueueRun.pushed (queueLog name log)).length = (QueueRun.delivered (queueLog name log)).length +
      (QueueRun.returned (queueLog name log)).length + (s.shared.queues name).queue.items.length)
    (fun _ => by cases name <;> rfl) ?_
  intro log s a s' evs ih _ hs hopen
  rw [queueLog_append, QueueRun.pushed_append, QueueRun.delivered_append,
    QueueRun.returned_append, List.length_append, List.length_append, List.length_append]
  rcases (step_takes hs).carries.queue name with ⟨hq, hevs⟩ | ⟨act, hplain, hact⟩
  · rw [hq] at hopen
    rw [hevs, hq, ih hopen]
    rfl
  · obtain ⟨hbefore, hlength⟩ := QueueRun.step_counted hplain hact hopen
    have hcount := ih hbefore
    omega

/-- What a consumer has taken and what waits for it comes from its source, in order
and at most once; and while the queue is open nothing of the source is missing but
what the producer has counted as dropped. -/
theorem intake_carried (h : machine.Run G as log s) (name : QueueName) :
    Stamped (handed name log) (taken name log ++ (s.shared.queues name).queue.items) ∧
      ((s.shared.queues name).queue.closed = false →
        (handed name log).length = (taken name log).length +
          (s.shared.queues name).queue.items.length + s.shared.drops name) := by
  constructor
  · obtain ⟨calls, hrun⟩ := run_queue name h
    have hempty : (freshQueues name).queue.items = [] := by cases name <;> rfl
    rw [run_handed name h]
    refine (QueueRun.run_delivered hempty hrun).sublist (List.Sublist.append_left ?_ _)
    exact List.sublist_append_right _ _
  · intro hopen
    have hcounted := run_counted name h hopen
    rw [run_handed name h, run_drops name h, taken]
    omega

/-- Two datagrams come in, and the decrypt worker takes the first. -/
def intakeActs : List Act :=
  [.main .go, .main (.poll .readable),
    .main (.recv (.ok { peer := ⟨AF_INET, 4433, 1, []⟩, peerSize := 16, packet := [22] })),
    .main .go, .main .go,
    .main (.recv (.ok { peer := ⟨AF_INET, 4433, 2, []⟩, peerSize := 16, packet := [23] })),
    .main .go, .decrypt .go, .decrypt .go, .decrypt .go, .decrypt (.readAll false), .decrypt .go,
    .decrypt .go, .decrypt .go, .decrypt .go, .decrypt .go]

def intakeSample : State × List Event := machine.outcome (fun _ _ => true) intakeActs

theorem intake_carried_sample :
    (taken .udpRx intakeSample.2).map (fun item => (item.1, item.2.packet)) = [(0, [22])] ∧
      Stamped (handed .udpRx intakeSample.2)
        (taken .udpRx intakeSample.2 ++ (intakeSample.1.shared.queues .udpRx).queue.items) := by
  have hrun : machine.Run Machine.Free intakeActs intakeSample.2 intakeSample.1 :=
    Machine.run_outcome (fun _ _ _ => trivial) (by decide +kernel)
  exact ⟨by decide +kernel, (intake_carried hrun .udpRx).1⟩

theorem run_attentive (h : machine.Run G as log s) : s.Attentive as.length :=
  h.counted (fun k _ s => s.Attentive k) start_attentive fun hs _ hstep =>
    (step_takes hstep).attentive hs

theorem generation_of_asleep {name : QueueName} {observed : UInt64}
    (h : s.shared.changed name observed = false) : s.shared.generation name = observed := by
  obtain ⟨-, hgeneration⟩ := Bool.or_eq_false_iff.mp h
  exact not_not.mp (of_decide_eq_false hgeneration)

/-- Neither consumer oversleeps.  When the encrypt worker sleeps, no packet waits for
it; when the decrypt worker sleeps, no datagram waits for it, and a reload only if
the control worker is about to wake it, or on its way out. -/
theorem nobody_oversleeps (h : machine.Run G as log s) (hshort : as.length < UInt64.size)
    (observed : UInt64) :
    (s.encrypt = .wait observed → s.shared.changed .tunRead observed = false →
      (s.shared.queues .tunRead).queue.items = []) ∧
    (s.decrypt = .wait observed → s.shared.changed .udpRx observed = false →
      (s.shared.queues .udpRx).queue.items = [] ∧
      (s.shared.reloads = 0 ∨ ¬ s.control.Works ∨ ∃ requested, s.control = .change requested ∧
        ∀ call s' evs, step s (.control call) = some (s', evs) →
          s'.shared.changed .udpRx observed = true)) := by
  have hs := run_attentive h
  constructor
  · intro hwait hasleep
    have hsince := hs.encrypt observed (by rw [hwait]; rfl)
    rw [generation_of_asleep hasleep] at hsince
    exact hsince.settled hshort (by rw [hwait]; trivial)
  · intro hwait hasleep
    have hgeneration := generation_of_asleep hasleep
    have hsince := hs.decrypt observed (by rw [hwait]; rfl)
    rw [hgeneration] at hsince
    obtain ⟨hempty, hreloaded⟩ := hsince.settled hshort
    refine ⟨hempty (by rw [hwait]; trivial), ?_⟩
    rcases hreloaded (by rw [hwait]; trivial) with hzero | ⟨requested, hchange⟩ | hleaving
    · exact .inl hzero
    · refine .inr (.inr ⟨requested, hchange, fun call s' evs hstep => ?_⟩)
      cases step_takes hstep with
      | control hcontrol =>
          rw [hchange] at hcontrol
          rw [Shared.changed, controlStep_change hcontrol, hgeneration, Bool.or_eq_true,
            decide_eq_true_eq]
          exact .inr fun hsame => by simp at hsame
    · exact .inr (.inl hleaving)

/-- The control worker sends a reload while the decrypt worker sleeps. -/
def oversleepActs : List Act :=
  [.encrypt .go, .encrypt .go, .encrypt .go, .encrypt .go, .encrypt (.flushed false), .encrypt .go,
    .encrypt .go, .decrypt .go, .decrypt .go, .decrypt .go, .decrypt (.readAll false), .decrypt .go,
    .decrypt .go, .decrypt .go, .decrypt .go, .decrypt .go, .control .go, .control .go,
    .control (.passed (.ok ())), .control (.decide (.accepted true)), .control .go, .control .go,
    .control .go]

def oversleepSample : State × List Event := machine.outcome (fun _ _ => true) oversleepActs

theorem nobody_oversleeps_sample :
    (oversleepSample.1.shared.queues .tunRead).queue.items = [] ∧
      (oversleepSample.1.shared.queues .udpRx).queue.items = [] ∧
      oversleepSample.1.shared.reloads = 1 := by
  have hrun : machine.Run Machine.Free oversleepActs oversleepSample.2 oversleepSample.1 :=
    Machine.run_outcome (fun _ _ _ => trivial) (by decide +kernel)
  obtain ⟨hencrypt, hdecrypt⟩ := nobody_oversleeps hrun (by decide) 0
  exact ⟨hencrypt rfl (by decide +kernel), (hdecrypt rfl (by decide +kernel)).1, by decide +kernel⟩

end Runs

end ServerThreads

end AutobricksVpn
