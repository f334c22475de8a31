/-
# `AutobricksVpn.Server.Wakeup` — no packet is left behind by a sleeping worker

Each of the two workers is the consumer of an event count, with the same six
threads as producers: the queues of the encrypt worker are that of the TUN
device and the plaintext queues (`State.forEncrypt`), those of the UDP writer
the queues of encrypted datagrams (`State.forUdpWrite`).  Every action is a
sequence of moves of both (`step_forEncrypt`, `step_forUdpWrite`), so what holds
of event counts holds of the workers.

A session that is refused for capacity has got its answer by then, and nobody
is notified of it; the record goes in the same section under the lock, and the
answer with it (`Move.retract`).
-/
import AutobricksVpn.Server.SendPath

namespace AutobricksVpn

namespace SendPath

open Eventcount

/-! ## The workers as consumers -/

/-- What the encrypt worker has read and seen: the TUN queue empty when
`try_pop` fails, and the plaintext queues when it finds nothing pending. -/
def EncryptPc.phase : EncryptPc → Phase PlainQueue
  | top | stopped => .working
  | tryPop observed | lockRoute observed _ | route observed _ | notifyRouted observed
  | swapRetry observed | lockRetry observed | retry observed =>
      .observed observed.count fun _ => False
  | lockFlush observed | flush observed => .observed observed.count fun key => key = .tunRead
  | notifyFlushed observed pending | decide observed pending =>
      .observed observed.count fun key => pending = false ∨ key = .tunRead
  | wait observed => .observed observed.count fun _ => True
  | asleep observed => .asleep observed.count

def UdpWritePc.phase : UdpWritePc → Phase Nat
  | top | stopped => .working
  | lockDrain observed | drain observed | drained observed _ _ =>
      .observed observed.count fun _ => False
  | idle observed | wait observed => .observed observed.count fun _ => True
  | asleep observed => .asleep observed.count

/-- The queue of the session with the serial number is not empty. -/
def HasItems {α : Type} (queue : SessionQueues → Queue α) (sessions : List SessionQueues)
    (serial : Nat) : Prop :=
  ∃ x ∈ sessions, x.serial = serial ∧ (queue x).items ≠ []

namespace State

def pendingPlain (s : State) : PlainQueue → Prop
  | .tunRead => s.tunReadQueue.queue.items ≠ []
  | .rawTx serial => HasItems SessionQueues.rawTxQueue s.sessions serial

def forEncrypt (s : State) : Eventcount.State Thread PlainQueue :=
  { count := s.tunReadQueue.count, phase := s.encrypt.phase, call := s.tunCall
    pending := s.pendingPlain }

def forUdpWrite (s : State) : Eventcount.State Thread Nat :=
  { count := s.signal.generation.count, phase := s.udpWrite.phase, call := s.signalCall
    pending := HasItems SessionQueues.encTxQueue s.sessions }

end State

/-! ## Queues -/

section Queues

variable {α : Type} {queue : SessionQueues → Queue α} {s : State} {serial n : Nat}
  {f : SessionQueues → SessionQueues} {sessions : List SessionQueues}

/-- A change that fills no queue of this kind. -/
theorem hasItems_modify (hserial : ∀ x, (f x).serial = x.serial)
    (hempty : ∀ x, (queue x).items = [] → (queue (f x)).items = []) :
    HasItems queue (s.modifySession serial f).sessions n → HasItems queue s.sessions n := by
  rintro ⟨y, hy, hn, hitems⟩
  obtain ⟨x, hx, rfl⟩ := List.mem_map.mp hy
  by_cases hthis : x.serial = serial
  · rw [if_pos hthis] at hn hitems
    exact ⟨x, hx, (hserial x).symm.trans hn, mt (hempty x) hitems⟩
  · rw [if_neg hthis] at hn hitems
    exact ⟨x, hx, hn, hitems⟩

/-- A change may fill the queue of the session it is made to. -/
theorem hasItems_modify_or (hserial : ∀ x, (f x).serial = x.serial) :
    HasItems queue (s.modifySession serial f).sessions n →
    HasItems queue s.sessions n ∨ n = serial := by
  rintro ⟨y, hy, hn, hitems⟩
  obtain ⟨x, hx, rfl⟩ := List.mem_map.mp hy
  by_cases hthis : x.serial = serial
  · rw [if_pos hthis] at hn
    exact .inr (hn.symm.trans ((hserial x).trans hthis))
  · rw [if_neg hthis] at hn hitems
    exact .inl ⟨x, hx, hn, hitems⟩

theorem hasItems_remove :
    HasItems queue (s.removeSession serial).sessions n →
    HasItems queue s.sessions n ∧ n ≠ serial := by
  rintro ⟨x, hx, rfl, hitems⟩
  obtain ⟨hx, hne⟩ := List.mem_filter.mp hx
  exact ⟨⟨x, hx, rfl, hitems⟩, of_decide_eq_true hne⟩

theorem hasItems_create {x : SessionQueues} :
    (queue x).items = [] → HasItems queue (sessions ++ [x]) n → HasItems queue sessions n := by
  rintro hx ⟨y, hy, hn, hitems⟩
  rcases List.mem_append.mp hy with hy | hy
  · exact ⟨y, hy, hn, hitems⟩
  · rw [List.mem_singleton.mp hy] at hitems
    exact absurd hx hitems

theorem isEmpty_iff {q : Queue α} : q.isEmpty = true ↔ q.items = [] := by
  rw [Queue.isEmpty, Queue.len, beq_iff_eq, List.length_eq_zero_iff]

theorem not_hasItems :
    sessions.any (fun x => !(queue x).isEmpty) = false → ¬ HasItems queue sessions n := by
  rintro hany ⟨x, hx, -, hitems⟩
  have hempty := List.any_eq_false.mp hany x hx
  simp only [Bool.not_eq_true', Bool.not_eq_false] at hempty
  exact hitems (isEmpty_iff.mp hempty)

theorem items_dropFront {q : Queue α} : q.items = [] → q.dropFront.items = [] := by
  intro h
  rw [Queue.dropFront_items, h]
  rfl

theorem count_of_tryPop {q q' : WatchedQueue α} {item : α} :
    q.tryPop = some (item, q') → q'.count = q.count ∧ q.queue.items ≠ [] := by
  intro h
  unfold WatchedQueue.tryPop at h
  split at h
  · rename_i hpop
    obtain ⟨-, rfl⟩ := Prod.mk.inj (Option.some.inj h)
    refine ⟨rfl, fun hnil => ?_⟩
    rw [Queue.tryPop, hnil] at hpop
    dsimp only at hpop
    split at hpop <;> cases hpop
  · cases h

theorem items_of_tryPop {q : WatchedQueue α} : q.tryPop = none → q.queue.items = [] := by
  intro h
  unfold WatchedQueue.tryPop at h
  split at h
  · cases h
  · rename_i hpop
    unfold Queue.tryPop at hpop
    split at hpop
    · cases hpop
    · assumption

theorem count_of_push {q q' : WatchedQueue α} {item : α} :
    q.push item = some q' → q'.count = q.count + 1 := by
  intro h
  unfold WatchedQueue.push at h
  split at h
  · rw [← Option.some.inj h]
  · cases h

theorem spec_of_close {q q' : WatchedQueue α} :
    q.close = some q' → q'.count = q.count + 1 ∧ q'.queue.items = [] := by
  intro h
  unfold WatchedQueue.close at h
  split at h
  · cases h
  · rw [← Option.some.inj h]
    exact ⟨rfl, Queue.close_items _⟩

end Queues

/-! ## Steps are moves -/

/-- Moves of an event count with a counter of 64 bits. -/
abbrev Moves {κ : Type} : Eventcount.State Thread κ → Eventcount.State Thread κ → Prop :=
  Relation.ReflTransGen (Eventcount.Move UInt64.size)

/-- A worker attempts to sleep on a reading that is less than `2 ^ 64` notifications old. -/
def Timely (s : State) : Action → Prop
  | .encrypt .wait => ∀ observed, s.encrypt = .wait observed →
      s.tunReadQueue.count - observed.count < UInt64.size
  | .udpWrite .wait => ∀ observed, s.udpWrite = .wait observed →
      s.signal.generation.count - observed.count < UInt64.size
  | _ => True

section Encrypt

variable {s s' : State} {t : Thread}

theorem isIdle_iff {κ : Type} {call : Call κ} : call.isIdle = true ↔ call = .idle := by
  cases call <;> simp [Call.isIdle]

theorem free_iff : s.free t = true ↔ s.tunCall t = .idle ∧ s.signalCall t = .idle := by
  rw [State.free, Bool.and_eq_true, isIdle_iff, isIdle_iff]

/-- The same queues are pending. -/
theorem forEncrypt_same :
    s'.tunReadQueue = s.tunReadQueue → s'.sessions = s.sessions →
    s'.encrypt.phase = s.encrypt.phase → s'.tunCall = s.tunCall →
    Moves s.forEncrypt s'.forEncrypt := by
  intro hqueue hsessions hphase hcall
  refine moves_work (congrArg WatchedQueue.count hqueue) hphase hcall fun key hkey => .inl ?_
  cases key with
  | tunRead =>
      have hitems : s'.tunReadQueue.queue.items ≠ [] := hkey
      rw [hqueue] at hitems
      exact hitems
  | rawTx n =>
      have hitems : HasItems SessionQueues.rawTxQueue s'.sessions n := hkey
      rw [hsessions] at hitems
      exact hitems

/-- Sessions change, and no plaintext queue fills. -/
theorem forEncrypt_sessions {sessions : List SessionQueues} :
    (∀ n, HasItems SessionQueues.rawTxQueue sessions n →
      HasItems SessionQueues.rawTxQueue s.sessions n) →
    Moves s.forEncrypt { s with sessions := sessions }.forEncrypt := by
  intro hsub
  refine moves_work rfl rfl rfl fun key hkey => .inl ?_
  cases key with
  | tunRead => exact hkey
  | rawTx n => exact hsub n hkey

theorem EncryptPc.phase_woken {pc : EncryptPc} : pc.woken.phase = pc.phase.woken := by
  cases pc <;> rfl

theorem holds_free : s.holds t = true → s.tunCall t = .idle ∧ s.signalCall t = .idle := by
  intro h
  rw [State.holds, Bool.and_eq_true] at h
  exact free_iff.mp h.2

/-- `push` enqueues and increments at once. -/
theorem tunPush_forEncrypt {queue : WatchedQueue Packet} {packet : Packet} :
    s.tunReadQueue.push packet = some queue → s.tunCall .tunRead = .idle →
    Moves s.forEncrypt { s with
      tunReadQueue := queue
      tunCall := Function.update s.tunCall .tunRead (.counted (some .tunRead)) }.forEncrypt := by
  intro hpush hidle
  refine moves_push (count_of_push hpush) rfl rfl (fun key hkey => ?_) hidle
  cases key with
  | tunRead => exact .inr rfl
  | rawTx n => exact .inl hkey

/-- `close` empties the queue and increments. -/
theorem tunClose_forEncrypt {queue : WatchedQueue Packet} :
    s.tunReadQueue.close = some queue → s.tunCall t = .idle →
    Moves s.forEncrypt { s with
      tunReadQueue := queue
      tunCall := Function.update s.tunCall t (.counted none) }.forEncrypt := by
  intro hclose hidle
  obtain ⟨hcount, hitems⟩ := spec_of_close hclose
  refine moves_increment hcount rfl rfl (fun key hkey => ?_) (.inl ⟨hidle, rfl⟩)
  cases key with
  | tunRead => exact absurd hitems hkey
  | rawTx n => exact hkey

/-- A packet is taken from the TUN queue. -/
theorem popped_forEncrypt {observed : Reading} {packet : Packet} {queue : WatchedQueue Packet} :
    s.encrypt = .tryPop observed → s.tunReadQueue.tryPop = some (packet, queue) →
    Moves s.forEncrypt { s with
      tunReadQueue := queue, encrypt := .lockRoute observed packet }.forEncrypt := by
  intro hpc htry
  have hphase : s.encrypt.phase = .observed observed.count fun _ => False := by
    rw [hpc]
    rfl
  obtain ⟨hcount, hitems⟩ := count_of_tryPop htry
  refine moves_work hcount hphase.symm rfl fun key hkey => .inl ?_
  cases key with
  | tunRead => exact hitems
  | rawTx n => exact hkey

/-- There is none left. -/
theorem emptied_forEncrypt {observed : Reading} :
    s.encrypt = .tryPop observed → s.tunReadQueue.tryPop = none →
    Moves s.forEncrypt { s with encrypt := .lockFlush observed }.forEncrypt := by
  intro hpc htry
  have hphase : s.encrypt.phase = .observed observed.count fun _ => False := by
    rw [hpc]
    rfl
  refine moves_look rfl rfl rfl hphase rfl fun key hkey => .inr ?_
  rw [hkey]
  exact fun hitems => hitems (items_of_tryPop htry)

/-- Once the flush is over, the plaintext queues with no packet left are seen empty. -/
theorem flushed_forEncrypt {observed : Reading} :
    s.encrypt = .flush observed →
    Moves s.forEncrypt { s with
      lock := none
      encrypt := .notifyFlushed observed
        (s.sessions.any fun x => !x.rawTxQueue.isEmpty) }.forEncrypt := by
  intro hpc
  have hphase : s.encrypt.phase = .observed observed.count fun key => key = .tunRead := by
    rw [hpc]
    rfl
  refine moves_look rfl rfl rfl hphase rfl fun key hkey => ?_
  cases key with
  | tunRead => exact .inl rfl
  | rawTx n => exact .inr (not_hasItems (hkey.resolve_right (by simp)))

/-- The worker goes on to `wait_for_change` when nothing was pending. -/
theorem decided_forEncrypt {observed : Reading} :
    s.encrypt = .decide observed false →
    Moves s.forEncrypt { s with encrypt := .wait observed }.forEncrypt := by
  intro hpc
  have hphase : s.encrypt.phase =
      .observed observed.count fun key => false = false ∨ key = .tunRead := by
    rw [hpc]
    rfl
  exact moves_look rfl rfl rfl hphase rfl fun key _ => .inl (.inl rfl)

/-- It sleeps only while the generation is the one it has read. -/
theorem wait_forEncrypt {observed : Reading} :
    s.encrypt = .wait observed → s.tunReadQueue.queue.waitForChange observed.value = none →
    s.tunReadQueue.count - observed.count < UInt64.size →
    Moves s.forEncrypt { s with encrypt := .asleep observed }.forEncrypt := by
  intro hpc hwait hfew
  have hvalue : s.tunReadQueue.generation.value = observed.value := by
    unfold Queue.waitForChange at hwait
    split at hwait
    · rename_i hsame
      simp only [Bool.and_eq_true, beq_iff_eq] at hsame
      exact hsame.1
    · cases hwait
  have hphase : s.encrypt.phase = .observed observed.count fun _ => True := by
    rw [hpc]
    rfl
  have hmove : Eventcount.Move UInt64.size s.forEncrypt
      { s.forEncrypt with phase := .asleep observed.count } :=
    .sleep hphase (fun _ => trivial) (Reading.mod_eq hvalue) hfew
  exact .single hmove

theorem encryptStep_forEncrypt {a : EncryptAction} :
    encryptStep s a = some s' → Timely s (.encrypt a) → Moves s.forEncrypt s'.forEncrypt := by
  intro h htimely
  have hpop : ∀ x : SessionQueues, x.rawTxQueue.items = [] → x.popPlain.rawTxQueue.items = [] :=
    fun x => items_dropFront
  unfold encryptStep at h
  split at h
  case h_1 =>
    -- observe
    split at h
    · obtain rfl := Option.some.inj h
      exact .single .observe
    · obtain rfl := Option.some.inj h
      exact moves_leave rfl rfl rfl rfl
  case h_2 =>
    rename_i hpc
    split at h
    · rename_i htry
      obtain rfl := Option.some.inj h
      exact popped_forEncrypt hpc htry
    · rename_i htry
      obtain rfl := Option.some.inj h
      exact emptied_forEncrypt hpc htry
  case h_3 | h_4 | h_5 | h_6 =>
    -- a packet is skipped, or the lock is taken
    rename_i hpc
    split at h
    · obtain rfl := Option.some.inj h
      exact forEncrypt_same rfl rfl (by rw [hpc]; rfl) rfl
    · cases h
  case h_7 =>
    -- the worker enqueues before it has looked
    rename_i hpc
    obtain rfl := Option.some.inj h
    refine moves_work rfl rfl rfl fun key _ => .inr ?_
    rw [show s.forEncrypt.phase = s.encrypt.phase from rfl, hpc]
    exact id
  case h_8 | h_9 | h_10 =>
    -- popPlain
    obtain rfl := Option.some.inj h
    exact forEncrypt_sessions fun n => hasItems_modify (fun _ => rfl) hpop
  case h_11 | h_12 | h_14 | h_16 =>
    -- the lock is given back, or the UDP writer is notified
    rename_i hpc
    obtain rfl := Option.some.inj h
    exact forEncrypt_same rfl rfl (by rw [hpc]; rfl) rfl
  case h_13 =>
    rename_i hpc
    obtain rfl := Option.some.inj h
    exact flushed_forEncrypt hpc
  case h_15 =>
    -- swapRetry
    rename_i hpc
    obtain rfl := Option.some.inj h
    refine forEncrypt_same rfl rfl ?_ rfl
    rw [hpc]
    dsimp only
    split <;> rfl
  case h_17 =>
    -- decide
    rename_i pending hpc
    split at h
    · obtain rfl := Option.some.inj h
      exact moves_leave rfl rfl rfl rfl
    · cases pending with
      | true =>
          obtain rfl := Option.some.inj h
          exact moves_leave rfl rfl rfl rfl
      | false =>
          obtain rfl := Option.some.inj h
          exact decided_forEncrypt hpc
  case h_18 =>
    -- wait
    rename_i observed hpc
    split at h
    · rename_i hwait
      obtain rfl := Option.some.inj h
      exact wait_forEncrypt hpc hwait (htimely observed hpc)
    · obtain rfl := Option.some.inj h
      exact moves_leave rfl rfl rfl rfl
  case h_19 =>
    -- rouse
    rename_i observed hpc
    obtain rfl := Option.some.inj h
    have hmove : Eventcount.Move UInt64.size s.forEncrypt
        { s.forEncrypt with phase := s.encrypt.phase.woken } := .rouse
    rw [hpc] at hmove
    exact .single hmove
  case h_20 => cases h

/-- The UDP writer takes no plaintext, and notifies the encrypt worker. -/
theorem udpWriteStep_forEncrypt {a : UdpWriteAction} :
    udpWriteStep s a = some s' → s.free .udpWrite = true → Moves s.forEncrypt s'.forEncrypt := by
  intro h hfree
  have hidle := (free_iff.mp hfree).1
  unfold udpWriteStep at h
  split at h
  case h_3 =>
    -- a datagram is sent
    obtain rfl := Option.some.inj h
    exact forEncrypt_sessions fun n => hasItems_modify (fun _ => rfl) fun _ => id
  case h_5 =>
    -- the encrypt worker is notified
    split at h
    · obtain rfl := Option.some.inj h
      exact .single (.increment (.inl ⟨hidle, rfl⟩))
    · cases h
  case h_10 => cases h
  all_goals
    repeat' split at h
    all_goals first
      | obtain rfl := Option.some.inj h
        exact .refl
      | cases h

theorem step_forEncrypt {a : Action} :
    step s a = some s' → Timely s a → Moves s.forEncrypt s'.forEncrypt := by
  intro h htimely
  cases a with
  | incrementTun t =>
      simp only [step] at h
      split at h
      · rename_i key hcall
        obtain rfl := Option.some.inj h
        exact .single (.increment (.inr ⟨key, hcall, rfl⟩))
      · cases h
  | wakeEncrypt t =>
      simp only [step] at h
      split at h
      · rename_i key hcall
        obtain rfl := Option.some.inj h
        have hmove : Eventcount.Move UInt64.size s.forEncrypt { s.forEncrypt with
            phase := s.encrypt.phase.woken, call := Function.update s.tunCall t .idle } :=
          .wake hcall
        rw [← EncryptPc.phase_woken] at hmove
        exact .single hmove
      · cases h
  | tunPush packet =>
      simp only [step] at h
      split at h
      · rename_i hfree
        obtain ⟨queue, hpush, rfl⟩ := Option.map_eq_some_iff.mp h
        exact tunPush_forEncrypt hpush (free_iff.mp hfree).1
      · cases h
  | tunClose t =>
      simp only [step] at h
      split at h
      · rename_i hmay
        split at h
        · rename_i queue hclose
          obtain rfl := Option.some.inj h
          exact tunClose_forEncrypt hclose (free_iff.mp hmay.2).1
        · obtain rfl := Option.some.inj h
          exact .refl
      · cases h
  | notifyTun t =>
      simp only [step] at h
      split at h
      · rename_i hmay
        obtain rfl := Option.some.inj h
        exact .single (.increment (.inl ⟨(free_iff.mp hmay.2).1, rfl⟩))
      · cases h
  | dtlsSend t serial datagram =>
      simp only [step] at h
      split at h
      · obtain rfl := Option.some.inj h
        exact forEncrypt_sessions fun n => hasItems_modify (fun _ => rfl) fun _ => id
      · cases h
  | queuePlain serial packet =>
      simp only [step] at h
      split at h
      · rename_i hholds
        obtain rfl := Option.some.inj h
        refine .single (.enqueue (holds_free hholds).1 fun key hkey => ?_)
        cases key with
        | tunRead => exact .inl hkey
        | rawTx n =>
            refine (hasItems_modify_or ?_ hkey).imp_right fun hn => by rw [hn]
            exact fun _ => rfl
      · cases h
  | refuse serial =>
      simp only [step] at h
      split at h
      · rename_i queued hcall
        split at h
        · rename_i hthis
          obtain rfl := Option.some.inj h
          rw [hthis] at hcall
          refine .single (.retract hcall fun key hkey => ?_)
          cases key with
          | tunRead => exact ⟨hkey, by simp⟩
          | rawTx n =>
              obtain ⟨hkey, hne⟩ := hasItems_remove hkey
              exact ⟨hkey, by simpa using hne⟩
        · cases h
      · cases h
  | removeSession t serial =>
      simp only [step] at h
      split at h
      · obtain rfl := Option.some.inj h
        exact forEncrypt_sessions fun n hn => (hasItems_remove hn).1
      · cases h
  | createSession =>
      simp only [step] at h
      split at h
      · obtain rfl := Option.some.inj h
        exact forEncrypt_sessions fun n => hasItems_create rfl
      · cases h
  | encrypt a =>
      simp only [step] at h
      split at h
      · exact encryptStep_forEncrypt h htimely
      · cases h
  | udpWrite a =>
      simp only [step] at h
      split at h
      · rename_i hfree
        exact udpWriteStep_forEncrypt h hfree
      · cases h
  | deactivate | storeRetry =>
      obtain rfl := Option.some.inj h
      exact .refl
  | incrementSignal | wakeUdpWrite | notifySignal | lock | unlock =>
      simp only [step] at h
      split at h
      · obtain rfl := Option.some.inj h
        exact .refl
      · cases h

end Encrypt

section UdpWrite

variable {s s' : State} {t : Thread}

/-- The same queues are pending. -/
theorem forUdpWrite_same :
    s'.signal = s.signal → s'.sessions = s.sessions → s'.udpWrite.phase = s.udpWrite.phase →
    s'.signalCall = s.signalCall → Moves s.forUdpWrite s'.forUdpWrite := by
  intro hsignal hsessions hphase hcall
  refine moves_work (congrArg (·.generation.count) hsignal) hphase hcall fun key hkey => .inl ?_
  have hitems : HasItems SessionQueues.encTxQueue s'.sessions key := hkey
  rw [hsessions] at hitems
  exact hitems

/-- Sessions change, and no queue of datagrams fills. -/
theorem forUdpWrite_sessions {sessions : List SessionQueues} :
    (∀ n, HasItems SessionQueues.encTxQueue sessions n →
      HasItems SessionQueues.encTxQueue s.sessions n) →
    Moves s.forUdpWrite { s with sessions := sessions }.forUdpWrite :=
  fun hsub => moves_work rfl rfl rfl fun key hkey => .inl (hsub key hkey)

theorem UdpWritePc.phase_woken {pc : UdpWritePc} : pc.woken.phase = pc.phase.woken := by
  cases pc <;> rfl

/-- The encrypt worker notifies after it has held the lock, whatever it has enqueued. -/
theorem encryptStep_forUdpWrite {a : EncryptAction} :
    encryptStep s a = some s' → s.free .encrypt = true → Moves s.forUdpWrite s'.forUdpWrite := by
  intro h hfree
  have hidle := (free_iff.mp hfree).2
  unfold encryptStep at h
  split at h
  case h_7 | h_8 | h_9 | h_10 =>
    -- a plaintext packet is enqueued, or taken out
    obtain rfl := Option.some.inj h
    exact forUdpWrite_sessions fun n => hasItems_modify (fun _ => rfl) fun _ => id
  case h_14 | h_16 =>
    -- the UDP writer is notified
    obtain rfl := Option.some.inj h
    exact .single (.increment (.inl ⟨hidle, rfl⟩))
  case h_20 => cases h
  all_goals
    repeat' split at h
    all_goals first
      | obtain rfl := Option.some.inj h
        exact .refl
      | cases h

/-- The writer looks at the queues once more, and they are empty. -/
theorem rechecked_forUdpWrite {observed : Reading} {socketBlocked sentAny : Bool} :
    s.udpWrite = .drained observed socketBlocked sentAny →
    (s.sessions.any fun x => !x.encTxQueue.isEmpty) = false →
    Moves s.forUdpWrite { s with udpWrite := .idle observed }.forUdpWrite := by
  intro hpc hnone
  have hphase : s.udpWrite.phase = .observed observed.count fun _ => False := by
    rw [hpc]
    rfl
  exact moves_look rfl rfl rfl hphase rfl fun key _ => .inr (not_hasItems hnone)

/-- It sleeps only while the generation is the one it has read. -/
theorem wait_forUdpWrite {observed : Reading} :
    s.udpWrite = .wait observed → s.signal.wait observed = none →
    s.signal.generation.count - observed.count < UInt64.size →
    Moves s.forUdpWrite { s with udpWrite := .asleep observed }.forUdpWrite := by
  intro hpc hwait hfew
  have hvalue : s.signal.generation.value = observed.value := by
    unfold WorkerSignal.wait at hwait
    split at hwait
    · assumption
    · cases hwait
  have hphase : s.udpWrite.phase = .observed observed.count fun _ => True := by
    rw [hpc]
    rfl
  have hmove : Eventcount.Move UInt64.size s.forUdpWrite
      { s.forUdpWrite with phase := .asleep observed.count } :=
    .sleep hphase (fun _ => trivial) (Reading.mod_eq hvalue) hfew
  exact .single hmove

theorem udpWriteStep_forUdpWrite {a : UdpWriteAction} :
    udpWriteStep s a = some s' → Timely s (.udpWrite a) → Moves s.forUdpWrite s'.forUdpWrite := by
  intro h htimely
  unfold udpWriteStep at h
  split at h
  case h_1 =>
    -- observe
    split at h
    · obtain rfl := Option.some.inj h
      exact .single .observe
    · obtain rfl := Option.some.inj h
      exact moves_leave rfl rfl rfl rfl
  case h_2 =>
    -- lock
    rename_i hpc
    split at h
    · obtain rfl := Option.some.inj h
      exact forUdpWrite_same rfl rfl (by rw [hpc]; rfl) rfl
    · cases h
  case h_3 =>
    -- popEncrypted
    obtain rfl := Option.some.inj h
    exact forUdpWrite_sessions fun n => hasItems_modify (fun _ => rfl) fun _ => items_dropFront
  case h_4 =>
    -- unlock
    rename_i hpc
    obtain rfl := Option.some.inj h
    exact forUdpWrite_same rfl rfl (by rw [hpc]; rfl) rfl
  case h_5 =>
    -- notifyEncrypt
    split at h
    · obtain rfl := Option.some.inj h
      exact moves_leave rfl rfl rfl rfl
    · cases h
  case h_6 =>
    -- recheck
    rename_i hpc
    split at h
    · split at h
      · obtain rfl := Option.some.inj h
        exact moves_leave rfl rfl rfl rfl
      · rename_i hnone
        obtain rfl := Option.some.inj h
        exact rechecked_forUdpWrite hpc (Bool.eq_false_iff.mpr hnone)
    · cases h
  case h_7 =>
    -- decide
    rename_i hpc
    split at h
    · obtain rfl := Option.some.inj h
      exact forUdpWrite_same rfl rfl (by rw [hpc]; rfl) rfl
    · obtain rfl := Option.some.inj h
      exact moves_leave rfl rfl rfl rfl
  case h_8 =>
    -- wait
    rename_i observed hpc
    split at h
    · rename_i hwait
      obtain rfl := Option.some.inj h
      exact wait_forUdpWrite hpc hwait (htimely observed hpc)
    · obtain rfl := Option.some.inj h
      exact moves_leave rfl rfl rfl rfl
  case h_9 =>
    -- rouse
    rename_i observed hpc
    obtain rfl := Option.some.inj h
    have hmove : Eventcount.Move UInt64.size s.forUdpWrite
        { s.forUdpWrite with phase := s.udpWrite.phase.woken } := .rouse
    rw [hpc] at hmove
    exact .single hmove
  case h_10 => cases h

theorem step_forUdpWrite {a : Action} :
    step s a = some s' → Timely s a → Moves s.forUdpWrite s'.forUdpWrite := by
  intro h htimely
  cases a with
  | incrementSignal t =>
      simp only [step] at h
      split at h
      · rename_i key hcall
        obtain rfl := Option.some.inj h
        exact .single (.increment (.inr ⟨key, hcall, rfl⟩))
      · cases h
  | wakeUdpWrite t =>
      simp only [step] at h
      split at h
      · rename_i key hcall
        obtain rfl := Option.some.inj h
        have hmove : Eventcount.Move UInt64.size s.forUdpWrite { s.forUdpWrite with
            phase := s.udpWrite.phase.woken, call := Function.update s.signalCall t .idle } :=
          .wake hcall
        rw [← UdpWritePc.phase_woken] at hmove
        exact .single hmove
      · cases h
  | notifySignal t =>
      simp only [step] at h
      split at h
      · rename_i hmay
        obtain rfl := Option.some.inj h
        exact .single (.increment (.inl ⟨(free_iff.mp hmay.2).2, rfl⟩))
      · cases h
  | dtlsSend t serial datagram =>
      simp only [step] at h
      split at h
      · rename_i hmay
        obtain rfl := Option.some.inj h
        refine .single (.enqueue (holds_free hmay.2).2 fun key hkey => ?_)
        refine hasItems_modify_or ?_ hkey
        exact fun _ => rfl
      · cases h
  | queuePlain serial packet =>
      simp only [step] at h
      split at h
      · obtain rfl := Option.some.inj h
        exact forUdpWrite_sessions fun n => hasItems_modify (fun _ => rfl) fun _ => id
      · cases h
  | refuse serial =>
      simp only [step] at h
      split at h
      · split at h
        · obtain rfl := Option.some.inj h
          exact forUdpWrite_sessions fun n hn => (hasItems_remove hn).1
        · cases h
      · cases h
  | removeSession t serial =>
      simp only [step] at h
      split at h
      · obtain rfl := Option.some.inj h
        exact forUdpWrite_sessions fun n hn => (hasItems_remove hn).1
      · cases h
  | createSession =>
      simp only [step] at h
      split at h
      · obtain rfl := Option.some.inj h
        exact forUdpWrite_sessions fun n => hasItems_create rfl
      · cases h
  | encrypt a =>
      simp only [step] at h
      split at h
      · rename_i hfree
        exact encryptStep_forUdpWrite h hfree
      · cases h
  | udpWrite a =>
      simp only [step] at h
      split at h
      · exact udpWriteStep_forUdpWrite h htimely
      · cases h
  | tunPush packet =>
      simp only [step] at h
      split at h
      · obtain ⟨queue, -, rfl⟩ := Option.map_eq_some_iff.mp h
        exact .refl
      · cases h
  | tunClose t =>
      simp only [step] at h
      split at h
      · split at h
        · obtain rfl := Option.some.inj h
          exact .refl
        · obtain rfl := Option.some.inj h
          exact .refl
      · cases h
  | deactivate | storeRetry =>
      obtain rfl := Option.some.inj h
      exact .refl
  | incrementTun | wakeEncrypt | notifyTun | lock | unlock =>
      simp only [step] at h
      split at h
      · obtain rfl := Option.some.inj h
        exact .refl
      · cases h

end UdpWrite

/-! ## Runs -/

/-- Both workers' event counts are sound. -/
def Sound (s : State) : Prop := Eventcount.Sound s.forEncrypt ∧ Eventcount.Sound s.forUdpWrite

theorem sound_start : Sound State.start := by
  refine ⟨⟨fun count hc => ?_, fun count hc => ?_, fun hasleep => hasleep.elim⟩,
    ⟨fun count hc => ?_, fun count hc => ?_, fun hasleep => hasleep.elim⟩⟩
  all_goals cases hc

theorem sound_of_run {as : List Action} {tr : List Empty} {s : State} :
    machine.Run Timely as tr s → Sound s :=
  Machine.Run.invariant (fun _ => Sound) sound_start fun hsound htimely hstep => by
    obtain ⟨s₁, hs₁, heq⟩ := Option.map_eq_some_iff.mp hstep
    obtain ⟨rfl, -⟩ := Prod.mk.inj heq
    exact ⟨sound_of_moves (step_forEncrypt hs₁ htimely) hsound.1,
      sound_of_moves (step_forUdpWrite hs₁ htimely) hsound.2⟩

/-- While the encrypt worker sleeps, a packet is in the TUN queue or in the
plaintext queue of a session only if its producer has yet to finish the
notification; and so is a datagram in the queue of a session while the UDP
writer sleeps. -/
theorem no_lost_wakeup {as : List Action} {tr : List Empty} {s : State} :
    machine.Run Timely as tr s →
    (∀ observed, s.encrypt = .asleep observed →
      (s.tunReadQueue.queue.items = [] ∨ ∃ t, (s.tunCall t).Owes .tunRead) ∧
      ∀ x ∈ s.sessions, x.rawTxQueue.items = [] ∨ ∃ t, (s.tunCall t).Owes (.rawTx x.serial)) ∧
    (∀ observed, s.udpWrite = .asleep observed →
      ∀ x ∈ s.sessions, x.encTxQueue.items = [] ∨ ∃ t, (s.signalCall t).Owes x.serial) := by
  intro hr
  obtain ⟨hencrypt, hudpWrite⟩ := sound_of_run hr
  refine ⟨fun observed hpc => ?_, fun observed hpc x hx => ?_⟩
  · have hasleep : s.forEncrypt.phase.IsAsleep := by
      rw [show s.forEncrypt.phase = s.encrypt.phase from rfl, hpc]
      exact trivial
    have howes := hencrypt.asleep hasleep
    refine ⟨?_, fun x hx => ?_⟩
    · exact or_iff_not_imp_left.mpr (howes .tunRead)
    · exact or_iff_not_imp_left.mpr fun hitems =>
        howes (.rawTx x.serial) ⟨x, hx, rfl, hitems⟩
  · have hasleep : s.forUdpWrite.phase.IsAsleep := by
      rw [show s.forUdpWrite.phase = s.udpWrite.phase from rfl, hpc]
      exact trivial
    exact or_iff_not_imp_left.mpr fun hitems =>
      hudpWrite.asleep hasleep x.serial ⟨x, hx, rfl, hitems⟩

/-- `Timely`, decidably, for computing examples. -/
def timely (s : State) : Action → Bool
  | .encrypt .wait =>
      match s.encrypt with
      | .wait observed => decide (s.tunReadQueue.count - observed.count < UInt64.size)
      | _ => true
  | .udpWrite .wait =>
      match s.udpWrite with
      | .wait observed => decide (s.signal.generation.count - observed.count < UInt64.size)
      | _ => true
  | _ => true

theorem timely_sound (s : State) (a : Action) (h : timely s a = true) : Timely s a := by
  unfold timely at h
  split at h
  · intro observed hpc
    rw [hpc] at h
    exact of_decide_eq_true h
  · intro observed hpc
    rw [hpc] at h
    exact of_decide_eq_true h
  · rename_i hencrypt hudpWrite
    unfold Timely
    split
    · exact absurd rfl hencrypt
    · exact absurd rfl hudpWrite
    · trivial

/-- Both workers go to sleep, the UDP writer with a session listed; then the TUN
reader pushes a packet, and the decrypt worker enqueues a datagram. -/
def bothAsleep : List Action :=
  [.encrypt .observe, .encrypt .tryPop, .encrypt .lock, .encrypt .unlock, .encrypt .notify,
    .wakeUdpWrite .encrypt, .encrypt .decide, .encrypt .wait, .lock .decrypt, .createSession,
    .unlock .decrypt, .udpWrite .observe, .udpWrite .lock, .udpWrite (.unlock false false),
    .udpWrite .recheck, .udpWrite .decide, .udpWrite .wait, .tunPush [69], .lock .decrypt,
    .dtlsSend .decrypt 0 ⟨[22], 0⟩]

/-- The packet and the datagram are there, and so are those who will wake the workers. -/
theorem no_lost_wakeup_bothAsleep :
    ((machine.outcome timely bothAsleep).1.tunReadQueue.queue.items ≠ [] ∧
      ∃ t, ((machine.outcome timely bothAsleep).1.tunCall t).Owes .tunRead) ∧
    ∃ x ∈ (machine.outcome timely bothAsleep).1.sessions, x.encTxQueue.items ≠ [] ∧
      ∃ t, ((machine.outcome timely bothAsleep).1.signalCall t).Owes x.serial := by
  have hr : machine.Run Timely bothAsleep (machine.outcome timely bothAsleep).2
      (machine.outcome timely bothAsleep).1 :=
    Machine.run_outcome timely_sound (by decide +kernel)
  obtain ⟨hencrypt, hudpWrite⟩ := no_lost_wakeup hr
  have hpacket : (machine.outcome timely bothAsleep).1.tunReadQueue.queue.items ≠ [] := by
    decide +kernel
  refine ⟨⟨hpacket, (hencrypt _ rfl).1.resolve_left hpacket⟩, ?_⟩
  have hsession : ∃ x ∈ (machine.outcome timely bothAsleep).1.sessions,
      x.encTxQueue.items ≠ [] := by
    decide +kernel
  obtain ⟨x, hx, hitems⟩ := hsession
  exact ⟨x, hx, hitems, (hudpWrite _ rfl x hx).resolve_left hitems⟩

end SendPath

end AutobricksVpn
