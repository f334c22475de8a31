/-
# `AutobricksVpn.Server.SendPath` — who sleeps on the way of a packet out

The two workers that carry packets to the clients sleep on a generation
counter: the encrypt worker (`src/server/encrypt.rs`) on that of the TUN queue,
the UDP writer (`src/server/udp_write.rs`) on that of a `WorkerSignal`.  Here
every operation on a shared object is an action of its own, so that another
thread may come in between the enqueue and the notification, between the
increment of a counter and the notification of its condition variable, and
between a worker's look at a queue and its sleep.

A thread that has begun to notify does nothing else before it is done
(`State.free`); what it has yet to do is its `Call`.  What a thread does under
the session lock besides is left open: it does some of its operations, in any
order.  A session is its two queues, which stay open as long as it is listed.
The counters carry the number of their increments, which no thread sees.
-/
import AutobricksVpn.Lib.Eventcount
import AutobricksVpn.Lib.Machine
import AutobricksVpn.Server.Egress

namespace AutobricksVpn

namespace SendPath

open Eventcount

/-! ## Counters -/

/-- A value of a generation counter, after `count` increments. -/
structure Reading where
  value : UInt64
  count : Nat
  counted : value = UInt64.ofNat count

theorem ofNat_succ {value : UInt64} {count : Nat} (h : value = UInt64.ofNat count) :
    value + 1 = UInt64.ofNat (count + 1) := by
  rw [h, UInt64.ofNat_add]
  rfl

/-- Two values are the same when the counts are the same up to wrapping around. -/
theorem Reading.mod_eq {r r' : Reading} (h : r.value = r'.value) :
    r.count % UInt64.size = r'.count % UInt64.size := by
  rw [r.counted, r'.counted] at h
  exact congrArg UInt64.toNat h

/-- `WorkerSignal`. -/
structure WorkerSignal where
  generation : Reading

namespace WorkerSignal

def new : WorkerSignal := ⟨⟨0, 0, rfl⟩⟩

/-- `notify`, up to the notification of the condition variable. -/
def notify (signal : WorkerSignal) : WorkerSignal :=
  ⟨⟨signal.generation.value + 1, signal.generation.count + 1, ofNat_succ signal.generation.counted⟩⟩

/-- `wait`: `none` while the caller keeps waiting. -/
def wait (signal : WorkerSignal) (observed : Reading) : Option Unit :=
  if signal.generation.value = observed.value then none else some ()

end WorkerSignal

/-- A queue, and how often its generation was incremented. -/
structure WatchedQueue (α : Type) where
  queue : Queue α
  count : Nat
  counted : queue.generation = UInt64.ofNat count

namespace WatchedQueue

variable {α : Type}

def fresh (capacity : Nat) (h : 0 < capacity) : WatchedQueue α :=
  ⟨Queue.fresh capacity h, 0, rfl⟩

/-- `generation`. -/
def generation (q : WatchedQueue α) : Reading := ⟨q.queue.generation, q.count, q.counted⟩

def notifyChange (q : WatchedQueue α) : WatchedQueue α :=
  ⟨q.queue.notifyChange, q.count + 1, ofNat_succ q.counted⟩

theorem generation_of_push {q q' : Queue α} {item : α} {dropped : Option α} :
    q.push item = .ok (q', dropped) → q'.generation = q.generation + 1 := by
  intro h
  unfold Queue.push at h
  split at h
  · split at h <;> obtain ⟨rfl, -⟩ := Prod.mk.inj (Except.ok.inj h) <;> rfl
  · cases h

/-- `push`, `none` when it is refused. -/
def push (q : WatchedQueue α) (item : α) : Option (WatchedQueue α) :=
  match h : q.queue.push item with
  | .ok (queue, _) =>
      some ⟨queue, q.count + 1, (generation_of_push h).trans (ofNat_succ q.counted)⟩
  | .error _ => none

theorem generation_of_tryPop {q q' : Queue α} {item : α} :
    q.tryPop = .ok (item, q') → q'.generation = q.generation := by
  intro h
  unfold Queue.tryPop at h
  split at h
  · obtain ⟨-, rfl⟩ := Prod.mk.inj (Except.ok.inj h)
    rfl
  · split at h <;> cases h

/-- `try_pop`, `none` when there is nothing. -/
def tryPop (q : WatchedQueue α) : Option (α × WatchedQueue α) :=
  match h : q.queue.tryPop with
  | .ok (item, queue) => some (item, ⟨queue, q.count, (generation_of_tryPop h).trans q.counted⟩)
  | .error _ => none

/-- `close`, `none` when it is closed already. -/
def close (q : WatchedQueue α) : Option (WatchedQueue α) :=
  if h : q.queue.closed = true then none
  else
    some ⟨q.queue.close, q.count + 1, by
      have hclose : q.queue.close.generation = q.queue.generation + 1 := by
        rw [Queue.close, if_neg h]
      exact hclose.trans (ofNat_succ q.counted)⟩

end WatchedQueue

/-! ## State -/

inductive Thread where
  | tunRead
  | encrypt
  | udpWrite
  | decrypt
  | control
  | main
  deriving DecidableEq

/-- The queues the encrypt worker empties: that of the TUN device, and the
plaintext queue of each session. -/
inductive PlainQueue where
  | tunRead
  | rawTx (serial : Nat)

theorem server_capacity_pos : 0 < SERVER_QUEUE_CAPACITY := by decide

theorem session_capacity_pos : 0 < SESSION_TX_QUEUE_CAPACITY := by decide

/-- The queues of a session. -/
structure SessionQueues where
  serial : Nat
  encTxQueue : Queue EncryptedDatagram
  rawTxQueue : Queue (Packet × Instant)

namespace SessionQueues

def create (serial : Nat) : SessionQueues :=
  { serial := serial
    encTxQueue := Queue.fresh SESSION_TX_QUEUE_CAPACITY session_capacity_pos
    rawTxQueue := Queue.fresh SESSION_TX_QUEUE_CAPACITY session_capacity_pos }

/-- `dtls_send`, up to the notification. -/
def dtlsSend (datagram : EncryptedDatagram) (x : SessionQueues) : SessionQueues :=
  { x with encTxQueue := x.encTxQueue.pushIgnore datagram }

/-- `queue_session_plain`. -/
def queuePlain (packet : Packet × Instant) (x : SessionQueues) : SessionQueues :=
  { x with rawTxQueue := x.rawTxQueue.pushIgnore packet }

/-- The oldest plaintext packet was written, or dropped. -/
def popPlain (x : SessionQueues) : SessionQueues := { x with rawTxQueue := x.rawTxQueue.dropFront }

/-- The oldest datagram was sent, or dropped. -/
def popEncrypted (x : SessionQueues) : SessionQueues :=
  { x with encTxQueue := x.encTxQueue.dropFront }

end SessionQueues

/-! ### The sessions of the server

What a section under the lock does to the queues of a session is a sequence of
these operations. -/

section Sessions

/-- The queues of a session of the server. -/
def queues (x : Session) : SessionQueues :=
  { serial := x.serial, encTxQueue := x.encTxQueue, rawTxQueue := x.rawTxQueue }

/-- Inside wolfSSL: datagrams are handed to `dtls_send`. -/
inductive Sends (x : SessionQueues) : SessionQueues → Prop
  | dtlsSend (datagram : EncryptedDatagram) : Sends x (x.dtlsSend datagram)

/-- While the plaintext queue is drained. -/
inductive Drains (x : SessionQueues) : SessionQueues → Prop
  | sends {y : SessionQueues} : Sends x y → Drains x y
  | popPlain : Drains x x.popPlain

theorem queues_queueSessionPlain (now : Instant) (packet : Packet) (x : Session) :
    queues (x.queueSessionPlain now packet) = (queues x).queuePlain (packet, now) := rfl

theorem queues_emit (now : Instant) (sent : List Packet) (x : Session) :
    Relation.ReflTransGen Sends (queues x) (queues (x.emit now sent)) := by
  induction sent generalizing x with
  | nil => exact .refl
  | cons bytes sent ih =>
      have hrest := ih { x with encTxQueue := x.encTxQueue.pushIgnore ⟨bytes, now⟩ }
      exact .head (.dtlsSend ⟨bytes, now⟩) hrest

theorem emit_drains (now : Instant) (sent : List Packet) (x : Session) :
    Relation.ReflTransGen Drains (queues x) (queues (x.emit now sent)) :=
  Relation.ReflTransGen.mono (fun _ _ => Drains.sends) _ _ (queues_emit now sent x)

theorem queues_sendTunnelPacket (now : Instant) (call : WriteCall) (packet : Packet)
    (x : Session) :
    queues (sendTunnelPacket now call packet x).1 = queues (x.emit now call.sent) := by
  unfold sendTunnelPacket
  split
  · split <;> rfl
  · rfl
  · rfl
  · rfl

theorem queues_drainSessionPlain (now : Instant) :
    ∀ (turns : Nat) (calls : List WriteCall) (x : Session),
      Relation.ReflTransGen Drains (queues x) (queues (drainSessionPlain now turns calls x).1)
  | 0, _, _ => .refl
  | turns + 1, calls, x => by
      unfold drainSessionPlain
      split
      · exact .refl
      · rename_i front queue hpeek
        obtain ⟨-, rfl, hback⟩ := Queue.tryPeek_ok hpeek
        -- The session without the packet, and then after the call into wolfSSL.
        generalize hx' : ({ x with rawTxQueue := x.rawTxQueue.dropFront } : Session) = x'
        have hpop : Drains (queues x) (queues x') := hx' ▸ .popPlain
        split
        · exact .head hpop (queues_drainSessionPlain now turns calls x')
        · have hqueues := queues_sendTunnelPacket now (calls.headD .blocked) front.value.1 x'
          have hemit := emit_drains now (calls.headD .blocked).sent x'
          split <;> rename_i y hy <;> rw [hy] at hqueues
          · exact .head hpop
              ((hqueues ▸ hemit).trans (queues_drainSessionPlain now turns calls.tail y))
          · -- The packet is back where it was.
            subst hx'
            have hkept : queues { y with rawTxQueue := front.drop y.rawTxQueue } =
                queues (x.emit now (calls.headD .blocked).sent) := by
              obtain ⟨hserial, henc, hraw⟩ := SessionQueues.mk.inj hqueues
              refine SessionQueues.mk.injEq .. ▸ ⟨hserial, henc, ?_⟩
              rw [hraw]
              exact hback
            rw [hkept]
            exact emit_drains now _ x
          · exact .head hpop
              ((hqueues ▸ hemit).trans (queues_drainSessionPlain now turns calls.tail y))

/-- The encrypt worker, for one session. -/
theorem queues_drainPlain (now : Instant) (calls : List WriteCall) (x : Session) :
    Relation.ReflTransGen Drains (queues x) (queues (x.drainPlain now calls)) :=
  queues_drainSessionPlain now _ calls x

/-- The oldest datagram was sent, or dropped. -/
def Pops (x y : SessionQueues) : Prop := y = x.popEncrypted

theorem drainEncryptedQueue_pops (now : Instant) :
    ∀ (turns : Nat) (calls : List (Except IoError Nat)) (x : SessionQueues),
      Relation.ReflTransGen Pops x
        { x with encTxQueue := (drainEncryptedQueue now turns calls x.encTxQueue).1 }
  | 0, _, _ => .refl
  | turns + 1, calls, x => by
      have hrest := fun calls => drainEncryptedQueue_pops now turns calls x.popEncrypted
      unfold drainEncryptedQueue
      split
      · exact .refl
      · rename_i front left hpeek
        obtain ⟨-, rfl, hback⟩ := Queue.tryPeek_ok hpeek
        split
        · exact .head rfl (hrest calls)
        · split
          · split
            · exact .head rfl (hrest calls.tail)
            · exact .single rfl
          · rw [hback]
            split <;> exact .refl

/-- The UDP writer, for one session. -/
theorem queues_udpWriteSession (now : Instant) (calls : List (Except IoError Nat)) (x : Session) :
    Relation.ReflTransGen Pops (queues x) (queues (udpWriteSession now calls x).1) := by
  have hpops := drainEncryptedQueue_pops now (x.encTxQueue.len + 1) calls (queues x)
  unfold udpWriteSession
  split
  all_goals
    rename_i hdrain
    rw [show (queues x).encTxQueue = x.encTxQueue from rfl, hdrain] at hpops
    exact hpops

end Sessions

/-- Where the encrypt worker is in its loop; `observed` is its local variable. -/
inductive EncryptPc where
  | top
  | tryPop (observed : Reading)
  | lockRoute (observed : Reading) (packet : Packet)
  | route (observed : Reading) (packet : Packet)
  | notifyRouted (observed : Reading)
  | swapRetry (observed : Reading)
  | lockRetry (observed : Reading)
  | retry (observed : Reading)
  | lockFlush (observed : Reading)
  | flush (observed : Reading)
  | notifyFlushed (observed : Reading) (pending : Bool)
  | decide (observed : Reading) (pending : Bool)
  | wait (observed : Reading)
  | asleep (observed : Reading)
  | stopped

/-- Where the UDP writer is in its loop. -/
inductive UdpWritePc where
  | top
  | lockDrain (observed : Reading)
  | drain (observed : Reading)
  | drained (observed : Reading) (socketBlocked sentAny : Bool)
  | idle (observed : Reading)
  | wait (observed : Reading)
  | asleep (observed : Reading)
  | stopped

structure State where
  active : Bool
  tunReadQueue : WatchedQueue Packet
  signal : WorkerSignal
  sessions : List SessionQueues
  nextSerial : Nat
  lock : Option Thread
  retryRequested : Bool
  tunCall : Thread → Call PlainQueue
  signalCall : Thread → Call Nat
  encrypt : EncryptPc
  udpWrite : UdpWritePc

namespace State

def start : State :=
  { active := true
    tunReadQueue := WatchedQueue.fresh SERVER_QUEUE_CAPACITY server_capacity_pos
    signal := WorkerSignal.new, sessions := [], nextSerial := 0, lock := none
    retryRequested := false, tunCall := fun _ => .idle, signalCall := fun _ => .idle
    encrypt := .top, udpWrite := .top }

/-- The thread is not in the middle of a notification. -/
def free (s : State) (t : Thread) : Bool := (s.tunCall t).isIdle && (s.signalCall t).isIdle

/-- The thread holds the session lock and may use it. -/
def holds (s : State) (t : Thread) : Bool := s.lock == some t && s.free t

/-- `notify_change` on the TUN queue, up to the notification of the condition variable. -/
def notifyTun (s : State) (t : Thread) (key : Option PlainQueue) : State :=
  { s with
    tunReadQueue := s.tunReadQueue.notifyChange
    tunCall := Function.update s.tunCall t (.counted key) }

/-- `notify` on the signal, up to the notification of the condition variable. -/
def notifySignal (s : State) (t : Thread) (key : Option Nat) : State :=
  { s with
    signal := s.signal.notify
    signalCall := Function.update s.signalCall t (.counted key) }

/-- The sessions with one of them changed. -/
def modifySession (s : State) (serial : Nat) (f : SessionQueues → SessionQueues) : State :=
  { s with sessions := s.sessions.map fun x => if x.serial = serial then f x else x }

/-- The record is dropped, and its queues with it. -/
def removeSession (s : State) (serial : Nat) : State :=
  { s with sessions := s.sessions.filter fun x => x.serial ≠ serial }

end State

/-! ## Actions -/

inductive EncryptAction where
  | observe
  | tryPop
  | skip
  | lock
  | queuePlain (serial : Nat) (now : Instant)
  | popPlain (serial : Nat)
  | unlock
  | notify
  | swapRetry
  | decide
  | wait
  | rouse

inductive UdpWriteAction where
  | observe
  | lock
  | popEncrypted (serial : Nat)
  | unlock (socketBlocked sentAny : Bool)
  | notifyEncrypt
  | recheck
  | decide
  | wait
  | rouse

/-- The first four are what is left of a notification; the parameter is the
thread, where several can take the action. -/
inductive Action where
  | incrementTun (t : Thread)
  | wakeEncrypt (t : Thread)
  | incrementSignal (t : Thread)
  | wakeUdpWrite (t : Thread)
  | tunPush (packet : Packet)
  | tunClose (t : Thread)
  | deactivate
  | storeRetry
  | notifySignal (t : Thread)
  | notifyTun (t : Thread)
  | lock (t : Thread)
  | unlock (t : Thread)
  | dtlsSend (t : Thread) (serial : Nat) (datagram : EncryptedDatagram)
  | queuePlain (serial : Nat) (packet : Packet × Instant)
  | refuse (serial : Nat)
  | removeSession (t : Thread) (serial : Nat)
  | createSession
  | encrypt (action : EncryptAction)
  | udpWrite (action : UdpWriteAction)

/-! ## Steps -/

/-- The encrypt worker was notified, if it sleeps. -/
def EncryptPc.woken : EncryptPc → EncryptPc
  | .asleep observed => .wait observed
  | pc => pc

def UdpWritePc.woken : UdpWritePc → UdpWritePc
  | .asleep observed => .wait observed
  | pc => pc

/-- The loop of `src/server/encrypt.rs`. -/
def encryptStep (s : State) (a : EncryptAction) : Option State :=
  match a, s.encrypt with
  | .observe, .top =>
      if s.active then some { s with encrypt := .tryPop s.tunReadQueue.generation }
      else some { s with encrypt := .stopped }
  | .tryPop, .tryPop observed =>
      match s.tunReadQueue.tryPop with
      | some (packet, queue) =>
          some { s with tunReadQueue := queue, encrypt := .lockRoute observed packet }
      | none => some { s with encrypt := .lockFlush observed }
  | .skip, .lockRoute observed packet =>
      if ipv4Destination packet = none then some { s with encrypt := .tryPop observed } else none
  | .lock, .lockRoute observed packet =>
      if s.lock = none ∧ ipv4Destination packet ≠ none then
        some { s with lock := some .encrypt, encrypt := .route observed packet }
      else none
  | .lock, .lockRetry observed =>
      if s.lock = none then some { s with lock := some .encrypt, encrypt := .retry observed }
      else none
  | .lock, .lockFlush observed =>
      if s.lock = none then some { s with lock := some .encrypt, encrypt := .flush observed }
      else none
  | .queuePlain serial now, .route _ packet =>
      some (s.modifySession serial (.queuePlain (packet, now)))
  | .popPlain serial, .route _ _ => some (s.modifySession serial .popPlain)
  | .popPlain serial, .retry _ => some (s.modifySession serial .popPlain)
  | .popPlain serial, .flush _ => some (s.modifySession serial .popPlain)
  | .unlock, .route observed _ => some { s with lock := none, encrypt := .notifyRouted observed }
  | .unlock, .retry observed => some { s with lock := none, encrypt := .tryPop observed }
  | .unlock, .flush observed =>
      let pending := s.sessions.any fun x => !x.rawTxQueue.isEmpty
      some { s with lock := none, encrypt := .notifyFlushed observed pending }
  | .notify, .notifyRouted observed =>
      some { s.notifySignal .encrypt none with encrypt := .swapRetry observed }
  | .swapRetry, .swapRetry observed =>
      some { s with
        retryRequested := false
        encrypt := if s.retryRequested then .lockRetry observed else .tryPop observed }
  | .notify, .notifyFlushed observed pending =>
      some { s.notifySignal .encrypt none with encrypt := .decide observed pending }
  | .decide, .decide observed pending =>
      if s.tunReadQueue.queue.isClosed then some { s with active := false, encrypt := .stopped }
      else if pending then some { s with encrypt := .top }
      else some { s with encrypt := .wait observed }
  | .wait, .wait observed =>
      match s.tunReadQueue.queue.waitForChange observed.value with
      | none => some { s with encrypt := .asleep observed }
      | some _ => some { s with encrypt := .top }
  | .rouse, .asleep observed => some { s with encrypt := .wait observed }
  | _, _ => none

/-- The loop of `src/server/udp_write.rs`. -/
def udpWriteStep (s : State) (a : UdpWriteAction) : Option State :=
  match a, s.udpWrite with
  | .observe, .top =>
      if s.active then some { s with udpWrite := .lockDrain s.signal.generation }
      else some { s with udpWrite := .stopped }
  | .lock, .lockDrain observed =>
      if s.lock = none then some { s with lock := some .udpWrite, udpWrite := .drain observed }
      else none
  | .popEncrypted serial, .drain _ => some (s.modifySession serial .popEncrypted)
  | .unlock socketBlocked sentAny, .drain observed =>
      some { s with lock := none, udpWrite := .drained observed socketBlocked sentAny }
  | .notifyEncrypt, .drained _ socketBlocked sentAny =>
      if socketBlocked || sentAny then
        some { s.notifyTun .udpWrite none with udpWrite := .top }
      else none
  | .recheck, .drained observed socketBlocked sentAny =>
      if s.lock = none ∧ socketBlocked = false ∧ sentAny = false then
        if s.sessions.any fun x => !x.encTxQueue.isEmpty then some { s with udpWrite := .top }
        else some { s with udpWrite := .idle observed }
      else none
  | .decide, .idle observed =>
      if s.active then some { s with udpWrite := .wait observed }
      else some { s with udpWrite := .top }
  | .wait, .wait observed =>
      match s.signal.wait observed with
      | none => some { s with udpWrite := .asleep observed }
      | some _ => some { s with udpWrite := .top }
  | .rouse, .asleep observed => some { s with udpWrite := .wait observed }
  | _, _ => none

def step (s : State) : Action → Option State
  | .incrementTun t =>
      match s.tunCall t with
      | .enqueued key => some (s.notifyTun t (some key))
      | _ => none
  | .wakeEncrypt t =>
      match s.tunCall t with
      | .counted _ =>
          some { s with
            tunCall := Function.update s.tunCall t .idle, encrypt := s.encrypt.woken }
      | _ => none
  | .incrementSignal t =>
      match s.signalCall t with
      | .enqueued key => some (s.notifySignal t (some key))
      | _ => none
  | .wakeUdpWrite t =>
      match s.signalCall t with
      | .counted _ =>
          some { s with
            signalCall := Function.update s.signalCall t .idle, udpWrite := s.udpWrite.woken }
      | _ => none
  | .tunPush packet =>
      if s.free .tunRead then
        (s.tunReadQueue.push packet).map fun queue =>
          { s with
            tunReadQueue := queue
            tunCall := Function.update s.tunCall .tunRead (.counted (some .tunRead)) }
      else none
  | .tunClose t =>
      if (t = .tunRead ∨ t = .main) ∧ s.free t = true then
        match s.tunReadQueue.close with
        | some queue =>
            some { s with
              tunReadQueue := queue
              tunCall := Function.update s.tunCall t (.counted none) }
        | none => some s
      else none
  | .deactivate => some { s with active := false }
  | .storeRetry => some { s with retryRequested := true }
  | .notifySignal t =>
      if (t = .main ∨ t = .decrypt) ∧ s.free t = true then some (s.notifySignal t none) else none
  | .notifyTun t =>
      if t = .decrypt ∧ s.free t = true then some (s.notifyTun t none) else none
  | .lock t =>
      if (t = .decrypt ∨ t = .control) ∧ s.free t = true ∧ s.lock = none then
        some { s with lock := some t }
      else none
  | .unlock t =>
      if (t = .decrypt ∨ t = .control) ∧ s.holds t = true then some { s with lock := none } else none
  | .dtlsSend t serial datagram =>
      if t ≠ .udpWrite ∧ s.holds t = true then
        some { s.modifySession serial (.dtlsSend datagram) with
          signalCall := Function.update s.signalCall t (.enqueued serial) }
      else none
  | .queuePlain serial packet =>
      if s.holds .decrypt then
        some { s.modifySession serial (.queuePlain packet) with
          tunCall := Function.update s.tunCall .decrypt (.enqueued (.rawTx serial)) }
      else none
  | .refuse serial =>
      match s.tunCall .decrypt with
      | .enqueued (.rawTx queued) =>
          if queued = serial then
            some { s.removeSession serial with
              tunCall := Function.update s.tunCall .decrypt .idle }
          else none
      | _ => none
  | .removeSession t serial =>
      if t ≠ .encrypt ∧ s.holds t = true then some (s.removeSession serial) else none
  | .createSession =>
      if s.holds .decrypt then
        some { s with
          sessions := s.sessions ++ [SessionQueues.create s.nextSerial]
          nextSerial := s.nextSerial + 1 }
      else none
  | .encrypt a => if s.free .encrypt then encryptStep s a else none
  | .udpWrite a => if s.free .udpWrite then udpWriteStep s a else none

def machine : Machine State Action Empty :=
  { init := State.start, step := fun s a => (step s a).map fun s' => (s', []) }

end SendPath

end AutobricksVpn
