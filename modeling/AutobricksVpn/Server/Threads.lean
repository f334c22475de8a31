/-
# `AutobricksVpn.Server.Threads` — the threads of the server, and their end

`run` of `src/server.rs` from the start of its threads on:

    UDP socket ── main ── udp_rx_queue ── decrypt ── TUN device
    UDP socket ── udp_write ── sessions ── encrypt ── tun_read_queue ── tun_read ── TUN device

and the control worker beside them.  Each thread goes round its loop as long as
the two flags are up, and clears `active` on its way out, also when it panics
(`StopOnDrop`).  When `udp_read::run` returns, the main thread clears `active`,
wakes everybody, and joins the threads one after the other.

An action is one access of one thread to what they share, or one call into the
system, whose outcome it takes as an argument.  What a worker does under the
session lock is left open, but for who may hold the lock and which notifications
it may give there (`Worker.Gives`); `System` says what it does to the sessions.
The two flags are only ever cleared, so a look at both is one action.
-/
import AutobricksVpn.Base.QueueFifo
import AutobricksVpn.Server.SendPath
import AutobricksVpn.Tun.Write

namespace AutobricksVpn

namespace ServerThreads

open SendPath (Reading WorkerSignal)

/-! ## What the threads share -/

/-- The fields of `ServerQueues`. -/
inductive QueueName where
  | udpRx
  | tunRead
  deriving DecidableEq

abbrev QueueName.Item : QueueName → Type
  | .udpRx => UdpDatagram
  | .tunRead => Packet

/-- The threads that are spawned. -/
inductive Worker where
  | tunRead
  | encrypt
  | udpWrite
  | decrypt
  | control
  deriving DecidableEq

/-- What `join` makes of a panic. -/
def Worker.panic : Worker → IoError
  | .tunRead => IoError.other "TUN read worker panicked"
  | .encrypt => IoError.other "encrypt worker panicked"
  | .udpWrite => IoError.other "UDP write worker panicked"
  | .decrypt => IoError.other "decrypt worker panicked"
  | .control => IoError.other "session control worker panicked"

def tunBroken : IoError := IoError.new .brokenPipe "TUN device reported a permanent poll error"

structure Shared where
  /-- `RUNNING`. -/
  running : Bool
  active : Bool
  queues : (name : QueueName) → QueueRun.Shared name.Item
  /-- `dtls_progress`. -/
  progress : WorkerSignal
  retryRequested : Bool
  /-- There is a datagram in the socket of `ControlWake`. -/
  wake : Bool
  /-- The errors sent and not received. -/
  errors : List IoError
  /-- How many reloads were sent and not received. -/
  reloads : Nat
  /-- The decrypt worker still has the receiving ends of the two channels. -/
  receivers : Bool
  encryptedDrops : Nat
  plainDrops : Nat

inductive Event where
  | queue (name : QueueName) (event : QueueRun.Event name.Item)
  /-- A datagram of the socket, handed to its queue. -/
  | arrived (datagram : UdpDatagram)
  /-- A packet of the TUN device, handed to its queue. -/
  | captured (packet : Packet)
  /-- An error that ends the main thread's loop. -/
  | udpFailed (error : IoError)
  /-- An error that ends the TUN reader, and that it sends. -/
  | tunFailed (error : IoError)
  /-- An error of its own that a worker ends with. -/
  | failed (worker : Worker) (error : IoError)
  | panicked (worker : Worker)
  /-- `error_receiver.try_recv()`. -/
  | received (error : IoError)

namespace Shared

def continues (sh : Shared) : Bool := sh.running && sh.active

/-- One call on a queue. -/
def call (sh : Shared) (name : QueueName) (a : QueueRun.Act name.Item) :
    Option (Shared × List (QueueRun.Event name.Item)) :=
  match QueueRun.step (sh.queues name) a with
  | some (queue, evs) => some ({ sh with queues := Function.update sh.queues name queue }, evs)
  | none => none

/-- `generation`. -/
def generation (sh : Shared) (name : QueueName) : UInt64 := (sh.queues name).queue.generation

/-- `is_closed`. -/
def isClosed (sh : Shared) (name : QueueName) : Bool := (sh.queues name).queue.isClosed

/-- `wait_for_change` comes back. -/
def changed (sh : Shared) (name : QueueName) (observed : UInt64) : Bool :=
  sh.isClosed name || decide (sh.generation name ≠ observed)

end Shared

/-- What `push` answers: `Ok(None)`, `Ok(Some(_))` or `Err(_)`. -/
inductive PushAnswer where
  | stored
  | evicted
  | refused
  deriving DecidableEq

def pushAnswer {α : Type} : List (QueueRun.Event α) → PushAnswer
  | [.accepted _] => .stored
  | [.accepted _, .returned _] => .evicted
  | _ => .refused

/-- What a producer adds to its drop counter. -/
def PushAnswer.dropped : PushAnswer → Nat
  | .evicted => 1
  | .stored | .refused => 0

/-- What `try_pop` takes, if anything. -/
def popped {α : Type} : List (QueueRun.Event α) → Option α
  | [.delivered item] => some item.2
  | _ => none

/-! ## `tun_read` -/

/-- Where the thread is.  After an error it clears `active`, sends the error and
closes the queue.  `leave` is before `StopOnDrop`, with what `join` answers. -/
inductive TunReadPc where
  | top
  | poll
  | read
  | push (packet : Packet)
  | store (error : IoError)
  | send (error : IoError)
  | close
  | leave (result : Except IoError Unit)
  | ended (result : Except IoError Unit)

/-- What `poll` says of the TUN device; `idle` after a timeout or a signal. -/
inductive TunPoll where
  | readable
  | idle
  | broken
  | failed (error : IoError)

inductive TunReadCall where
  | go
  | poll (outcome : TunPoll)
  | read (result : Except IoError Packet)

def tunReadStep (sh : Shared) :
    TunReadPc → TunReadCall → Option (Shared × TunReadPc × List Event)
  | .top, .go => some (sh, if sh.continues then .poll else .leave (.ok ()), [])
  | .poll, .poll .readable => some (sh, .read, [])
  | .poll, .poll .idle => some (sh, .top, [])
  | .poll, .poll .broken => some (sh, .store tunBroken, [.tunFailed tunBroken])
  | .poll, .poll (.failed error) => some (sh, .store error, [.tunFailed error])
  | .read, .read (.ok packet) => some (sh, if packet = [] then .top else .push packet, [])
  | .read, .read (.error error) =>
      match classifyTunError error with
      | .retry | .dropPacket => some (sh, .top, [])
      | .fatal => some (sh, .store error, [.tunFailed error])
  | .push packet, .go =>
      match sh.call .tunRead (.push packet) with
      | none => none
      | some (sh, evs) =>
          some ({ sh with plainDrops := sh.plainDrops + (pushAnswer evs).dropped },
            if pushAnswer evs = .refused then .leave (.ok ()) else .top,
            .captured packet :: evs.map (.queue .tunRead))
  | .store error, .go => some ({ sh with active := false }, .send error, [])
  | .send error, .go =>
      -- nobody is left to receive it: `let _ = errors.send(error)`
      some ({ sh with errors := if sh.receivers then sh.errors ++ [error] else sh.errors },
        .close, [])
  | .close, .go =>
      match sh.call .tunRead .close with
      | none => none
      | some (sh, evs) => some (sh, .leave (.ok ()), evs.map (.queue .tunRead))
  | .leave result, .go => some ({ sh with active := false }, .ended result, [])
  | _, _ => none

/-! ## `encrypt` -/

/-- Where the worker is; `observed` is its local variable. -/
inductive EncryptPc where
  | top
  | observe
  | tryPop (observed : UInt64)
  | packet (observed : UInt64) (packet : Packet)
  | lockRoute (observed : UInt64)
  | route (observed : UInt64)
  | notifyRouted (observed : UInt64)
  | swapRetry (observed : UInt64)
  | lockRetry (observed : UInt64)
  | retry (observed : UInt64)
  | lockFlush (observed : UInt64)
  | flush (observed : UInt64)
  | notifyFlushed (observed : UInt64) (pending : Bool)
  | check (observed : UInt64) (pending : Bool)
  | wait (observed : UInt64)
  | leave (result : Except IoError Unit)
  | ended (result : Except IoError Unit)

inductive EncryptCall where
  | go
  /-- The last flush of the turn; `pending` is whether a session has packets left. -/
  | flushed (pending : Bool)

/-- `free` is whether nobody holds the session lock. -/
def encryptStep (free : Bool) (sh : Shared) :
    EncryptPc → EncryptCall → Option (Shared × EncryptPc × List Event)
  | .top, .go => some (sh, if sh.continues then .observe else .leave (.ok ()), [])
  | .observe, .go => some (sh, .tryPop (sh.generation .tunRead), [])
  | .tryPop observed, .go =>
      match sh.call .tunRead .tryPop with
      | none => none
      | some (sh, evs) =>
          some (sh,
            match popped evs with
            | some packet => .packet observed packet
            | none => .lockFlush observed,
            evs.map (.queue .tunRead))
  | .packet observed packet, .go =>
      some (sh,
        if (ipv4Destination packet).isSome then .lockRoute observed else .tryPop observed, [])
  | .lockRoute observed, .go => if free then some (sh, .route observed, []) else none
  | .route observed, .go => some (sh, .notifyRouted observed, [])
  | .notifyRouted observed, .go =>
      some ({ sh with progress := sh.progress.notify }, .swapRetry observed, [])
  | .swapRetry observed, .go =>
      some ({ sh with retryRequested := false },
        if sh.retryRequested then .lockRetry observed else .tryPop observed, [])
  | .lockRetry observed, .go => if free then some (sh, .retry observed, []) else none
  | .retry observed, .go => some (sh, .tryPop observed, [])
  | .lockFlush observed, .go => if free then some (sh, .flush observed, []) else none
  | .flush observed, .flushed pending => some (sh, .notifyFlushed observed pending, [])
  | .notifyFlushed observed pending, .go =>
      some ({ sh with progress := sh.progress.notify }, .check observed pending, [])
  | .check observed pending, .go =>
      some (sh,
        if sh.isClosed .tunRead then .leave (.ok ()) else if pending then .top else .wait observed,
        [])
  | .wait observed, .go => if sh.changed .tunRead observed then some (sh, .top, []) else none
  | .leave result, .go => some ({ sh with active := false }, .ended result, [])
  | _, _ => none

/-! ## `udp_write` -/

inductive UdpWritePc where
  | top
  | observe
  | lockDrain (observed : Reading)
  | drain (observed : Reading)
  /-- The socket is full, and is polled. -/
  | poll
  | request
  | change
  | lockLook (observed : Reading)
  /-- The second look at the flags. -/
  | idle (observed : Reading)
  | wait (observed : Reading)
  | leave (result : Except IoError Unit)
  | ended (result : Except IoError Unit)

inductive UdpWriteCall where
  | go
  | drained (socketBlocked sentAny : Bool)
  | looked (encryptedPending : Bool)

def udpWriteStep (free : Bool) (sh : Shared) :
    UdpWritePc → UdpWriteCall → Option (Shared × UdpWritePc × List Event)
  | .top, .go => some (sh, if sh.continues then .observe else .leave (.ok ()), [])
  | .observe, .go => some (sh, .lockDrain sh.progress.generation, [])
  | .lockDrain observed, .go => if free then some (sh, .drain observed, []) else none
  | .drain observed, .drained socketBlocked sentAny =>
      some (sh,
        if socketBlocked then .poll else if sentAny then .request else .lockLook observed, [])
  | .poll, .go => some (sh, .request, [])
  | .request, .go => some ({ sh with retryRequested := true }, .change, [])
  | .change, .go =>
      match sh.call .tunRead .notifyChange with
      | none => none
      | some (sh, evs) => some (sh, .top, evs.map (.queue .tunRead))
  | .lockLook observed, .looked encryptedPending =>
      if free then some (sh, if encryptedPending then .top else .idle observed, []) else none
  | .idle observed, .go => some (sh, if sh.continues then .wait observed else .top, [])
  | .wait observed, .go =>
      match sh.progress.wait observed with
      | some _ => some (sh, .top, [])
      | none => none
  | .leave result, .go => some ({ sh with active := false }, .ended result, [])
  | _, _ => none

/-! ## `decrypt` -/

inductive DecryptPc where
  | top
  | observe
  | lockRead (observed : UInt64)
  /-- The sessions with input are read, one after the other. -/
  | read (observed : UInt64)
  /-- At the top of the loop of `write_tun_packet`. -/
  | writeTun (observed : UInt64) (packet : Packet)
  | tunCall (observed : UInt64) (packet : Packet)
  | lockDedupe (observed : UInt64) (pending : Bool)
  | dedupe (observed : UInt64) (pending : Bool)
  | reloads (observed : UInt64) (pending : Bool)
  | errors (observed : UInt64) (pending : Bool)
  | tryPop (observed : UInt64) (pending : Bool)
  | wait (observed : UInt64)
  | lockPeer (datagram : UdpDatagram)
  | handle (datagram : UdpDatagram)
  /-- After the loop. -/
  | finish (result : Except IoError Unit)
  /-- Before the receiving ends are dropped. -/
  | drop (result : Except IoError Unit)
  | leave (result : Except IoError Unit)
  | ended (result : Except IoError Unit)

inductive DecryptCall where
  | go
  /-- A session has a packet for the TUN device. -/
  | packet (packet : Packet)
  | tun (attempt : TunAttempt)
  /-- All sessions are read; `pending` is `pending_session_input`. -/
  | readAll (pending : Bool)
  /-- The datagram is dealt with. -/
  | handled (result : Except IoError Unit)

/-- One turn of the loop of `write_tun_packet`: the outcome, or none if it goes
round again. -/
def tunTurn (packet : Packet) (attempt : TunAttempt) : Option (Except IoError Unit) :=
  match attempt.write with
  | .ok written =>
      if written = packet.length then some (.ok ())
      else some (.error (partialTunWrite written packet.length))
  | .error error =>
      if error.kind = .interrupted then none
      else if error.kind = .wouldBlock then
        match AutobricksVpn.poll attempt.libcPoll with
        | .ok _ => none
        | .error error => some (.error error)
      else some (.error error)

def decryptStep (free : Bool) (sh : Shared) :
    DecryptPc → DecryptCall → Option (Shared × DecryptPc × List Event)
  | .top, .go => some (sh, if sh.continues then .observe else .finish (.ok ()), [])
  | .observe, .go => some (sh, .lockRead (sh.generation .udpRx), [])
  | .lockRead observed, .go => if free then some (sh, .read observed, []) else none
  | .read observed, .packet packet => some (sh, .writeTun observed packet, [])
  | .writeTun observed packet, .go =>
      some (sh,
        if sh.continues then .tunCall observed packet else .finish (.error serverStopping), [])
  | .tunCall observed packet, .tun attempt =>
      match tunTurn packet attempt with
      | none => some (sh, .writeTun observed packet, [])
      | some (.ok _) => some (sh, .read observed, [])
      | some (.error error) => some (sh, .finish (.error error), [.failed .decrypt error])
  | .read observed, .readAll pending => some (sh, .lockDedupe observed pending, [])
  | .lockDedupe observed pending, .go =>
      if free then some (sh, .dedupe observed pending, []) else none
  | .dedupe observed pending, .go => some (sh, .reloads observed pending, [])
  | .reloads observed pending, .go =>
      match sh.reloads with
      | reloads + 1 => some ({ sh with reloads := reloads }, .reloads observed pending, [])
      | 0 => some (sh, .errors observed pending, [])
  | .errors observed pending, .go =>
      match sh.errors with
      | error :: rest =>
          some ({ sh with errors := rest }, .finish (.error error), [.received error])
      | [] => some (sh, .tryPop observed pending, [])
  | .tryPop observed pending, .go =>
      match sh.call .udpRx .tryPop with
      | none => none
      | some (sh, evs) =>
          some (sh,
            match popped evs with
            | some datagram => .lockPeer datagram
            | none =>
                if sh.isClosed .udpRx then .finish (.ok ())
                else if pending then .top else .wait observed,
            evs.map (.queue .udpRx))
  | .wait observed, .go => if sh.changed .udpRx observed then some (sh, .top, []) else none
  | .lockPeer datagram, .go => if free then some (sh, .handle datagram, []) else none
  | .handle _, .handled (.ok _) => some (sh, .top, [])
  | .handle _, .handled (.error error) =>
      some (sh, .finish (.error error), [.failed .decrypt error])
  | .finish (.error error), .go => some (sh, .drop (.error error), [])
  | .finish (.ok _), .go =>
      match sh.errors with
      | error :: rest => some ({ sh with errors := rest }, .drop (.error error), [.received error])
      | [] => some (sh, .drop (.ok ()), [])
  | .drop result, .go => some ({ sh with receivers := false }, .leave result, [])
  | .leave result, .go => some ({ sh with active := false }, .ended result, [])
  | _, _ => none

/-! ## `control` -/

inductive ControlPc where
  | top
  | lockPass
  | pass
  /-- It is time to reload, or not. -/
  | decide
  | lockPurge (requested : Bool)
  | purge (requested : Bool)
  | send (requested : Bool)
  | change (requested : Bool)
  /-- In `recv_timeout`, for two seconds at most. -/
  | respond
  | lockDeadline
  | poll
  /-- There is a datagram in the wake-up socket. -/
  | drainWake
  | leave (result : Except IoError Unit)
  | ended (result : Except IoError Unit)

/-- What comes of a reload that is due. -/
inductive Reloading where
  | notDue
  | rejected
  | accepted (requested : Bool)

/-- How `poll` ends: woken up; by another socket or at its time; by a signal; or
with an error. -/
inductive ControlPoll where
  | woken
  | other
  | interrupted
  | failed (error : IoError)

inductive ControlCall where
  | go
  | passed (result : Except IoError Unit)
  | decide (reload : Reloading)
  | poll (outcome : ControlPoll)

def controlStep (free : Bool) (sh : Shared) :
    ControlPc → ControlCall → Option (Shared × ControlPc × List Event)
  | .top, .go => some (sh, if sh.continues then .lockPass else .leave (.ok ()), [])
  | .lockPass, .go => if free then some (sh, .pass, []) else none
  | .pass, .passed (.ok _) => some (sh, .decide, [])
  | .pass, .passed (.error error) =>
      some (sh, .leave (.error error), [.failed .control error])
  | .decide, .decide .notDue => some (sh, .lockDeadline, [])
  | .decide, .decide .rejected => some (sh, .lockDeadline, [])
  | .decide, .decide (.accepted requested) => some (sh, .lockPurge requested, [])
  | .lockPurge requested, .go => if free then some (sh, .purge requested, []) else none
  | .purge requested, .go => some (sh, .send requested, [])
  | .send requested, .go =>
      if sh.receivers then
        some ({ sh with reloads := sh.reloads + 1 }, .change requested, [])
      else some (sh, .leave (.ok ()), [])
  | .change requested, .go =>
      match sh.call .udpRx .notifyChange with
      | none => none
      | some (sh, evs) =>
          some (sh, if requested then .respond else .lockDeadline, evs.map (.queue .udpRx))
  | .respond, .go => some (sh, .lockDeadline, [])
  | .lockDeadline, .go => if free then some (sh, .poll, []) else none
  | .poll, .poll .woken => if sh.wake then some (sh, .drainWake, []) else none
  | .poll, .poll .other => some (sh, if sh.wake then .drainWake else .top, [])
  | .poll, .poll .interrupted => some (sh, .top, [])
  | .poll, .poll (.failed error) =>
      some (sh, .leave (.error error), [.failed .control error])
  | .drainWake, .go => some ({ sh with wake := false }, .top, [])
  | .leave result, .go => some ({ sh with active := false }, .ended result, [])
  | _, _ => none

/-! ## The main thread -/

/-- What `run` does when `udp_read::run` has returned. -/
inductive Cleanup where
  /-- `cleanup_active.store(false)`. -/
  | store
  /-- `cleanup_progress.notify()`. -/
  | notify
  /-- `cleanup_control_wake.notify()`. -/
  | wake
  | close (name : QueueName)
  | join (worker : Worker)
  deriving DecidableEq

def cleanup : List Cleanup :=
  [.store, .notify, .wake, .close .udpRx, .close .tunRead, .join .encrypt, .join .udpWrite,
    .join .decrypt, .join .control, .join .tunRead]

/-- Where the main thread is: in `udp_read::run`, or after it, with its result. -/
inductive MainPc where
  | top
  | poll
  | recv
  | push (datagram : UdpDatagram)
  | notify
  | cleanup (result : Except IoError Unit) (rest : List Cleanup)

/-- The loop is left with this result. -/
def MainPc.left (result : Except IoError Unit) : MainPc := .cleanup result ServerThreads.cleanup

/-- What `poll` says of the socket; `idle` after a timeout or a signal. -/
inductive UdpPoll where
  | readable
  | idle
  | failed (error : IoError)

inductive MainCall where
  | go
  | poll (outcome : UdpPoll)
  | recv (result : Except IoError UdpDatagram)

/-- `ended` is whether a worker has come to its end. -/
def cleanupStep (ended : Worker → Bool) (sh : Shared) : Cleanup → Option (Shared × List Event)
  | .store => some ({ sh with active := false }, [])
  | .notify => some ({ sh with progress := sh.progress.notify }, [])
  | .wake => some ({ sh with wake := true }, [])
  | .close name =>
      match sh.call name .close with
      | none => none
      | some (sh, evs) => some (sh, evs.map (.queue name))
  | .join worker => if ended worker then some (sh, []) else none

def mainStep (ended : Worker → Bool) (sh : Shared) :
    MainPc → MainCall → Option (Shared × MainPc × List Event)
  | .top, .go => some (sh, if sh.continues then .poll else .left (.ok ()), [])
  | .poll, .poll .readable => some (sh, .recv, [])
  | .poll, .poll .idle => some (sh, .top, [])
  | .poll, .poll (.failed error) => some (sh, .left (.error error), [.udpFailed error])
  | .recv, .recv (.ok datagram) => some (sh, .push datagram, [])
  | .recv, .recv (.error error) =>
      if error.kind = .wouldBlock ∨ error.kind = .interrupted then some (sh, .top, [])
      else some (sh, .left (.error error), [.udpFailed error])
  | .push datagram, .go =>
      match sh.call .udpRx (.push datagram) with
      | none => none
      | some (sh, evs) =>
          some ({ sh with encryptedDrops := sh.encryptedDrops + (pushAnswer evs).dropped },
            if pushAnswer evs = .refused then .left (.ok ()) else .notify,
            .arrived datagram :: evs.map (.queue .udpRx))
  | .notify, .go => some ({ sh with progress := sh.progress.notify }, .recv, [])
  | .cleanup result (op :: rest), .go =>
      match cleanupStep ended sh op with
      | none => none
      | some (sh, evs) => some (sh, .cleanup result rest, evs)
  | _, _ => none

/-! ## The server -/

structure State where
  shared : Shared
  main : MainPc
  tunRead : TunReadPc
  encrypt : EncryptPc
  udpWrite : UdpWritePc
  decrypt : DecryptPc
  control : ControlPc

/-- What `join` would answer. -/
def State.joined (s : State) : Worker → Option (Except IoError Unit)
  | .tunRead => match s.tunRead with | .ended result => some result | _ => none
  | .encrypt => match s.encrypt with | .ended result => some result | _ => none
  | .udpWrite => match s.udpWrite with | .ended result => some result | _ => none
  | .decrypt => match s.decrypt with | .ended result => some result | _ => none
  | .control => match s.control with | .ended result => some result | _ => none

/-- The worker is between `lock` and the end of the guard. -/
def State.holds (s : State) : Worker → Bool
  | .tunRead => false
  | .encrypt => match s.encrypt with | .route _ | .retry _ | .flush _ => true | _ => false
  | .udpWrite => match s.udpWrite with | .drain _ => true | _ => false
  | .decrypt =>
      match s.decrypt with
      | .read _ | .writeTun _ _ | .tunCall _ _ | .dedupe _ _ | .handle _ => true
      | _ => false
  | .control => match s.control with | .pass | .purge _ => true | _ => false

/-- Nobody holds the session lock. -/
def State.lockFree (s : State) : Bool :=
  !(s.holds .encrypt || s.holds .udpWrite || s.holds .decrypt || s.holds .control)

/-- What is notified under the session lock: the UDP writer, when wolfSSL hands a
datagram to `dtls_send` or a session was read; the encrypt worker; the control
worker, when a session changes or is dropped. -/
inductive Notice where
  | progress
  | retry
  | change
  | wake

/-- Whether the worker gives such a notice under the lock. -/
def Worker.Gives : Worker → Notice → Bool
  | .tunRead, _ => false
  | .encrypt, .progress => true
  | .encrypt, _ => false
  | .udpWrite, .wake => true
  | .udpWrite, _ => false
  | .decrypt, _ => true
  | .control, .progress => true
  | .control, .wake => true
  | .control, _ => false

def Shared.give (sh : Shared) : Notice → Option (Shared × List Event)
  | .progress => some ({ sh with progress := sh.progress.notify }, [])
  | .retry => some ({ sh with retryRequested := true }, [])
  | .change =>
      match sh.call .tunRead .notifyChange with
      | none => none
      | some (sh, evs) => some (sh, evs.map (.queue .tunRead))
  | .wake => some ({ sh with wake := true }, [])

/-- The worker panics, unless it is on its way out. -/
def State.panic (s : State) : Worker → Option State
  | .tunRead =>
      match s.tunRead with
      | .leave _ | .ended _ => none
      | _ => some { s with tunRead := .leave (.error Worker.tunRead.panic) }
  | .encrypt =>
      match s.encrypt with
      | .leave _ | .ended _ => none
      | _ => some { s with encrypt := .leave (.error Worker.encrypt.panic) }
  | .udpWrite =>
      match s.udpWrite with
      | .leave _ | .ended _ => none
      | _ => some { s with udpWrite := .leave (.error Worker.udpWrite.panic) }
  | .decrypt =>
      match s.decrypt with
      | .drop _ | .leave _ | .ended _ => none
      | _ => some { s with decrypt := .drop (.error Worker.decrypt.panic) }
  | .control =>
      match s.control with
      | .leave _ | .ended _ => none
      | _ => some { s with control := .leave (.error Worker.control.panic) }

/-- The user interrupts the server, a worker panics or gives a notice under the
session lock, or a thread goes on. -/
inductive Act where
  | interrupt
  | panic (worker : Worker)
  | inside (worker : Worker) (notice : Notice)
  | main (call : MainCall)
  | tunRead (call : TunReadCall)
  | encrypt (call : EncryptCall)
  | udpWrite (call : UdpWriteCall)
  | decrypt (call : DecryptCall)
  | control (call : ControlCall)

def step (s : State) : Act → Option (State × List Event)
  | .interrupt => some ({ s with shared := { s.shared with running := false } }, [])
  | .panic worker => (s.panic worker).map fun s' => (s', [.panicked worker])
  | .inside worker notice =>
      if s.holds worker && worker.Gives notice then
        (s.shared.give notice).map fun r => ({ s with shared := r.1 }, r.2)
      else none
  | .main call =>
      (mainStep (fun worker => (s.joined worker).isSome) s.shared s.main call).map fun r =>
        ({ s with shared := r.1, main := r.2.1 }, r.2.2)
  | .tunRead call =>
      (tunReadStep s.shared s.tunRead call).map fun r =>
        ({ s with shared := r.1, tunRead := r.2.1 }, r.2.2)
  | .encrypt call =>
      (encryptStep s.lockFree s.shared s.encrypt call).map fun r =>
        ({ s with shared := r.1, encrypt := r.2.1 }, r.2.2)
  | .udpWrite call =>
      (udpWriteStep s.lockFree s.shared s.udpWrite call).map fun r =>
        ({ s with shared := r.1, udpWrite := r.2.1 }, r.2.2)
  | .decrypt call =>
      (decryptStep s.lockFree s.shared s.decrypt call).map fun r =>
        ({ s with shared := r.1, decrypt := r.2.1 }, r.2.2)
  | .control call =>
      (controlStep s.lockFree s.shared s.control call).map fun r =>
        ({ s with shared := r.1, control := r.2.1 }, r.2.2)

/-- What `run` returns, once all workers are joined. -/
def State.result (s : State) (read : Except IoError Unit) : Option (Except IoError Unit) := do
  let decrypt ← s.joined .decrypt
  let control ← s.joined .control
  let encrypt ← s.joined .encrypt
  let udpWrite ← s.joined .udpWrite
  let tunRead ← s.joined .tunRead
  return do
    read
    decrypt
    control
    encrypt
    udpWrite
    tunRead

/-- `ServerQueues::new`. -/
def freshQueues (name : QueueName) : QueueRun.Shared name.Item :=
  { queue := Queue.fresh SERVER_QUEUE_CAPACITY SendPath.server_capacity_pos, front := none
    pushes := 0 }

/-- The threads have just been started. -/
def State.start : State where
  shared :=
    { running := true, active := true, queues := freshQueues, progress := WorkerSignal.new
      retryRequested := false, wake := false, errors := [], reloads := 0, receivers := true
      encryptedDrops := 0, plainDrops := 0 }
  main := .top
  tunRead := .top
  encrypt := .top
  udpWrite := .top
  decrypt := .top
  control := .top

def machine : Machine State Act Event where
  init := State.start
  step := step

end ServerThreads

end AutobricksVpn
