/-
# `AutobricksVpn.Client.Tunnel` — the threads of a connected client

`run_connection` of `src/client/mod.rs` from the end of the login on, with the
six workers it starts and the four queues between them:

    socket ── udp_read ── encrypted_rx ── decrypt ── tun_write ── tun_write ── TUN
    socket ── udp_write ─── enc_tx ────── encrypt ──── raw_tx ─── tun_read ─── TUN

The main thread queues the keepalives, watches for the server to fall silent and
waits for a worker to report an error; then it stops the workers and joins them.

An action is one access of one thread to what they share, one reading of the
clock, or one call into the system or into wolfSSL, whose outcome it takes as an
argument.  The threads take their actions in any order, and time passes in
between.  The two flags are only ever cleared, so a look at both is one action.
-/
import AutobricksVpn.Client.Login
import AutobricksVpn.Base.QueueFifo
import AutobricksVpn.Server.SendPath

namespace AutobricksVpn

namespace ClientTunnel

open SendPath (Reading WorkerSignal)

/-! ## Constants -/

def QUEUE_CAPACITY : Nat := 512
def SERVER_LIVENESS_TIMEOUT : Duration := Duration.fromSecs 23
def HEALTH_PROBE_INTERVAL : Duration := Duration.fromSecs 20
def HEALTH_PROBE_RETRY_INTERVAL : Duration := Duration.fromSecs 1

/-- How long the main thread waits for an error. -/
def ERROR_WAIT : Duration := Duration.fromSecs 1 / 10

/-- How old a datagram may be when the UDP writer looks at it. -/
def DATAGRAM_TTL : Duration := Duration.fromSecs 2

def effectiveKeepaliveInterval (configured : Duration) : Duration :=
  min configured HEALTH_PROBE_INTERVAL

def notResponding : IoError := IoError.new .timedOut "server did not respond to keepalive"

def rawTxClosed : IoError := IoError.other "client raw TX queue closed"

def partialUdpWrite (written expected : Nat) : IoError :=
  IoError.new .writeZero s!"partial UDP datagram write: {written}/{expected} bytes"

def partialTunWriteOf (written expected : Nat) : IoError :=
  IoError.new .writeZero s!"partial TUN write: {written}/{expected} bytes"

/-! ## What the threads share -/

/-- The fields of `ClientQueues`. -/
inductive QueueName where
  | encryptedRx
  | rawTx
  | tunWrite
  | encTx
  deriving DecidableEq

abbrev QueueName.Item : QueueName → Type
  | .encTx => EncryptedDatagram
  | _ => Packet

theorem queue_capacity_pos : 0 < QUEUE_CAPACITY := by decide

structure Shared where
  /-- `RUNNING`. -/
  running : Bool
  active : Bool
  /-- Each queue, with the reservation of its consumer. -/
  queues : (name : QueueName) → QueueRun.Shared name.Item
  /-- `dtls_progress`. -/
  progress : WorkerSignal
  /-- The stop bit of the encrypt worker. -/
  encryptStop : Bool
  /-- The errors sent and not received. -/
  errors : List IoError
  /-- `last_server_activity`. -/
  activity : Instant
  encryptedDrops : Nat
  plainDrops : Nat
  now : Instant

inductive Event where
  | queue (name : QueueName) (event : QueueRun.Event name.Item)
  /-- A datagram of the server, handed to its queue. -/
  | arrived (datagram : Packet)
  /-- wolfSSL has taken the datagram. -/
  | injected (datagram : Nat × Packet)
  /-- A message wolfSSL has decrypted. -/
  | plaintext (message : Packet)
  | wroteTun (packet : Nat × Packet)
  /-- A packet of the TUN device or a keepalive, handed to its queue. -/
  | offered (packet : Packet)
  | wroteDtls (packet : Nat × Packet)
  /-- The datagram was sent, and found young enough at the time. -/
  | sent (datagram : Nat × EncryptedDatagram) (looked : Instant)
  /-- A keepalive was queued, as far as the main thread knows at the time. -/
  | keepalive (time : Instant)
  /-- `errors.send`. -/
  | failed (error : IoError)

namespace Shared

def continues (sh : Shared) : Bool := sh.running && sh.active

/-- One call on a queue. -/
def call (sh : Shared) (name : QueueName) (a : QueueRun.Act name.Item) :
    Option (Shared × List (QueueRun.Event name.Item)) :=
  match QueueRun.step (sh.queues name) a with
  | some (queue, evs) => some ({ sh with queues := Function.update sh.queues name queue }, evs)
  | none => none

end Shared

/-- What `push` answers: `Ok(None)`, `Ok(Some(_))` or `Err(_)`. -/
inductive PushAnswer where
  | stored
  | evicted
  | refused
  deriving DecidableEq

def pushAnswer {α : Type} : List (QueueRun.Event α) → PushAnswer
  | [.accepted _] => .stored
  | [.accepted _, .returned _] => .evicted
  | _ => .refused

/-- What a producer adds to its drop counter. -/
def PushAnswer.dropped : PushAnswer → Nat
  | .evicted => 1
  | .stored | .refused => 0

inductive Thread where
  | udpRead
  | tunRead
  | decrypt
  | tunWrite
  | encrypt
  | udpWrite
  deriving DecidableEq

/-! ## `udp_read` -/

/-- Where the thread is.  After an error it clears `active`, sends the error and
closes the queue. -/
inductive UdpReadPc where
  | top
  | poll
  | recv
  | push (datagram : Packet)
  | notify
  | store (error : IoError)
  | send (error : IoError)
  | close
  | ended
  deriving DecidableEq

inductive UdpReadCall where
  | go
  | poll (outcome : PollOutcome)
  | recv (result : Except IoError Packet)

def udpReadStep (sh : Shared) :
    UdpReadPc → UdpReadCall → Option (Shared × UdpReadPc × List Event)
  | .top, .go => some (sh, if sh.continues then .poll else .ended, [])
  | .poll, .poll outcome =>
      match waitForUdp outcome with
      | .ok ready => some (sh, if ready then .recv else .top, [])
      | .error error => some (sh, .store error, [])
  | .recv, .recv (.ok datagram) => some (sh, .push datagram, [])
  | .recv, .recv (.error error) =>
      if error.kind = .wouldBlock then some (sh, .top, [])
      else if error.kind = .interrupted then some (sh, .recv, [])
      else some (sh, .store error, [])
  | .push datagram, .go =>
      match sh.call .encryptedRx (.push datagram) with
      | none => none
      | some (sh, evs) =>
          some ({ sh with encryptedDrops := sh.encryptedDrops + (pushAnswer evs).dropped },
            if pushAnswer evs = .refused then .ended else .notify,
            .arrived datagram :: evs.map (.queue .encryptedRx))
  | .notify, .go => some ({ sh with progress := sh.progress.notify }, .recv, [])
  | .store error, .go => some ({ sh with active := false }, .send error, [])
  | .send error, .go => some ({ sh with errors := sh.errors ++ [error] }, .close, [.failed error])
  | .close, .go =>
      match sh.call .encryptedRx .close with
      | none => none
      | some (sh, evs) => some (sh, .ended, evs.map (.queue .encryptedRx))
  | _, _ => none

/-! ## `tun_read` -/

inductive TunReadPc where
  | top
  | poll
  | read
  | push (packet : Packet)
  | store (error : IoError)
  | send (error : IoError)
  | close
  | ended
  deriving DecidableEq

inductive TunReadCall where
  | go
  | poll (outcome : PollOutcome)
  | read (result : Except IoError Packet)

def tunReadStep (sh : Shared) :
    TunReadPc → TunReadCall → Option (Shared × TunReadPc × List Event)
  | .top, .go => some (sh, if sh.continues then .poll else .ended, [])
  | .poll, .poll .ready => some (sh, .read, [])
  | .poll, .poll .elapsed => some (sh, .top, [])
  | .poll, .poll .interrupted => some (sh, .top, [])
  | .poll, .poll (.failed errno) => some (sh, .store errno.error, [])
  | .read, .read (.ok packet) => some (sh, if packet = [] then .top else .push packet, [])
  | .read, .read (.error error) =>
      if error.kind = .wouldBlock then some (sh, .top, [])
      else if error.kind = .interrupted then some (sh, .top, [])
      else some (sh, .store error, [])
  | .push packet, .go =>
      match sh.call .rawTx (.push packet) with
      | none => none
      | some (sh, evs) =>
          some ({ sh with plainDrops := sh.plainDrops + (pushAnswer evs).dropped },
            if pushAnswer evs = .refused then .ended else .top,
            .offered packet :: evs.map (.queue .rawTx))
  | .store error, .go => some ({ sh with active := false }, .send error, [])
  | .send error, .go => some ({ sh with errors := sh.errors ++ [error] }, .close, [.failed error])
  | .close, .go =>
      match sh.call .rawTx .close with
      | none => none
      | some (sh, evs) => some (sh, .ended, evs.map (.queue .rawTx))
  | _, _ => none

/-! ## `decrypt` -/

inductive DecryptPc where
  | top
  | observe
  /-- In `read_status`. -/
  | read (observed : Reading)
  | received (message : Packet)
  | push (packet : Packet)
  /-- Everything decrypted has been read. -/
  | notify (observed : Reading)
  /-- Before the look at `pending`. -/
  | next (observed : Reading)
  | inject (datagram : Nat × Packet)
  | wait (observed : Reading)
  /-- In the wait after `WantWrite`. -/
  | waitWrite (observed : Reading)
  | store (error : IoError)
  | send (error : IoError)
  | ended

/-- The thread with its local variables. -/
structure Decrypt where
  pc : DecryptPc
  pending : Option (Nat × Packet)
  drain : Bool

inductive DecryptCall where
  | go
  | read (result : Except IoError (DtlsIoResult Packet))
  | inject (result : Except IoError Bool)

/-- What comes of `try_pop`: a datagram, `Empty` or `Closed`. -/
def Decrypt.popped (d : Decrypt) (observed : Reading) (closed : Bool) :
    List (QueueRun.Event Packet) → Decrypt
  | [.delivered datagram] => { d with pc := .inject datagram, pending := some datagram }
  | _ => { d with pc := if closed then .ended else .wait observed }

/-- What is done with a message: keepalives and what is no packet go no further. -/
def isTunnelPacket (message : Packet) : Bool :=
  !isKeepalivePacket message && (ipv4PacketAddresses message).isSome

def decryptStep (sh : Shared) (d : Decrypt) :
    DecryptCall → Option (Shared × Decrypt × List Event)
  | .go =>
      match d.pc with
      | .top => some (sh, { d with pc := if sh.continues then .observe else .ended }, [])
      | .observe =>
          some (sh, { d with
            pc := if d.drain then .read sh.progress.generation else .next sh.progress.generation }, [])
      | .received message =>
          some ({ sh with activity := sh.now },
            { d with pc := if isTunnelPacket message then .push message else .top }, [])
      | .push packet =>
          match sh.call .tunWrite (.push packet) with
          | none => none
          | some (sh, evs) =>
              some (sh, { d with pc := if pushAnswer evs = .refused then .ended else .top },
                evs.map (.queue .tunWrite))
      | .notify observed =>
          some ({ sh with progress := sh.progress.notify }, { d with pc := .next observed }, [])
      | .next observed =>
          match d.pending with
          | some datagram => some (sh, { d with pc := .inject datagram }, [])
          | none =>
              match sh.call .encryptedRx .tryPop with
              | none => none
              | some (sh, evs) =>
                  some (sh, d.popped observed (sh.queues .encryptedRx).queue.isClosed evs,
                    evs.map (.queue .encryptedRx))
      | .wait observed | .waitWrite observed =>
          match sh.progress.wait observed with
          | some _ => some (sh, { d with pc := .top }, [])
          | none => none
      | .store error => some ({ sh with active := false }, { d with pc := .send error }, [])
      | .send error =>
          some ({ sh with errors := sh.errors ++ [error] }, { d with pc := .ended }, [.failed error])
      | .read _ | .inject _ | .ended => none
  | .read result =>
      match d.pc with
      | .read observed =>
          match result with
          | .ok (.complete message) =>
              if message = [] then some (sh, { d with pc := .notify observed, drain := false }, [])
              else some (sh, { d with pc := .received message }, [.plaintext message])
          | .ok .wantRead => some (sh, { d with pc := .notify observed, drain := false }, [])
          | .ok .wantWrite => some (sh, { d with pc := .waitWrite observed }, [])
          | .error error => some (sh, { d with pc := .store error }, [])
      | _ => none
  | .inject result =>
      match d.pc with
      | .inject datagram =>
          match result with
          | .ok true =>
              some (sh, { pc := .top, pending := none, drain := true }, [.injected datagram])
          | .ok false => some (sh, { d with pc := .top, drain := true }, [])
          | .error error => some (sh, { d with pc := .store error }, [])
      | _ => none

/-! ## `tun_write` -/

inductive TunWritePc where
  | top
  | peek
  | peeked
  | write
  /-- The reservation is dropped, and the loop goes on. -/
  | restore
  | store (error : IoError)
  | send (error : IoError)
  /-- The reservation is dropped on the way out. -/
  | leave
  | ended
  deriving DecidableEq

inductive TunWriteCall where
  | go
  | write (result : Except IoError Nat)

/-- The item the consumer of a queue has reserved. -/
def Shared.front (sh : Shared) (name : QueueName) : Option (Nat × name.Item) :=
  (sh.queues name).front.map QueueFront.item

def tunWriteStep (sh : Shared) :
    TunWritePc → TunWriteCall → Option (Shared × TunWritePc × List Event)
  | .top, .go => some (sh, if sh.continues then .peek else .ended, [])
  | .peek, .go =>
      match sh.call .tunWrite .peek with
      | none => none
      | some (sh, evs) =>
          some (sh, if (sh.front .tunWrite).isSome then .peeked else .ended,
            evs.map (.queue .tunWrite))
  | .peeked, .go => some (sh, if sh.continues then .write else .leave, [])
  | .write, .write result =>
      match sh.front .tunWrite with
      | none => none
      | some packet =>
          match result with
          | .ok written =>
              if written = packet.2.length then
                match sh.call .tunWrite .commit with
                | none => none
                | some (sh, evs) => some (sh, .top, .wroteTun packet :: evs.map (.queue .tunWrite))
              else some (sh, .store (partialTunWriteOf written packet.2.length), [])
          | .error error =>
              if error.kind = .interrupted ∨ error.kind = .wouldBlock then some (sh, .restore, [])
              else some (sh, .store error, [])
  | .restore, .go =>
      match sh.call .tunWrite .restore with
      | none => none
      | some (sh, evs) => some (sh, .top, evs.map (.queue .tunWrite))
  | .store error, .go => some ({ sh with active := false }, .send error, [])
  | .send error, .go => some ({ sh with errors := sh.errors ++ [error] }, .leave, [.failed error])
  | .leave, .go =>
      match sh.call .tunWrite .restore with
      | none => none
      | some (sh, evs) => some (sh, .ended, evs.map (.queue .tunWrite))
  | _, _ => none

/-! ## `encrypt`, a worker of `QueueWorker::spawn_scan_peek` -/

inductive EncryptPc where
  | top
  | peek
  | peeked
  /-- Before the look at `active`. -/
  | process
  /-- In `write_status`. -/
  | write
  | restore
  | store (error : IoError)
  | send (error : IoError)
  /-- Before `receive_queue.close()`. -/
  | close
  /-- `process` has answered `true`. -/
  | commit
  | leave
  | ended
  deriving DecidableEq

inductive EncryptCall where
  | go
  | write (result : Except IoError (DtlsIoResult Nat))

def encryptStep (sh : Shared) :
    EncryptPc → EncryptCall → Option (Shared × EncryptPc × List Event)
  | .top, .go => some (sh, if sh.encryptStop then .ended else .peek, [])
  | .peek, .go =>
      match sh.call .rawTx .peek with
      | none => none
      | some (sh, evs) =>
          some (sh, if (sh.front .rawTx).isSome then .peeked else .ended, evs.map (.queue .rawTx))
  | .peeked, .go => some (sh, if sh.encryptStop then .leave else .process, [])
  | .process, .go => some (sh, if sh.active then .write else .commit, [])
  | .write, .write result =>
      match sh.front .rawTx with
      | none => none
      | some packet =>
          match result with
          | .ok (.complete written) =>
              -- a partial write drops the packet
              if written = packet.2.length then some (sh, .commit, [.wroteDtls packet])
              else some (sh, .commit, [])
          | .ok .wantRead => some (sh, .restore, [])
          | .ok .wantWrite => some (sh, .restore, [])
          | .error error => some (sh, .store error, [])
  | .restore, .go =>
      match sh.call .rawTx .restore with
      | none => none
      | some (sh, evs) => some (sh, .top, evs.map (.queue .rawTx))
  | .store error, .go => some ({ sh with active := false }, .send error, [])
  | .send error, .go => some ({ sh with errors := sh.errors ++ [error] }, .close, [.failed error])
  | .close, .go =>
      match sh.call .encryptedRx .close with
      | none => none
      | some (sh, evs) => some (sh, .commit, evs.map (.queue .encryptedRx))
  | .commit, .go =>
      match sh.call .rawTx .commit with
      | none => none
      | some (sh, evs) => some (sh, .top, evs.map (.queue .rawTx))
  | .leave, .go =>
      match sh.call .rawTx .restore with
      | none => none
      | some (sh, evs) => some (sh, .ended, evs.map (.queue .rawTx))
  | _, _ => none

/-! ## `udp_write` -/

inductive UdpWritePc where
  | top
  | peek
  | peeked
  /-- Before the look at the age of the datagram. -/
  | check
  | send (looked : Instant)
  | notify
  | restore
  | store (error : IoError)
  | report (error : IoError)
  | leave
  | ended
  deriving DecidableEq

inductive UdpWriteCall where
  | go
  | send (result : Except IoError Nat)

def udpWriteStep (sh : Shared) :
    UdpWritePc → UdpWriteCall → Option (Shared × UdpWritePc × List Event)
  | .top, .go => some (sh, if sh.continues then .peek else .ended, [])
  | .peek, .go =>
      match sh.call .encTx .peek with
      | none => none
      | some (sh, evs) =>
          some (sh, if (sh.front .encTx).isSome then .peeked else .ended, evs.map (.queue .encTx))
  | .peeked, .go => some (sh, if sh.continues then .check else .leave, [])
  | .check, .go =>
      match sh.front .encTx with
      | none => none
      | some datagram =>
          if DATAGRAM_TTL ≤ sh.now - datagram.2.enqueuedAt then
            match sh.call .encTx .commit with
            | none => none
            | some (sh, evs) => some (sh, .notify, evs.map (.queue .encTx))
          else some (sh, .send sh.now, [])
  | .send looked, .send result =>
      match sh.front .encTx with
      | none => none
      | some datagram =>
          match result with
          | .ok written =>
              if written = datagram.2.bytes.length then
                match sh.call .encTx .commit with
                | none => none
                | some (sh, evs) =>
                    some (sh, .notify, .sent datagram looked :: evs.map (.queue .encTx))
              else some (sh, .store (partialUdpWrite written datagram.2.bytes.length), [])
          | .error error =>
              if error.kind = .interrupted ∨ error.kind = .wouldBlock then some (sh, .restore, [])
              else some (sh, .store error, [])
  | .notify, .go => some ({ sh with progress := sh.progress.notify }, .top, [])
  | .restore, .go =>
      match sh.call .encTx .restore with
      | none => none
      | some (sh, evs) => some (sh, .top, evs.map (.queue .encTx))
  | .store error, .go => some ({ sh with active := false }, .report error, [])
  | .report error, .go => some ({ sh with errors := sh.errors ++ [error] }, .leave, [.failed error])
  | .leave, .go =>
      match sh.call .encTx .restore with
      | none => none
      | some (sh, evs) => some (sh, .ended, evs.map (.queue .encTx))
  | _, _ => none

/-! ## The main thread -/

/-- What is done after the loop. -/
inductive Cleanup where
  /-- `active.store(false)`. -/
  | store
  | close (name : QueueName)
  | notify
  | join (thread : Thread)
  /-- The first half of `encrypt_worker.stop()`; it closes the queue again. -/
  | stopEncrypt
  deriving DecidableEq

def cleanup : List Cleanup :=
  [.store, .close .encryptedRx, .close .rawTx, .close .tunWrite, .close .encTx, .notify,
    .join .decrypt, .stopEncrypt, .close .rawTx, .join .encrypt, .join .udpRead, .join .tunRead,
    .join .tunWrite, .join .udpWrite]

inductive MainPc where
  | top
  /-- Before `elapsed` of the last activity. -/
  | check
  | due (serverIdle : Duration)
  | decide (probeDue : Bool)
  | push (probeDue : Bool)
  /-- The keepalive is queued. -/
  | pushed (probeDue : Bool)
  | probed
  | receive
  | receiving (deadline : Instant)
  | cleanup (result : Except IoError Unit) (rest : List Cleanup)

/-- The main thread with its local variables; `lastCheck` is the time of its last
look at the activity of the server, which the source does not keep. -/
structure Main where
  pc : MainPc
  lastKeepalive : Instant
  lastProbe : Instant
  probing : Bool
  lastCheck : Instant

/-- `probe_due`. -/
def Main.probeDue (m : Main) (now : Instant) (serverIdle : Duration) : Bool :=
  decide (HEALTH_PROBE_INTERVAL ≤ serverIdle) &&
    (!m.probing || decide (HEALTH_PROBE_RETRY_INTERVAL ≤ now - m.lastProbe))

/-- `keepalive_due`. -/
def Main.keepaliveDue (m : Main) (interval : Duration) (now : Instant) : Bool :=
  !m.probing && decide (interval ≤ now - m.lastKeepalive)

/-- The loop is left with this result. -/
def Main.leave (m : Main) (result : Except IoError Unit) : Main :=
  { m with pc := .cleanup result ClientTunnel.cleanup }

def cleanupStep (ended : Thread → Bool) (sh : Shared) :
    Cleanup → Option (Shared × List Event)
  | .store => some ({ sh with active := false }, [])
  | .close name =>
      match sh.call name .close with
      | none => none
      | some (sh, evs) => some (sh, evs.map (.queue name))
  | .notify => some ({ sh with progress := sh.progress.notify }, [])
  | .join thread => if ended thread then some (sh, []) else none
  | .stopEncrypt => some ({ sh with encryptStop := true }, [])

/-- `interval` is the effective interval. -/
def mainStep (interval : Duration) (ended : Thread → Bool) (sh : Shared) (m : Main) :
    Option (Shared × Main × List Event) :=
  match m.pc with
  | .top => some (sh, if sh.continues then { m with pc := .check } else m.leave (.ok ()), [])
  | .check =>
      if SERVER_LIVENESS_TIMEOUT ≤ sh.now - sh.activity then
        some (sh, { m with lastCheck := sh.now }.leave (.error notResponding), [])
      else
        some (sh,
          { m with
            lastCheck := sh.now
            probing := m.probing && !decide (sh.now - sh.activity < HEALTH_PROBE_INTERVAL)
            pc := .due (sh.now - sh.activity) }, [])
  | .due serverIdle => some (sh, { m with pc := .decide (m.probeDue sh.now serverIdle) }, [])
  | .decide probeDue =>
      if probeDue || m.keepaliveDue interval sh.now then
        some (sh, { m with pc := .push probeDue }, [])
      else some (sh, { m with pc := .receive }, [])
  | .push probeDue =>
      match sh.call .rawTx (.push KEEPALIVE_PACKET) with
      | none => none
      | some (sh, evs) =>
          some ({ sh with plainDrops := sh.plainDrops + (pushAnswer evs).dropped },
            if pushAnswer evs = .refused then m.leave (.error rawTxClosed)
            else { m with pc := .pushed probeDue },
            .offered KEEPALIVE_PACKET :: evs.map (.queue .rawTx))
  | .pushed probeDue =>
      some (sh, { m with lastKeepalive := sh.now, pc := if probeDue then .probed else .receive },
        [.keepalive sh.now])
  | .probed => some (sh, { m with probing := true, lastProbe := sh.now, pc := .receive }, [])
  | .receive => some (sh, { m with pc := .receiving (sh.now + ERROR_WAIT) }, [])
  | .receiving deadline =>
      match sh.errors with
      | error :: rest => some ({ sh with errors := rest }, m.leave (.error error), [])
      | [] => if deadline ≤ sh.now then some (sh, { m with pc := .top }, []) else none
  | .cleanup _ [] => none
  | .cleanup result (op :: rest) =>
      match cleanupStep ended sh op with
      | none => none
      | some (sh, evs) => some (sh, { m with pc := .cleanup result rest }, evs)

/-! ## The connection -/

structure State where
  shared : Shared
  udpRead : UdpReadPc
  tunRead : TunReadPc
  decrypt : Decrypt
  tunWrite : TunWritePc
  encrypt : EncryptPc
  udpWrite : UdpWritePc
  main : Main

/-- The thread has run to its end. -/
def State.ended (s : State) : Thread → Bool
  | .udpRead => (s.udpRead matches .ended)
  | .tunRead => (s.tunRead matches .ended)
  | .decrypt => (s.decrypt.pc matches .ended)
  | .tunWrite => (s.tunWrite matches .ended)
  | .encrypt => (s.encrypt matches .ended)
  | .udpWrite => (s.udpWrite matches .ended)

/-- Some worker is in a call into wolfSSL. -/
def State.inWolfSsl (s : State) : Bool :=
  match s.decrypt.pc, s.encrypt with
  | .read _, _ => true
  | .inject _, _ => true
  | _, .write => true
  | _, _ => false

/-- Time passes, the user interrupts the client, wolfSSL hands a datagram to
`dtls_send`, or a thread goes on. -/
inductive Act where
  | tick (d : Duration)
  | interrupt
  | dtlsSend (bytes : Packet)
  | udpRead (call : UdpReadCall)
  | tunRead (call : TunReadCall)
  | decrypt (call : DecryptCall)
  | tunWrite (call : TunWriteCall)
  | encrypt (call : EncryptCall)
  | udpWrite (call : UdpWriteCall)
  | main

def step (interval : Duration) (s : State) : Act → Option (State × List Event)
  | .tick d => some ({ s with shared := { s.shared with now := s.shared.now + d } }, [])
  | .interrupt => some ({ s with shared := { s.shared with running := false } }, [])
  | .dtlsSend bytes =>
      if s.inWolfSsl then
        match s.shared.call .encTx (.push ⟨bytes, s.shared.now⟩) with
        | none => none
        | some (sh, evs) => some ({ s with shared := sh }, evs.map (.queue .encTx))
      else none
  | .udpRead call =>
      (udpReadStep s.shared s.udpRead call).map fun r =>
        ({ s with shared := r.1, udpRead := r.2.1 }, r.2.2)
  | .tunRead call =>
      (tunReadStep s.shared s.tunRead call).map fun r =>
        ({ s with shared := r.1, tunRead := r.2.1 }, r.2.2)
  | .decrypt call =>
      (decryptStep s.shared s.decrypt call).map fun r =>
        ({ s with shared := r.1, decrypt := r.2.1 }, r.2.2)
  | .tunWrite call =>
      (tunWriteStep s.shared s.tunWrite call).map fun r =>
        ({ s with shared := r.1, tunWrite := r.2.1 }, r.2.2)
  | .encrypt call =>
      (encryptStep s.shared s.encrypt call).map fun r =>
        ({ s with shared := r.1, encrypt := r.2.1 }, r.2.2)
  | .udpWrite call =>
      (udpWriteStep s.shared s.udpWrite call).map fun r =>
        ({ s with shared := r.1, udpWrite := r.2.1 }, r.2.2)
  | .main =>
      (mainStep interval s.ended s.shared s.main).map fun r =>
        ({ s with shared := r.1, main := r.2.1 }, r.2.2)

/-- `ClientQueues::new`. -/
def freshQueues (name : QueueName) : QueueRun.Shared name.Item :=
  { queue := Queue.fresh QUEUE_CAPACITY queue_capacity_pos, front := none, pushes := 0 }

/-- The threads have just been started. -/
def State.start (running : Bool) (now : Instant) : State where
  shared :=
    { running := running, active := true, queues := freshQueues, progress := WorkerSignal.new
      encryptStop := false, errors := [], activity := now, encryptedDrops := 0, plainDrops := 0
      now := now }
  udpRead := .top
  tunRead := .top
  decrypt := { pc := .top, pending := none, drain := false }
  tunWrite := .top
  encrypt := .top
  udpWrite := .top
  main :=
    { pc := .top, lastKeepalive := now, lastProbe := now, probing := false, lastCheck := now }

/-- A connection whose keepalive interval is configured so. -/
def machine (configured : Duration) (running : Bool) (now : Instant) :
    Machine State Act Event where
  init := State.start running now
  step := step (effectiveKeepaliveInterval configured)

end ClientTunnel

end AutobricksVpn
