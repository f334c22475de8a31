/-
# `AutobricksVpn.Server.Session` — one client session of the server

The record of `src/server/session.rs` and the operations that work on a single
session: what wolfSSL hands to `dtls_send` during a call (`Session.emit`), and
the plaintext queue of a session with its drain (`queueSessionPlain`,
`drainSessionPlain` of `src/server/encrypt.rs`).

wolfSSL is not part of the repository.  Each call into it takes its outcome,
and the datagrams it emits meanwhile, as an argument (`DtlsCall`).

The fields that decide access are collected in `Entry`; everything in this file
leaves a session's entry alone.
-/
import AutobricksVpn.Base.Queue
import AutobricksVpn.Net.Auth
import AutobricksVpn.Net.IoError
import Mathlib.Data.List.AList

namespace AutobricksVpn

/-! ## Constants and configuration -/

def SESSION_IDLE_TIMEOUT : Duration := Duration.fromSecs 300
def HANDSHAKE_TIMEOUT : Duration := Duration.fromSecs 10
/-- The idle limit of a session that is established and not logged in. -/
def LOGIN_TIMEOUT : Duration := Duration.fromSecs 120
def MAX_PENDING_PER_IP : Nat := 2
def SERVER_QUEUE_CAPACITY : Nat := 4096
def SESSION_TX_QUEUE_CAPACITY : Nat := 512
def SESSION_PACKET_TTL : Duration := Duration.fromSecs 2

/-- The two tables read from the `[client]` section. -/
structure Rules where
  bindings : AList (fun _ : Ipv4Addr => String)
  logins : AList (fun _ : Ipv4Addr => String × String)

/-- The settings of the `[server]` section that the workers look at. -/
structure ServerConfig where
  maxClients : Nat
  maxPendingHandshakes : Nat
  verifyClientSanIp : Bool
  allowBroadcast : Bool
  allowMulticast : Bool
  networkAddress : Ipv4Addr
  networkPrefix : Nat
  maxSessionLifetime : Duration
  configReloadInterval : Duration
  maxClients_pos : 0 < maxClients
  maxPendingHandshakes_pos : 0 < maxPendingHandshakes

/-- The values `disconnect_reason` takes. -/
inductive DisconnectReason where
  | serverShutdown
  | replaced
  | maxClients
  | handshakeTimeoutError
  | maxSessionLifetime
  | idleTimeout
  | bindingRevoked
  | udpWriteError
  | webDisconnect
  deriving DecidableEq

def DisconnectReason.text : DisconnectReason → String
  | .serverShutdown => "server_shutdown"
  | .replaced => "replaced"
  | .maxClients => "max_clients"
  | .handshakeTimeoutError => "handshake_timeout_error"
  | .maxSessionLifetime => "max_session_lifetime"
  | .idleTimeout => "idle_timeout"
  | .bindingRevoked => "binding_revoked"
  | .udpWriteError => "udp_write_error"
  | .webDisconnect => "web_disconnect"

/-! ## Calls into wolfSSL -/

/-- `DtlsIoResult`, with what a completed call hands over: the plaintext of a
read, the length of a write. -/
inductive DtlsIoResult (ρ : Type) where
  | complete (value : ρ)
  | wantRead
  | wantWrite
  deriving DecidableEq

/-- One call into the wolfSSL object of a session: its result and the
datagrams it hands to `dtls_send`. -/
structure DtlsCall (ρ : Type) where
  result : Except IoError ρ
  sent : List Packet

structure EncryptedDatagram where
  bytes : Packet
  enqueuedAt : Instant
  deriving DecidableEq

structure UdpDatagram where
  peer : SockaddrStorage
  peerSize : Nat
  packet : Packet
  deriving DecidableEq

/-- `let _ = queue.push(item)`. -/
def Queue.pushIgnore {α : Type} (queue : Queue α) (item : α) : Queue α :=
  match queue.push item with
  | .ok (queue, _) => queue
  | .error _ => queue

/-- A push adds its item at the back or not at all, and what goes is at the front. -/
theorem Queue.pushIgnore_sublist {α : Type} (q : Queue α) (x : α) :
    (q.pushIgnore x).items.Sublist (q.items ++ [x]) := by
  unfold Queue.pushIgnore
  rcases q.push_cases x with ⟨-, hp⟩ | ⟨old, rest, q', -, -, hi, hp, hi', -⟩ |
    ⟨q', -, -, hp, hi', -⟩
  · rw [hp]
    exact List.sublist_append_left _ _
  · rw [hp, hi]
    show q'.items.Sublist _
    rw [hi']
    exact (List.sublist_cons_self old rest).append_right _
  · rw [hp]
    show q'.items.Sublist _
    rw [hi']

/-- `saturating_add` on `u64`. -/
def saturatingAdd (a b : Nat) : Nat := min (a + b) (UInt64.size - 1)

/-! ## The session record -/

/-- `Session`.  `serial` stands for the identity of the record: the number of
the session in order of creation. -/
structure Session where
  serial : Nat
  peer : SockaddrStorage
  peerSize : Nat
  address : Ipv4Addr
  fingerprint : Option String
  established : Bool
  authenticated : Bool
  loginAttempted : Bool
  establishedAt : Option Instant
  lastActivity : Instant
  dtlsDeadline : Option Instant
  drainPending : Bool
  pendingInject : List Packet
  bytesTx : Nat
  bytesRx : Nat
  packetsTx : Nat
  packetsRx : Nat
  disconnectReason : DisconnectReason
  encTxQueue : Queue EncryptedDatagram
  rawTxQueue : Queue (Packet × Instant)

/-- The fields that decide what a session may do. -/
structure Entry where
  serial : Nat
  peer : SockaddrStorage
  address : Ipv4Addr
  fingerprint : Option String
  established : Bool
  authenticated : Bool
  loginAttempted : Bool
  establishedAt : Option Instant
  deriving DecidableEq

namespace Session

def entry (x : Session) : Entry :=
  { serial := x.serial, peer := x.peer, address := x.address, fingerprint := x.fingerprint,
    established := x.established, authenticated := x.authenticated,
    loginAttempted := x.loginAttempted, establishedAt := x.establishedAt }

/-- The record pushed when the cookie of an unknown peer is verified. -/
def create (serial : Nat) (peer : SockaddrStorage) (peerSize : Nat) (now : Instant) : Session :=
  { serial := serial, peer := peer, peerSize := peerSize, address := Ipv4Addr.unspecified,
    fingerprint := none, established := false, authenticated := false, loginAttempted := false,
    establishedAt := none, lastActivity := now, dtlsDeadline := none, drainPending := false,
    pendingInject := [], bytesTx := 0, bytesRx := 0, packetsTx := 0, packetsRx := 0,
    disconnectReason := .serverShutdown,
    encTxQueue := Queue.fresh SESSION_TX_QUEUE_CAPACITY (by decide),
    rawTxQueue := Queue.fresh SESSION_TX_QUEUE_CAPACITY (by decide) }

/-- `dtls_send` with a queued sender, once for each datagram emitted. -/
def emit (now : Instant) (sent : List Packet) (x : Session) : Session :=
  { x with
    encTxQueue := sent.foldl (fun queue bytes => queue.pushIgnore ⟨bytes, now⟩) x.encTxQueue }

/-- `queue_session_plain`. -/
def queueSessionPlain (now : Instant) (packet : Packet) (x : Session) : Session :=
  { x with rawTxQueue := x.rawTxQueue.pushIgnore (packet, now) }

end Session

/-! ## Draining the plaintext queue -/

inductive SendPacketResult where
  | sent
  | retry
  | dropPacket
  deriving DecidableEq

/-- What `write_status` answers to one packet. -/
abbrev WriteCall := DtlsCall (DtlsIoResult Nat)

/-- The answer taken when the outcomes given are used up. -/
def WriteCall.blocked : WriteCall := { result := .ok .wantWrite, sent := [] }

def sendTunnelPacket (now : Instant) (call : WriteCall) (packet : Packet) (x : Session) :
    Session × SendPacketResult :=
  let x := x.emit now call.sent
  match call.result with
  | .ok (.complete written) =>
      if written = packet.length then
        ({ x with
            lastActivity := now
            bytesTx := saturatingAdd x.bytesTx written
            packetsTx := saturatingAdd x.packetsTx 1 }, .sent)
      else (x, .dropPacket)
  | .ok .wantRead => (x, .retry)
  | .ok .wantWrite => (x, .retry)
  | .error _ => (x, .retry)

/-- `drain_session_plain`.  Every turn of the loop takes a packet off the
queue or ends it, so the number of queued packets bounds the turns. -/
def drainSessionPlain (now : Instant) : Nat → List WriteCall → Session → Session × SendPacketResult
  | 0, _, x => (x, .sent)
  | turns + 1, calls, x =>
      match x.rawTxQueue.tryPeek with
      | .error _ => (x, .sent)
      | .ok (front, queue) =>
          if SESSION_PACKET_TTL ≤ now - front.value.2 then
            drainSessionPlain now turns calls { x with rawTxQueue := queue }
          else
            match sendTunnelPacket now (calls.headD .blocked) front.value.1
                { x with rawTxQueue := queue } with
            | (x, .sent) => drainSessionPlain now turns calls.tail x
            | (x, .retry) => ({ x with rawTxQueue := front.drop x.rawTxQueue }, .retry)
            | (x, .dropPacket) => drainSessionPlain now turns calls.tail x

def Session.drainPlain (now : Instant) (calls : List WriteCall) (x : Session) : Session :=
  (drainSessionPlain now (x.rawTxQueue.len + 1) calls x).1

/-! ## None of this touches the entry -/

@[simp] theorem entry_emit (now : Instant) (sent : List Packet) (x : Session) :
    (x.emit now sent).entry = x.entry := rfl

@[simp] theorem entry_queueSessionPlain (now : Instant) (packet : Packet) (x : Session) :
    (x.queueSessionPlain now packet).entry = x.entry := rfl

theorem entry_sendTunnelPacket (now : Instant) (call : WriteCall) (packet : Packet) (x : Session) :
    (sendTunnelPacket now call packet x).1.entry = x.entry := by
  unfold sendTunnelPacket
  split
  · split <;> rfl
  · rfl
  · rfl
  · rfl

theorem entry_drainSessionPlain (now : Instant) :
    ∀ (turns : Nat) (calls : List WriteCall) (x : Session),
      (drainSessionPlain now turns calls x).1.entry = x.entry
  | 0, _, _ => rfl
  | turns + 1, calls, x => by
      unfold drainSessionPlain
      split
      · rfl
      · rename_i front queue _
        split
        · exact entry_drainSessionPlain now turns calls _
        · have hsend := entry_sendTunnelPacket now (calls.headD .blocked) front.value.1
            { x with rawTxQueue := queue }
          split <;> rename_i hs <;> rw [hs] at hsend
          · exact (entry_drainSessionPlain now turns calls.tail _).trans hsend
          · exact hsend
          · exact (entry_drainSessionPlain now turns calls.tail _).trans hsend

@[simp] theorem entry_drainPlain (now : Instant) (calls : List WriteCall) (x : Session) :
    (x.drainPlain now calls).entry = x.entry :=
  entry_drainSessionPlain now _ calls x

end AutobricksVpn
