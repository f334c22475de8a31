/-
# `AutobricksVpn.Server.ControlSocket` — the commands and the watchers

`ControlSocket` of `src/server/control.rs`.  A connection sends one line and is
served when the line is complete; a connection that sent `WATCH` stays, and gets
a report of the authenticated sessions now and then.

`process` takes the connections that came, reads what they sent and carries out
the lines that are complete, in the order in which they were accepted.  Which
lines these are depends on the connections alone (`batch`), so what it does to
the sessions is what `handleCommands` does for the lines (`serve_sessions`).
-/
import AutobricksVpn.Lib.TextStream
import AutobricksVpn.Config.Text
import AutobricksVpn.Server.Control
import AutobricksVpn.Server.Watcher

namespace AutobricksVpn

/-! ## The bytes of a line -/

open TextStream

/-- The bytes of `rest` that continue the encoding `first` begins. -/
def continuation (first : UInt8) : List UInt8 → List UInt8
  | [] => []
  | b :: rest =>
      if 1 < encodedSize first && mayFollow first b then
        b :: (rest.take (encodedSize first - 2)).takeWhile isContinuation
      else []

/-- The characters, where the first `skip` bytes were read before. -/
def fromUtf8LossyFrom : Nat → List UInt8 → Text
  | _, [] => []
  | skip + 1, _ :: rest => fromUtf8LossyFrom skip rest
  | 0, first :: rest =>
      let more := continuation first rest
      decodeSequence (first :: more) :: fromUtf8LossyFrom more.length rest

/-- `String::from_utf8_lossy`: the longest beginning of an encoding that is not
continued comes out as one U+FFFD. -/
def fromUtf8Lossy (bytes : List UInt8) : Text := fromUtf8LossyFrom 0 bytes

example : fromUtf8Lossy [0x41, 0xE2, 0x82, 0x42, 0xFF, 0x0A] =
    ['A', '\uFFFD', 'B', '\uFFFD', '\n'] := by
  decide +kernel

/-! ## Reports -/

/-- `write_session_identity`. -/
def sessionIdentity (sessions : List Session) : String :=
  (sessions.filter (·.authenticated)).foldl (fun output x =>
    let fingerprint := x.fingerprint.getD ""
    let clientIp := ((peerIpv4 x.peer).map Ipv4Addr.display).getD ""
    output ++ s!"{x.address.display}:{fingerprint}:{clientIp}|") ""

/-- The object of one session. -/
def sessionObject (now : Instant) (x : Session) : String :=
  let address := x.address.display
  let fingerprint := x.fingerprint.getD ""
  let clientIp := ((peerIpv4 x.peer).map Ipv4Addr.display).getD ""
  let connected := (x.establishedAt.map fun started => (now - started) / 1000000000).getD 0
  s!"\x7b\"vpnAddress\":\"{address}\",\"fingerprint\":\"{fingerprint}\"," ++
    s!"\"clientIp\":\"{clientIp}\",\"connectedSeconds\":{connected}," ++
    s!"\"bytesTx\":{x.bytesTx},\"bytesRx\":{x.bytesRx}," ++
    s!"\"packetsTx\":{x.packetsTx},\"packetsRx\":{x.packetsRx}\x7d"

def sessionSnapshot (now : Instant) (sessions : List Session) : String :=
  "\x7b\"type\":\"sessions\",\"sessions\":[" ++
    ",".intercalate ((sessions.filter (·.authenticated)).map (sessionObject now)) ++ "]\x7d"

/-- The sessions as they were found at some time. -/
structure Report where
  now : Instant
  sessions : List Session

/-- The line that is sent for it. -/
def Report.message (report : Report) : List UInt8 :=
  asBytes (sessionSnapshot report.now report.sessions) ++ [0x0A]

/-! ## The socket -/

/-- `PendingCommand`. -/
structure PendingCommand where
  stream : Nat
  bytes : List UInt8
  acceptedAt : Instant
  bounded : bytes.length ≤ 256

/-- A watcher, with its connection and the report it was given last. -/
structure Subscriber where
  stream : Nat
  watcher : Watcher
  given : Report

structure ControlSocket where
  pending : List PendingCommand
  watchers : List Subscriber
  reloadRequested : Bool
  reloadResponses : List Nat
  lastIdentity : String

/-- What is written to the connections, apart from the reports. -/
structure Answer where
  stream : Nat
  text : String
  deriving DecidableEq

def PENDING_COMMANDS : Nat := 64
def COMMAND_TIMEOUT : Duration := Duration.fromSecs 3

namespace PendingCommand

def accept (now : Instant) (stream : Nat) : PendingCommand :=
  { stream := stream, bytes := [], acceptedAt := now, bounded := Nat.zero_le _ }

/-- As much of the bytes that came as there is room for. -/
def append (p : PendingCommand) (data : List UInt8) : PendingCommand :=
  { p with
    bytes := p.bytes ++ data.take (256 - p.bytes.length)
    bounded := by
      have := p.bounded
      rw [List.length_append, List.length_take]
      omega }

/-- The loop of reads, and whether the line is complete then.  A read would
block when the outcomes given are used up. -/
def read : List (Except IoError (List UInt8)) → PendingCommand → PendingCommand × Bool
  | [], p => (p, p.bytes.length == 256)
  | call :: calls, p =>
      if p.bytes.length = 256 then (p, true)
      else
        match call with
        | .error error => (p, error.kind != .wouldBlock)
        | .ok data =>
            if data = [] then (p, true)
            else if 0x0A ∈ (p.append data).bytes then (p.append data, true)
            else read calls (p.append data)

/-- The line, as far as it was read. -/
def line (p : PendingCommand) : Text := Text.trim (fromUtf8Lossy p.bytes)

end PendingCommand

/-- The command that a line is. -/
def readCommand (stream : Nat) (line : Text) : Command :=
  if line = "WATCH".toList then .watch
  else if line = "STATUS".toList then .status
  else if line = "RELOAD".toList then .reload stream
  else
    match Text.stripStart "DISCONNECT ".toList line with
    | none => .invalid
    | some address => ((Text.parseIpv4 address).map Command.disconnect).getD .invalid

/-- The error of a line that is no command. -/
def invalidCommand (line : Text) : String :=
  if (Text.stripStart "DISCONNECT ".toList line).isSome then
    "\x7b\"ok\":false,\"error\":\"invalid_vpn_address\"\x7d\n"
  else "\x7b\"ok\":false,\"error\":\"invalid_command\"\x7d\n"

/-- The outcomes of the calls a pass makes on the connections: reads, the
writes to a watcher when it is made, and those of `publish_if_changed`. -/
structure SocketCalls where
  reads : Nat → List (Except IoError (List UInt8))
  greets : Nat → List (Except IoError Nat)
  pushes : Nat → List (Except IoError Nat)

/-- What a part of a pass leaves. -/
structure Processed where
  control : ControlSocket
  sessions : List Session
  events : List Event
  answers : List Answer

namespace ControlSocket

/-- The loop of `accept`; an error of `accept` or `set_nonblocking` ends the worker. -/
def acceptAll (now : Instant) :
    List (Except IoError Nat) → List PendingCommand → Except IoError (List PendingCommand)
  | [], pending => .ok pending
  | .error error :: _, _ => .error error
  | .ok stream :: arrivals, pending =>
      acceptAll now arrivals
        (if pending.length < PENDING_COMMANDS then pending ++ [.accept now stream] else pending)

def handleCommand (now : Instant) (calls : SocketCalls) (c : ControlSocket) (stream : Nat)
    (line : Text) (sessions : List Session) : Processed :=
  match readCommand stream line with
  | .watch =>
      let report : Report := ⟨now, sessions⟩
      let greeted := (Watcher.new report.message).flush (calls.greets stream)
      { control :=
          if greeted.ok then
            { c with watchers := c.watchers ++ [⟨stream, greeted.watcher, report⟩] }
          else c
        sessions := sessions, events := [], answers := [] }
  | .status =>
      { control := c, sessions := sessions, events := []
        answers := [⟨stream, sessionSnapshot now sessions ++ "\n"⟩] }
  | .reload stream =>
      { control := { c with
          reloadRequested := true
          reloadResponses := c.reloadResponses ++ [stream] }
        sessions := sessions, events := [], answers := [] }
  | .disconnect address =>
      let left := AutobricksVpn.handleCommand sessions (.disconnect address)
      let removed := sessions.length - left.1.length
      { control := c, sessions := left.1, events := left.2
        answers := [⟨stream, s!"\x7b\"ok\":true,\"disconnected\":{removed}\x7d\n"⟩] }
  | .invalid =>
      { control := c, sessions := sessions, events := []
        answers := [⟨stream, invalidCommand line⟩] }

/-- The loop over the connections that were pending. -/
def serve (now : Instant) (calls : SocketCalls) :
    List PendingCommand → ControlSocket → List Session → Processed
  | [], c, sessions => { control := c, sessions := sessions, events := [], answers := [] }
  | p :: rest, c, sessions =>
      if COMMAND_TIMEOUT ≤ now - p.acceptedAt then serve now calls rest c sessions
      else
        match p.read (calls.reads p.stream) with
        | (p, false) => serve now calls rest { c with pending := c.pending ++ [p] } sessions
        | (p, true) =>
            let first := c.handleCommand now calls p.stream p.line sessions
            let rest := serve now calls rest first.control first.sessions
            { rest with events := first.events ++ rest.events, answers := first.answers ++ rest.answers }

/-- `retain_mut(Watcher::flush)`. -/
def flushWatchers (pushes : Nat → List (Except IoError Nat)) (watchers : List Subscriber) :
    List Subscriber :=
  watchers.filterMap fun w =>
    let flushed := w.watcher.flush (pushes w.stream)
    if flushed.ok then some { w with watcher := flushed.watcher } else none

def publishIfChanged (now : Instant) (pushes : Nat → List (Except IoError Nat)) (c : ControlSocket)
    (sessions : List Session) : ControlSocket :=
  let identity := sessionIdentity sessions
  let report : Report := ⟨now, sessions⟩
  if identity ≠ c.lastIdentity then
    { c with
      lastIdentity := identity
      watchers := flushWatchers pushes (c.watchers.map fun w =>
        { w with watcher := w.watcher.enqueueLatest report.message, given := report }) }
  else { c with watchers := flushWatchers pushes c.watchers }

def process (now : Instant) (arrivals : List (Except IoError Nat)) (calls : SocketCalls)
    (c : ControlSocket) (sessions : List Session) : Except IoError Processed :=
  match acceptAll now arrivals c.pending with
  | .error error => .error error
  | .ok pending =>
      let served := serve now calls pending { c with pending := [] } sessions
      .ok { served with control := served.control.publishIfChanged now calls.pushes served.sessions }

/-- `bind`, once the socket is there. -/
def start : ControlSocket :=
  { pending := [], watchers := [], reloadRequested := false, reloadResponses := []
    lastIdentity := "" }

/-! ## The lines of a pass -/

/-- The command of a connection whose line is complete in time. -/
def completed (now : Instant) (calls : SocketCalls) (p : PendingCommand) : Option (Nat × Command) :=
  if COMMAND_TIMEOUT ≤ now - p.acceptedAt then none
  else
    match p.read (calls.reads p.stream) with
    | (_, false) => none
    | (p, true) => some (p.stream, readCommand p.stream p.line)

def batch (now : Instant) (calls : SocketCalls) (pending : List PendingCommand) :
    List (Nat × Command) :=
  pending.filterMap (completed now calls)

variable {now : Instant} {calls : SocketCalls}

/-- The induction on a pass: a connection is dropped, or kept for the next
pass, or its command comes next. -/
theorem serve_induction {motive : List (Nat × Command) → ControlSocket → List Session → Processed → Prop}
    (hnil : ∀ c sessions, motive [] c sessions ⟨c, sessions, [], []⟩)
    (hkeep : ∀ p lines c sessions r,
      motive lines { c with pending := c.pending ++ [p] } sessions r → motive lines c sessions r)
    (hcommand : ∀ stream line lines c sessions r,
      motive lines (c.handleCommand now calls stream line sessions).control
        (c.handleCommand now calls stream line sessions).sessions r →
      motive ((stream, readCommand stream line) :: lines) c sessions
        { r with
          events := (c.handleCommand now calls stream line sessions).events ++ r.events
          answers := (c.handleCommand now calls stream line sessions).answers ++ r.answers }) :
    ∀ (pending : List PendingCommand) (c : ControlSocket) (sessions : List Session),
      motive (batch now calls pending) c sessions (serve now calls pending c sessions) := by
  intro pending
  induction pending with
  | nil => exact hnil
  | cons p pending ih =>
      intro c sessions
      unfold serve batch
      by_cases hlate : COMMAND_TIMEOUT ≤ now - p.acceptedAt
      · have hnone : completed now calls p = none := if_pos hlate
        rw [if_pos hlate, List.filterMap_cons_none hnone]
        exact ih c sessions
      · rw [if_neg hlate]
        rcases hread : p.read (calls.reads p.stream) with ⟨q, complete⟩
        cases complete with
        | false =>
            have hnone : completed now calls p = none := by
              rw [completed, if_neg hlate, hread]
            rw [List.filterMap_cons_none hnone]
            exact hkeep q _ c sessions _ (ih _ sessions)
        | true =>
            have hsome : completed now calls p = some (q.stream, readCommand q.stream q.line) := by
              rw [completed, if_neg hlate, hread]
            rw [List.filterMap_cons_some hsome]
            exact hcommand q.stream q.line _ c sessions _ (ih _ _)

/-- What one line does to the sessions is what `handleCommand` says. -/
theorem handleCommand_sessions (now : Instant) (calls : SocketCalls) (c : ControlSocket)
    (stream : Nat) (line : Text) (sessions : List Session) :
    (c.handleCommand now calls stream line sessions).sessions =
        (AutobricksVpn.handleCommand sessions (readCommand stream line)).1 ∧
      (c.handleCommand now calls stream line sessions).events =
        (AutobricksVpn.handleCommand sessions (readCommand stream line)).2 := by
  unfold ControlSocket.handleCommand
  cases readCommand stream line <;> exact ⟨rfl, rfl⟩

/-- A pass over the connections carries out the lines that are complete. -/
theorem serve_sessions (pending : List PendingCommand) (c : ControlSocket)
    (sessions : List Session) :
    (serve now calls pending c sessions).sessions =
        (handleCommands ((batch now calls pending).map Prod.snd) sessions).1 ∧
      (serve now calls pending c sessions).events =
        (handleCommands ((batch now calls pending).map Prod.snd) sessions).2 := by
  refine serve_induction
    (motive := fun lines _ sessions r =>
      r.sessions = (handleCommands (lines.map Prod.snd) sessions).1 ∧
        r.events = (handleCommands (lines.map Prod.snd) sessions).2)
    (fun _ _ => ⟨rfl, rfl⟩) (fun _ _ _ _ _ h => h) ?_ pending c sessions
  intro stream line lines c sessions r h
  obtain ⟨hsessions, hevents⟩ := handleCommand_sessions now calls c stream line sessions
  rw [hsessions] at h
  refine ⟨h.1, ?_⟩
  show (c.handleCommand now calls stream line sessions).events ++ r.events = _
  rw [hevents, h.2]
  rfl

/-! ## The connections that stay -/

/-- The connection as a pass leaves it, if its line is not complete yet. -/
def waits (now : Instant) (calls : SocketCalls) (p : PendingCommand) : Option PendingCommand :=
  if COMMAND_TIMEOUT ≤ now - p.acceptedAt then none
  else
    match p.read (calls.reads p.stream) with
    | (p, false) => some p
    | (_, true) => none

def unserved (now : Instant) (calls : SocketCalls) (pending : List PendingCommand) :
    List PendingCommand :=
  pending.filterMap (waits now calls)

theorem handleCommand_pending (now : Instant) (calls : SocketCalls) (c : ControlSocket)
    (stream : Nat) (line : Text) (sessions : List Session) :
    (c.handleCommand now calls stream line sessions).control.pending = c.pending := by
  unfold ControlSocket.handleCommand
  cases readCommand stream line with
  | watch =>
      dsimp only
      split <;> rfl
  | status | reload | disconnect | invalid => rfl

theorem serve_pending (now : Instant) (calls : SocketCalls) :
    ∀ (pending : List PendingCommand) (c : ControlSocket) (sessions : List Session),
      (serve now calls pending c sessions).control.pending =
        c.pending ++ unserved now calls pending := by
  intro pending
  induction pending with
  | nil => exact fun c _ => (List.append_nil c.pending).symm
  | cons p pending ih =>
      intro c sessions
      unfold serve unserved
      by_cases hlate : COMMAND_TIMEOUT ≤ now - p.acceptedAt
      · have hnone : waits now calls p = none := if_pos hlate
        rw [if_pos hlate, List.filterMap_cons_none hnone]
        exact ih c sessions
      · rw [if_neg hlate]
        rcases hread : p.read (calls.reads p.stream) with ⟨q, complete⟩
        cases complete with
        | false =>
            have hsome : waits now calls p = some q := by rw [waits, if_neg hlate, hread]
            rw [List.filterMap_cons_some hsome]
            exact (ih _ sessions).trans (List.append_assoc c.pending [q] _)
        | true =>
            have hnone : waits now calls p = none := by rw [waits, if_neg hlate, hread]
            rw [List.filterMap_cons_none hnone]
            refine (ih _ _).trans ?_
            rw [handleCommand_pending]
            rfl

/-- What a pass leaves pending. -/
theorem process_pending {arrivals : List (Except IoError Nat)} {c : ControlSocket}
    {sessions : List Session} {r : Processed} :
    c.process now arrivals calls sessions = .ok r →
    ∃ pending, acceptAll now arrivals c.pending = .ok pending ∧
      r.control.pending = unserved now calls pending := by
  intro h
  unfold process at h
  split at h
  · cases h
  · rename_i pending hpending
    obtain rfl := Except.ok.inj h
    refine ⟨pending, hpending, ?_⟩
    unfold publishIfChanged
    dsimp only
    split <;> exact serve_pending now calls pending _ sessions

end ControlSocket

end AutobricksVpn
