/-
# `AutobricksVpn.Client.Life` — one connection after the other

`run_with_login` of `src/client/mod.rs` from its loop on: a connection is set up,
the handshake waits for its datagrams, the certificate of the server is looked at,
the login is exchanged, and the threads are started (`connect`, `run_connection`).
When a connection is lost the next one follows, at once or after `RETRY_DELAY`;
`PermissionDenied` ends the client, and so do an interrupt and a connection that
ends without an error.

An action is one call into the system or into wolfSSL, one look at the flag or at
the clock, or a turn of the login.  While the threads run they take the actions of
`ClientTunnel`.
-/
import AutobricksVpn.Client.Outcome
import AutobricksVpn.Client.Keepalive
import AutobricksVpn.Config.Text

namespace AutobricksVpn

namespace ClientLife

def HANDSHAKE_TIMEOUT : Duration := Duration.fromSecs 30

/-- What a call of `wolfSSL_connect` comes to. -/
inductive HandshakeOutcome where
  | done
  | want
  | failed (code : Int)

/-- `Dtls::handshake`. -/
def dtlsHandshake : HandshakeOutcome → Except IoError Bool
  | .done => .ok true
  | .want => .ok false
  | .failed code => .error (IoError.other s!"DTLS handshake failed: {code}")

/-- `Dtls::handle_timeout`, with the code of a failure. -/
def handleTimeout : Option Int → Except IoError Unit
  | none => .ok ()
  | some code => .error (IoError.other s!"DTLS retransmission failed: {code}")

def handshakeTimedOut : IoError := IoError.new .timedOut "DTLS handshake timed out"

def shutdownRequested : IoError := IoError.new .interrupted "client shutdown requested"

def sanMismatch (server : Ipv4Addr) : IoError :=
  IoError.new .permissionDenied s!"server certificate SAN IP does not match {server.display}"

/-- What `run_with_login` has read from the configuration. -/
structure Settings where
  server : Ipv4Addr
  keepaliveInterval : Duration
  verifyServerSanIp : Bool

inductive Pc where
  /-- Before the look at `RUNNING`. -/
  | top
  /-- In `connect`, before the handshake. -/
  | setUp
  /-- Before the look at `RUNNING` of the handshake loop. -/
  | handshake (deadline : Instant)
  | shake (deadline : Instant)
  | elapse (deadline : Instant)
  | wait (deadline : Instant)
  | retransmit (deadline : Instant)
  /-- After the handshake loop. -/
  | shaken
  | verify
  | authenticate (pc : AuthenticatePc)
  /-- Logged in, before the threads are started. -/
  | start
  | tunnel (state : ClientTunnel.State)
  | failed (error : IoError)
  | asleep (wake : Instant)
  | returned (result : Except IoError Unit)

/-- The client; `begun` is the time at which it has begun to connect last, which
the source does not keep. -/
structure State where
  pc : Pc
  running : Bool
  now : Instant
  cache : Option LoginCredentials
  begun : Instant

inductive Act where
  | tick (d : Duration)
  | interrupt
  | go
  | setUp (result : Except IoError Unit)
  | handshake (outcome : HandshakeOutcome)
  | wait (outcome : PollOutcome)
  | retransmit (failure : Option Int)
  | verify (result : Except IoError Bool)
  | read (read : WolfSsl Packet) (wait : PollOutcome)
  | logIn (id password : Except IoError String)
  | write (outcome : WolfSsl Nat) (wait : PollOutcome)
  /-- The queues are made and the threads started. -/
  | start (result : Except IoError Unit)
  | tunnel (action : ClientTunnel.Act)

inductive Event where
  | begun (time : Instant)
  /-- The user is asked for a login. -/
  | prompted
  /-- The login frame of a connection. -/
  | login (frame : Packet)
  | started
  | tunnel (event : ClientTunnel.Event)
  | lost (error : IoError)

/-- The login goes on or is over. -/
def Pc.ofAuthenticate : AuthenticatePc → Pc
  | .ended (.ok _) => .start
  | .ended (.error error) => .failed error
  | pc => .authenticate pc

/-- After the handshake the client waits for the first message. -/
def State.challenge (s : State) : Pc := .authenticate (.awaitChallenge (s.now + LOGIN_STEP_TIMEOUT))

def frameOf : AuthenticatePc → List Event
  | .sendLogin frame _ => [.login frame]
  | _ => []

def promptOf : Option LoginCredentials → List Event
  | some _ => []
  | none => [.prompted]

/-- `cached_login` keeps what it had, and what it was told. -/
def cacheAfter (cache : Option LoginCredentials) (login : Except IoError LoginCredentials) :
    Option LoginCredentials :=
  match login with
  | .ok credentials => some credentials
  | .error _ => cache

/-- The client has seen the error of a connection. -/
def State.afterError (s : State) (error : IoError) : Pc :=
  match retry error with
  | none => .returned (.error error)
  | some delay => if delay = 0 then .top else .asleep (s.now + delay)

def goStep (settings : Settings) (s : State) : Option (State × List Event) :=
  match s.pc with
  | .top =>
      if s.running then some ({ s with pc := .setUp, begun := s.now }, [.begun s.now])
      else some ({ s with pc := .returned (.ok ()) }, [])
  | .handshake deadline =>
      some ({ s with pc := if s.running then .shake deadline else .shaken }, [])
  | .elapse deadline =>
      some ({ s with
        pc := if deadline ≤ s.now then .failed handshakeTimedOut else .wait deadline }, [])
  | .shaken =>
      if s.running then
        some ({ s with pc := if settings.verifyServerSanIp then .verify else s.challenge }, [])
      else some ({ s with pc := .failed shutdownRequested }, [])
  | .tunnel tunnel =>
      match tunnel.main.pc with
      | .cleanup (.ok _) [] => some ({ s with pc := .returned (.ok ()) }, [])
      | .cleanup (.error error) [] => some ({ s with pc := .failed error }, [])
      | _ => none
  | .failed error => some ({ s with pc := s.afterError error }, [.lost error])
  | .asleep wake => if wake ≤ s.now then some ({ s with pc := .top }, []) else none
  | _ => none

/-- One call whose error ends the connection. -/
def State.called {ρ : Type} (s : State) (result : Except IoError ρ) (next : ρ → Pc) : State :=
  match result with
  | .ok value => { s with pc := next value }
  | .error error => { s with pc := .failed error }

def step (settings : Settings) (s : State) : Act → Option (State × List Event)
  | .tick d =>
      match s.pc with
      | .tunnel _ => none
      | _ => some ({ s with now := s.now + d }, [])
  | .interrupt =>
      match s.pc with
      | .tunnel _ => none
      | _ => some ({ s with running := false }, [])
  | .go => goStep settings s
  | .setUp result =>
      match s.pc with
      | .setUp => some (s.called result fun _ => .handshake (s.now + HANDSHAKE_TIMEOUT), [])
      | _ => none
  | .handshake outcome =>
      match s.pc with
      | .shake deadline =>
          some (s.called (dtlsHandshake outcome) fun finished =>
            if finished then .shaken else .elapse deadline, [])
      | _ => none
  | .wait outcome =>
      match s.pc with
      | .wait deadline =>
          some (s.called (waitForUdp outcome) fun ready =>
            if ready then .handshake deadline else .retransmit deadline, [])
      | _ => none
  | .retransmit failure =>
      match s.pc with
      | .retransmit deadline =>
          some (s.called (handleTimeout failure) fun _ => .handshake deadline, [])
      | _ => none
  | .verify result =>
      match s.pc with
      | .verify =>
          some (s.called result fun san =>
            if san then s.challenge else .failed (sanMismatch settings.server), [])
      | _ => none
  | .read read wait =>
      match s.pc with
      | .authenticate pc =>
          if pc.deadline?.isSome then
            some ({ s with pc := .ofAuthenticate (readTurn s.now read wait pc) }, [])
          else none
      | _ => none
  | .logIn id password =>
      match s.pc with
      | .authenticate .logIn =>
          let login := cachedLogin s.cache id password
          let pc := logInTurn s.now login
          some ({ s with pc := .ofAuthenticate pc, cache := cacheAfter s.cache login },
            promptOf s.cache ++ frameOf pc)
      | _ => none
  | .write outcome wait =>
      match s.pc with
      | .authenticate (.sendLogin frame deadline) =>
          some ({ s with pc := .ofAuthenticate (writeTurn frame deadline s.now outcome wait) }, [])
      | _ => none
  | .start result =>
      match s.pc with
      | .start =>
          match result with
          | .ok _ =>
              some ({ s with pc := .tunnel (ClientTunnel.State.start s.running s.now) }, [.started])
          | .error error => some ({ s with pc := .failed error }, [])
      | _ => none
  | .tunnel action =>
      match s.pc with
      | .tunnel tunnel =>
          match ClientTunnel.step
              (ClientTunnel.effectiveKeepaliveInterval settings.keepaliveInterval) tunnel action with
          | some (tunnel, evs) =>
              some ({ s with
                pc := .tunnel tunnel, running := tunnel.shared.running, now := tunnel.shared.now },
                evs.map .tunnel)
          | none => none
      | _ => none

/-- The client with its TUN device open, and the login it was started with. -/
def machine (settings : Settings) (cache : Option LoginCredentials) (now : Instant) :
    Machine State Act Event where
  init := { pc := .top, running := true, now := now, cache := cache, begun := now }
  step := step settings

end ClientLife

end AutobricksVpn
