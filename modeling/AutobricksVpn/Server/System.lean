/-
# `AutobricksVpn.Server.System` — the server as one machine

The workers started by `src/server.rs` over the data they share: the session
list under its lock, the two packet queues, the reload channel and the flag
`active`.  An action is what a worker does between two points at which another
can come in: a section under the session lock, one operation of a queue or a
channel, one read of the flag.  What the environment decides (the clock, the
network, wolfSSL, the configuration file) comes with the action.

The decrypt worker holds the lock from the lookup of a datagram's session until
the datagram is processed; these are two actions (`findSession`, `process`), and
`lockFree` keeps the other workers out in between.  A worker looks at `active`
at the top of its loop only, and may find it cleared by the time it holds the
lock; so `active` stops the decrypt worker here, and the others may go on.

`step_cases` says what one action can do.  The invariants of the other modules
are derived from it and never unfold `step`.
-/
import AutobricksVpn.Server.Control
import AutobricksVpn.Server.Handshake

namespace AutobricksVpn

/-! ## State -/

/-- `ReloadUpdate`; `requested` is whether it carries a sender for the answer. -/
structure ReloadUpdate where
  number : Nat
  rules : Rules
  requested : Bool

/-- Where the decrypt worker is in its loop. -/
inductive DecryptPc where
  | drain
  | deduplicate
  | adoptReload
  | takeDatagram
  | findSession (datagram : UdpDatagram)
  | process (incoming : Packet) (index : Nat) (newSession : Bool)
  | stopped
  deriving DecidableEq

/-- Where the control worker is in its loop. -/
inductive ControlPc where
  | pass
  | decide (now : Instant)
  | purge (rules : Rules) (requested : Bool)
  | send (rules : Rules) (requested : Bool)
  | respond (number : Nat)
  | stopped

structure ServerState where
  now : Instant
  active : Bool
  sessions : List Session
  nextSerial : Nat
  udpRxQueue : Queue UdpDatagram
  tunReadQueue : Queue Packet
  errors : List IoError
  decrypt : DecryptPc
  rules : Rules
  handshakeLimiter : IpRateLimiter
  encrypting : Option Packet
  control : ControlPc
  controlRules : Rules
  nextConfigReload : Instant
  reloadRequested : Bool
  reloadResponses : List Nat
  channel : List ReloadUpdate
  sent : Nat
  acknowledged : List Nat

namespace ServerState

/-- The state in which the workers are started. -/
def start (cfg : ServerConfig) (rules : Rules) : ServerState :=
  { now := 0, active := true, sessions := [], nextSerial := 0
    udpRxQueue := Queue.fresh SERVER_QUEUE_CAPACITY (by decide)
    tunReadQueue := Queue.fresh SERVER_QUEUE_CAPACITY (by decide)
    errors := [], decrypt := .drain, rules := rules
    handshakeLimiter := IpRateLimiter.new 30 (Duration.fromSecs 60) (Duration.fromSecs 600)
    encrypting := none, control := .pass, controlRules := rules
    nextConfigReload := cfg.configReloadInterval, reloadRequested := false
    reloadResponses := [], channel := [], sent := 0, acknowledged := [] }

/-- The decrypt worker is not between the lookup of a session and its processing. -/
def lockFree (s : ServerState) : Bool :=
  match s.decrypt with
  | .process _ _ _ => false
  | _ => true

/-- The decrypt worker leaves its loop, and `StopOnDrop` clears the flag. -/
def stopDecrypt (s : ServerState) : ServerState := { s with decrypt := .stopped, active := false }

/-- The control worker leaves its loop. -/
def stopControl (s : ServerState) : ServerState := { s with control := .stopped, active := false }

/-- `respond_reload`: everybody who waits for the end of a reload is answered. -/
def respondReload (s : ServerState) (ok : Bool) : ServerState × List Event :=
  ({ s with reloadResponses := [] }, s.reloadResponses.map fun stream => .reloadReply stream ok)

end ServerState

/-! ## Actions -/

inductive DecryptAction where
  | drain (calls : Nat → DrainCall)
  | deduplicate
  | adoptReload
  | takeDatagram
  | findSession (call : AdmitCall)
  | process (call : HandshakeCall)

inductive EncryptAction where
  | take
  | route (calls : Nat → List WriteCall)
  | flush (calls : Nat → List WriteCall)

inductive ControlAction where
  | pass (commands : List Command) (calls : Nat → RetransmitCall)
  | decide (reload : Except IoError Rules)
  | purge
  | send
  | respond (answered : Bool)
  | fail

/-- `deactivate` is the end of any other worker; `shutdown` the end of the
main thread's reading, which closes the queues. -/
inductive Action where
  | tick (elapsed : Duration)
  | deactivate
  | shutdown
  | tunReadFailed (error : IoError)
  | udpReceived (datagram : UdpDatagram)
  | tunReceived (packet : Packet)
  | decrypt (action : DecryptAction)
  | encrypt (action : EncryptAction)
  | udpWrite (calls : Nat → List (Except IoError Nat))
  | control (action : ControlAction)

def Action.isDecrypt : Action → Bool
  | .decrypt _ => true
  | _ => false

/-! ## Steps -/

/-- The loop of `src/server/decrypt.rs`. -/
def decryptStep (cfg : ServerConfig) (s : ServerState) :
    DecryptAction → Option (ServerState × List Event)
  | .drain calls =>
      match s.decrypt with
      | .drain =>
          if s.active then
            let pass := drainSessions
              (fun x => drainSession cfg s.rules s.now (calls x.serial) x) s.sessions
            match pass.failure with
            | some _ => some ({ s with sessions := pass.sessions }.stopDecrypt, pass.events)
            | none =>
                some ({ s with sessions := pass.sessions, decrypt := .deduplicate }, pass.events)
          else some (s.stopDecrypt, [])
      | _ => none
  | .deduplicate =>
      match s.decrypt with
      | .deduplicate =>
          let r := deduplicate s.sessions
          some ({ s with
            sessions := r.1
            handshakeLimiter := s.handshakeLimiter.purge s.now
            decrypt := .adoptReload }, r.2)
      | _ => none
  | .adoptReload =>
      match s.decrypt, s.channel, s.errors with
      | .adoptReload, update :: channel, _ =>
          some ({ s with
            rules := update.rules
            channel := channel
            acknowledged :=
              if update.requested then s.acknowledged ++ [update.number] else s.acknowledged },
            [.adopted update.number])
      | .adoptReload, [], _ :: errors => some ({ s with errors := errors }.stopDecrypt, [])
      | .adoptReload, [], [] => some ({ s with decrypt := .takeDatagram }, [])
      | _, _, _ => none
  | .takeDatagram =>
      match s.decrypt with
      | .takeDatagram =>
          match s.udpRxQueue.tryPop with
          | .ok (datagram, queue) =>
              some ({ s with udpRxQueue := queue, decrypt := .findSession datagram }, [])
          | .error .empty => some ({ s with decrypt := .drain }, [])
          | .error .closed => some (s.stopDecrypt, [])
      | _ => none
  | .findSession call =>
      match s.decrypt with
      | .findSession datagram =>
          match lookupPeer s.sessions datagram.peer with
          | some index => some ({ s with decrypt := .process datagram.packet index false }, [])
          | none =>
              let r := admitPeer cfg s.now call datagram s.handshakeLimiter s.sessions s.nextSerial
              let s := { s with
                sessions := r.sessions
                handshakeLimiter := r.limiter
                nextSerial := r.nextSerial }
              match r.verdict with
              | .refused => some ({ s with decrypt := .drain }, r.events)
              | .failed _ => some (s.stopDecrypt, r.events)
              | .admitted =>
                  some ({ s with decrypt := .process datagram.packet (r.sessions.length - 1) true },
                    r.events)
      | _ => none
  | .process call =>
      match s.decrypt with
      | .process incoming index newSession =>
          let r := processDatagram cfg s.now s.rules call incoming newSession s.sessions index
          some ({ s with sessions := r.1, decrypt := .drain }, r.2)
      | _ => none

/-- The loop of `src/server/encrypt.rs`. -/
def encryptStep (cfg : ServerConfig) (s : ServerState) :
    EncryptAction → Option (ServerState × List Event)
  | .take =>
      match s.encrypting, s.tunReadQueue.tryPop with
      | none, .ok (packet, queue) =>
          some ({ s with encrypting := some packet, tunReadQueue := queue }, [])
      | _, _ => none
  | .route calls =>
      match s.encrypting, s.lockFree with
      | some packet, true =>
          let r := routePacket cfg s.now calls packet s.sessions
          some ({ s with sessions := r.1, encrypting := none }, r.2)
      | _, _ => none
  | .flush calls =>
      match s.encrypting, s.lockFree with
      | none, true => some ({ s with sessions := flushPending s.now calls s.sessions }, [])
      | _, _ => none

/-- The loop of `src/server/control.rs`.  A file that cannot be read or does
not validate, or an acceptor that cannot be made, keeps the current rules. -/
def controlStep (cfg : ServerConfig) (s : ServerState) :
    ControlAction → Option (ServerState × List Event)
  | .pass commands calls =>
      match s.control, s.lockFree with
      | .pass, true =>
          let r := controlPass cfg s.now commands calls s.sessions
          some ({ s with
            sessions := r.1
            reloadRequested := s.reloadRequested || commands.any (·.reloadStream.isSome)
            reloadResponses := s.reloadResponses ++ commands.filterMap Command.reloadStream
            control := .decide s.now }, r.2)
      | _, _ => none
  | .decide reload =>
      match s.control with
      | .decide now =>
          let requested := s.reloadRequested
          let s := { s with reloadRequested := false }
          if s.nextConfigReload ≤ now ∨ requested = true then
            match reload with
            | .ok rules => some ({ s with control := .purge rules requested }, [])
            | .error _ =>
                let (s, replies) := s.respondReload false
                some ({ s with
                  nextConfigReload := s.now + cfg.configReloadInterval
                  control := .pass }, replies)
          else some ({ s with control := .pass }, [])
      | _ => none
  | .purge =>
      match s.control, s.lockFree with
      | .purge rules requested, true =>
          let r := reloadPurge s.controlRules.logins rules s.sessions
          some ({ s with sessions := r.1, control := .send rules requested }, r.2)
      | _, _ => none
  | .send =>
      match s.control, s.decrypt with
      | .send rules _, .stopped => some ({ s with controlRules := rules }.stopControl, [])
      | .send rules requested, _ =>
          let update : ReloadUpdate := ⟨s.sent + 1, rules, requested⟩
          let s := { s with
            controlRules := rules
            channel := s.channel ++ [update]
            sent := update.number }
          if requested then some ({ s with control := .respond update.number }, [])
          else
            some ({ s with
              nextConfigReload := s.now + cfg.configReloadInterval
              control := .pass }, [])
      | _, _ => none
  | .respond answered =>
      match s.control with
      | .respond number =>
          if answered && !s.acknowledged.contains number then none
          else
            let (s, replies) := s.respondReload answered
            some ({ s with
              nextConfigReload := s.now + cfg.configReloadInterval
              control := .pass }, replies)
      | _ => none
  | .fail =>
      match s.control with
      | .pass => some (s.stopControl, [])
      | _ => none

def step (cfg : ServerConfig) (s : ServerState) : Action → Option (ServerState × List Event)
  | .tick elapsed => some ({ s with now := s.now + elapsed }, [])
  | .deactivate => some ({ s with active := false }, [])
  | .shutdown =>
      some ({ s with
        active := false
        udpRxQueue := s.udpRxQueue.close
        tunReadQueue := s.tunReadQueue.close }, [])
  | .tunReadFailed error => some ({ s with errors := s.errors ++ [error] }, [])
  | .udpReceived datagram => some ({ s with udpRxQueue := s.udpRxQueue.pushIgnore datagram }, [])
  | .tunReceived packet => some ({ s with tunReadQueue := s.tunReadQueue.pushIgnore packet }, [])
  | .decrypt action => decryptStep cfg s action
  | .encrypt action => encryptStep cfg s action
  | .udpWrite calls =>
      match s.lockFree with
      | true =>
          let r := udpWritePass s.now calls s.sessions
          some ({ s with sessions := r.1 }, r.2)
      | false => none
  | .control action => controlStep cfg s action

/-- The server from its start under `rules`. -/
def server (cfg : ServerConfig) (rules : Rules) : Machine ServerState Action Event :=
  { init := ServerState.start cfg rules, step := step cfg }

/-! ## What one action can do -/

/-- The rules the control worker is about to hand over. -/
def ControlPc.outgoing : ControlPc → List Rules
  | .send rules _ => [rules]
  | _ => []

/-- The rules for which sessions were purged already and which the decrypt
worker has yet to adopt, oldest first. -/
def ServerState.inFlight (s : ServerState) : List Rules :=
  s.channel.map (·.rules) ++ s.control.outgoing

/-- What decides access, apart from the sessions, is as it was. -/
structure Frame (s s' : ServerState) : Prop where
  nextSerial : s'.nextSerial = s.nextSerial
  handshakeLimiter : s'.handshakeLimiter = s.handshakeLimiter
  decrypt : s'.decrypt = s.decrypt
  rules : s'.rules = s.rules
  controlRules : s'.controlRules = s.controlRules
  channel : s'.channel = s.channel
  inFlight : s'.inFlight = s.inFlight

/-- An event of a step that touches no entry: an answer to `RELOAD`, or a
packet queued to an authenticated session. -/
def Event.Idle (sessions : List Session) (ev : Event) : Prop :=
  (∃ stream ok, ev = .reloadReply stream ok) ∨
    ∃ x ∈ sessions, x.authenticated = true ∧ ∃ packet,
      (ipv4PacketAddresses packet).isSome = true ∧ ev = .queued x packet .tunnel

/-- The drain pass of a state. -/
def ServerState.drainPass (cfg : ServerConfig) (s : ServerState) (calls : Nat → DrainCall) :
    DrainPass :=
  drainSessions (fun x => drainSession cfg s.rules s.now (calls x.serial) x) s.sessions

/-- The passes of other workers that remove sessions. -/
inductive Removal (cfg : ServerConfig) (s : ServerState) : Action → List Session → Prop
  | udpWrite (calls : Nat → List (Except IoError Nat)) :
      Removal cfg s (.udpWrite calls) (udpWritePass s.now calls s.sessions).1
  | pass (commands : List Command) (calls : Nat → RetransmitCall) :
      Removal cfg s (.control (.pass commands calls))
        (controlPass cfg s.now commands calls s.sessions).1

inductive Effect (cfg : ServerConfig) (s : ServerState) :
    Action → ServerState → List Event → Prop
  /-- Nothing that decides access changes. -/
  | idle {a : Action} {s' : ServerState} {evs : List Event} :
      a.isDecrypt = false → Frame s s' → s'.sessions.map Session.entry = s.sessions.map Session.entry →
      (∀ ev ∈ evs, ev.Idle s.sessions) → Effect cfg s a s' evs
  /-- Another worker removes sessions. -/
  | removed {a : Action} {s' : ServerState} {evs : List Event} :
      a.isDecrypt = false → Frame s s' → s.lockFree = true → Shrinks s.sessions (s'.sessions, evs) →
      Removal cfg s a s'.sessions → Effect cfg s a s' evs
  /-- The control worker purges for rules that are in flight from now on. -/
  | purged {rules : Rules} {requested : Bool} :
      s.control = .purge rules requested → s.lockFree = true →
      Effect cfg s (.control .purge)
        { s with
          sessions := (reloadPurge s.controlRules.logins rules s.sessions).1
          control := .send rules requested }
        (reloadPurge s.controlRules.logins rules s.sessions).2
  /-- The control worker hands over the rules, unless nobody listens any more. -/
  | sent {s' : ServerState} {rules : Rules} {requested : Bool} :
      s.control = .send rules requested → s'.sessions = s.sessions →
      s'.nextSerial = s.nextSerial → s'.handshakeLimiter = s.handshakeLimiter →
      s'.decrypt = s.decrypt → s'.rules = s.rules → s'.controlRules = rules →
      (s'.inFlight = s.inFlight ∧ s'.channel.map (·.rules) = s.inFlight ∨ s.decrypt = .stopped) →
      Effect cfg s (.control .send) s' []
  /-- The decrypt worker goes on, or ends. -/
  | moved {a : DecryptAction} {pc : DecryptPc} {active : Bool} {udpRxQueue : Queue UdpDatagram}
      {errors : List IoError} :
      s.decrypt ≠ .deduplicate → pc ≠ .deduplicate → (s.decrypt = .drain → pc = .stopped) →
      (s.decrypt = .stopped → pc = .stopped) →
      Effect cfg s (.decrypt a)
        { s with decrypt := pc, active := active, udpRxQueue := udpRxQueue, errors := errors } []
  | drained {calls : Nat → DrainCall} {pc : DecryptPc} {active : Bool} :
      s.decrypt = .drain → (pc = .deduplicate ∨ pc = .stopped) →
      Effect cfg s (.decrypt (.drain calls))
        { s with sessions := (s.drainPass cfg calls).sessions, decrypt := pc, active := active }
        (s.drainPass cfg calls).events
  | deduplicated :
      s.decrypt = .deduplicate →
      Effect cfg s (.decrypt .deduplicate)
        { s with
          sessions := (deduplicate s.sessions).1
          handshakeLimiter := s.handshakeLimiter.purge s.now
          decrypt := .adoptReload }
        (deduplicate s.sessions).2
  | adopted {update : ReloadUpdate} {channel : List ReloadUpdate} {acknowledged : List Nat} :
      s.decrypt = .adoptReload → s.channel = update :: channel →
      Effect cfg s (.decrypt .adoptReload)
        { s with rules := update.rules, channel := channel, acknowledged := acknowledged }
        [.adopted update.number]
  | admission {call : AdmitCall} {datagram : UdpDatagram} {pc : DecryptPc} {active : Bool}
      {r : Admission} :
      s.decrypt = .findSession datagram → lookupPeer s.sessions datagram.peer = none →
      r = admitPeer cfg s.now call datagram s.handshakeLimiter s.sessions s.nextSerial →
      pc ≠ .deduplicate →
      Effect cfg s (.decrypt (.findSession call))
        { s with
          sessions := r.sessions
          handshakeLimiter := r.limiter
          nextSerial := r.nextSerial
          decrypt := pc
          active := active }
        r.events
  | processed {call : HandshakeCall} {incoming : Packet} {index : Nat} {newSession : Bool}
      {r : List Session × List Event} :
      s.decrypt = .process incoming index newSession →
      r = processDatagram cfg s.now s.rules call incoming newSession s.sessions index →
      Effect cfg s (.decrypt (.process call)) { s with sessions := r.1, decrypt := .drain } r.2

section StepCases

variable {cfg : ServerConfig} {s s' : ServerState} {evs : List Event}

/-- A step that keeps the sessions and logs nothing. -/
theorem Effect.silent {a : Action} (ha : a.isDecrypt = false) (hframe : Frame s s')
    (hsessions : s'.sessions = s.sessions) : Effect cfg s a s' [] :=
  .idle ha hframe (by rw [hsessions]) fun _ hev => absurd hev List.not_mem_nil

theorem decryptStep_cases {a : DecryptAction} :
    decryptStep cfg s a = some (s', evs) → Effect cfg s (.decrypt a) s' evs := by
  intro h
  cases a with
  | drain calls =>
      simp only [decryptStep] at h
      split at h
      · rename_i hpc
        split at h
        · split at h
          · obtain ⟨rfl, rfl⟩ := Prod.mk.inj (Option.some.inj h)
            exact .drained hpc (.inr rfl)
          · obtain ⟨rfl, rfl⟩ := Prod.mk.inj (Option.some.inj h)
            exact .drained hpc (.inl rfl)
        · obtain ⟨rfl, rfl⟩ := Prod.mk.inj (Option.some.inj h)
          exact .moved (by rw [hpc]; nofun) nofun (fun _ => rfl) (fun _ => rfl)
      · exact nomatch h
  | deduplicate =>
      simp only [decryptStep] at h
      split at h
      · rename_i hpc
        obtain ⟨rfl, rfl⟩ := Prod.mk.inj (Option.some.inj h)
        exact .deduplicated hpc
      · exact nomatch h
  | adoptReload =>
      simp only [decryptStep] at h
      split at h
      · rename_i update channel _ hpc hchannel
        obtain ⟨rfl, rfl⟩ := Prod.mk.inj (Option.some.inj h)
        exact .adopted hpc hchannel
      · rename_i hpc _ _
        obtain ⟨rfl, rfl⟩ := Prod.mk.inj (Option.some.inj h)
        exact .moved (by rw [hpc]; nofun) nofun (fun _ => rfl) (fun _ => rfl)
      · rename_i hpc _ _
        obtain ⟨rfl, rfl⟩ := Prod.mk.inj (Option.some.inj h)
        exact .moved (by rw [hpc]; nofun) nofun (by rw [hpc]; nofun) (by rw [hpc]; nofun)
      · exact nomatch h
  | takeDatagram =>
      simp only [decryptStep] at h
      split at h
      · rename_i hpc
        split at h <;> obtain ⟨rfl, rfl⟩ := Prod.mk.inj (Option.some.inj h)
        all_goals exact .moved (by rw [hpc]; nofun) nofun (by rw [hpc]; nofun) (by rw [hpc]; nofun)
      · exact nomatch h
  | findSession call =>
      simp only [decryptStep] at h
      split at h
      · rename_i datagram hpc
        split at h
        · obtain ⟨rfl, rfl⟩ := Prod.mk.inj (Option.some.inj h)
          exact .moved (by rw [hpc]; nofun) nofun (by rw [hpc]; nofun) (by rw [hpc]; nofun)
        · rename_i hnone
          split at h <;> obtain ⟨rfl, rfl⟩ := Prod.mk.inj (Option.some.inj h)
          all_goals exact .admission hpc hnone rfl nofun
      · exact nomatch h
  | process call =>
      simp only [decryptStep] at h
      split at h
      · rename_i hpc
        obtain ⟨rfl, rfl⟩ := Prod.mk.inj (Option.some.inj h)
        exact .processed hpc rfl
      · exact nomatch h

theorem encryptStep_cases {a : EncryptAction} :
    encryptStep cfg s a = some (s', evs) → Effect cfg s (.encrypt a) s' evs := by
  intro h
  cases a with
  | take =>
      simp only [encryptStep] at h
      split at h
      · obtain ⟨rfl, rfl⟩ := Prod.mk.inj (Option.some.inj h)
        exact .silent rfl ⟨rfl, rfl, rfl, rfl, rfl, rfl, rfl⟩ rfl
      · exact nomatch h
  | route calls =>
      simp only [encryptStep] at h
      split at h
      · obtain ⟨rfl, rfl⟩ := Prod.mk.inj (Option.some.inj h)
        refine .idle rfl ⟨rfl, rfl, rfl, rfl, rfl, rfl, rfl⟩ (entries_routePacket ..) ?_
        intro ev hev
        obtain ⟨hpacket, x, hx, hauth, rfl⟩ := routePacket_queued ev hev
        exact .inr ⟨x, hx, hauth, _, hpacket, rfl⟩
      · exact nomatch h
  | flush calls =>
      simp only [encryptStep] at h
      split at h
      · obtain ⟨rfl, rfl⟩ := Prod.mk.inj (Option.some.inj h)
        exact .idle rfl ⟨rfl, rfl, rfl, rfl, rfl, rfl, rfl⟩ (entries_flushPending ..)
          fun _ hev => absurd hev List.not_mem_nil
      · exact nomatch h

theorem controlStep_cases {a : ControlAction} :
    controlStep cfg s a = some (s', evs) → Effect cfg s (.control a) s' evs := by
  intro h
  cases a with
  | pass commands calls =>
      simp only [controlStep] at h
      split at h
      · rename_i hpc hlock
        obtain ⟨rfl, rfl⟩ := Prod.mk.inj (Option.some.inj h)
        refine .removed rfl ⟨rfl, rfl, rfl, rfl, rfl, rfl, ?_⟩ hlock (controlPass_shrinks ..)
          (.pass commands calls)
        simp [ServerState.inFlight, hpc, ControlPc.outgoing]
      · exact nomatch h
  | decide reload =>
      simp only [controlStep] at h
      split at h
      · rename_i now hpc
        have hframe : ∀ {control : ControlPc} {t : Instant} {streams : List Nat},
            control.outgoing = [] →
            Frame s { s with
              control := control, nextConfigReload := t, reloadRequested := false
              reloadResponses := streams } :=
          fun hc => ⟨rfl, rfl, rfl, rfl, rfl, rfl, by
            simp only [ServerState.inFlight, hc, hpc]
            rfl⟩
        split at h
        · split at h
          · obtain ⟨rfl, rfl⟩ := Prod.mk.inj (Option.some.inj h)
            exact .silent rfl (hframe rfl) rfl
          · obtain ⟨rfl, rfl⟩ := Prod.mk.inj (Option.some.inj h)
            refine .idle rfl (hframe rfl) rfl ?_
            intro ev hev
            obtain ⟨stream, -, rfl⟩ := List.mem_map.mp hev
            exact .inl ⟨stream, false, rfl⟩
        · obtain ⟨rfl, rfl⟩ := Prod.mk.inj (Option.some.inj h)
          exact .silent rfl (hframe rfl) rfl
      · exact nomatch h
  | purge =>
      simp only [controlStep] at h
      split at h
      · rename_i hpc hlock
        obtain ⟨rfl, rfl⟩ := Prod.mk.inj (Option.some.inj h)
        exact .purged hpc hlock
      · exact nomatch h
  | send =>
      simp only [controlStep] at h
      split at h
      · rename_i hpc hstopped
        obtain ⟨rfl, rfl⟩ := Prod.mk.inj (Option.some.inj h)
        exact .sent hpc rfl rfl rfl rfl rfl rfl (.inr hstopped)
      · rename_i hpc _
        split at h <;> obtain ⟨rfl, rfl⟩ := Prod.mk.inj (Option.some.inj h)
        all_goals
          refine .sent hpc rfl rfl rfl rfl rfl rfl (.inl ?_)
          simp [ServerState.inFlight, hpc, ControlPc.outgoing]
      · exact nomatch h
  | respond answered =>
      simp only [controlStep] at h
      split at h
      · rename_i hpc
        split at h
        · exact nomatch h
        · obtain ⟨rfl, rfl⟩ := Prod.mk.inj (Option.some.inj h)
          refine .idle rfl ⟨rfl, rfl, rfl, rfl, rfl, rfl, ?_⟩ rfl ?_
          · simp [ServerState.inFlight, ServerState.respondReload, hpc, ControlPc.outgoing]
          · intro ev hev
            obtain ⟨stream, -, rfl⟩ := List.mem_map.mp hev
            exact .inl ⟨stream, answered, rfl⟩
      · exact nomatch h
  | fail =>
      simp only [controlStep] at h
      split at h
      · rename_i hpc
        obtain ⟨rfl, rfl⟩ := Prod.mk.inj (Option.some.inj h)
        refine .silent rfl ⟨rfl, rfl, rfl, rfl, rfl, rfl, ?_⟩ rfl
        simp [ServerState.inFlight, hpc, ControlPc.outgoing, ServerState.stopControl]
      · exact nomatch h

theorem step_cases {a : Action} : step cfg s a = some (s', evs) → Effect cfg s a s' evs := by
  intro h
  cases a with
  | tick | deactivate | shutdown | tunReadFailed | udpReceived | tunReceived =>
      obtain ⟨rfl, rfl⟩ := Prod.mk.inj (Option.some.inj h)
      exact .silent rfl ⟨rfl, rfl, rfl, rfl, rfl, rfl, rfl⟩ rfl
  | decrypt a => exact decryptStep_cases h
  | encrypt a => exact encryptStep_cases h
  | udpWrite calls =>
      simp only [step] at h
      split at h
      · rename_i hlock
        obtain ⟨rfl, rfl⟩ := Prod.mk.inj (Option.some.inj h)
        exact .removed rfl ⟨rfl, rfl, rfl, rfl, rfl, rfl, rfl⟩ hlock (udpWritePass_shrinks ..)
          (.udpWrite calls)
      · exact nomatch h
  | control a => exact controlStep_cases h

end StepCases

end AutobricksVpn
