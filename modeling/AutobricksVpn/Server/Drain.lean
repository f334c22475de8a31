/-
# `AutobricksVpn.Server.Drain` — the drain pass and the deduplication pass

The first half of an iteration of `src/server/decrypt.rs`.  `drainSession` is
the body of the drain loop for one session: read one message, judge it as a
login, answer a keepalive or hand it to TUN, and offer the oldest waiting
datagram to wolfSSL.  A `continue` of the source ends the body without that
last step; a failed TUN write ends the server.  `deduplicate` keeps, for each
address, the authenticated session that stands last in the list.

The pass over the list is `drainSessions`.  In terms of the access table each
session makes at most one move, `read` or `login`, and everything else it does
leaves the table alone (`drainSessions_moves`).
-/
import AutobricksVpn.Access.Table
import AutobricksVpn.Lib.Vec
import AutobricksVpn.Tun.Write

namespace AutobricksVpn

/-! ## What the server does that others can see -/

/-- Why a packet was put on the plaintext queue of a session. -/
inductive Origin where
  | auth
  | keepalive
  | tunnel
  deriving DecidableEq

inductive Event where
  | access (event : AccessEvent)
  | queued (session : Session) (packet : Packet) (origin : Origin)
  | tunWrite (session : Session) (packet : Packet)
  | connected (session : Session)
  | dropped (session : Session)
  | adopted (number : Nat)
  | reloadReply (stream : Nat) (ok : Bool)

def Event.access? : Event → Option AccessEvent
  | .access event => some event
  | _ => none

/-- The part of a log that the access table knows about. -/
def accessLog (tr : List Event) : List AccessEvent := tr.filterMap Event.access?

@[simp] theorem accessLog_nil : accessLog [] = [] := rfl

@[simp] theorem accessLog_append (tr tr' : List Event) :
    accessLog (tr ++ tr') = accessLog tr ++ accessLog tr' := List.filterMap_append

section AccessLog

variable (tr : List Event)

@[simp] theorem accessLog_access (event : AccessEvent) :
    accessLog (.access event :: tr) = event :: accessLog tr := rfl
@[simp] theorem accessLog_queued (x : Session) (packet : Packet) (origin : Origin) :
    accessLog (.queued x packet origin :: tr) = accessLog tr := rfl
@[simp] theorem accessLog_tunWrite (x : Session) (packet : Packet) :
    accessLog (.tunWrite x packet :: tr) = accessLog tr := rfl
@[simp] theorem accessLog_connected (x : Session) :
    accessLog (.connected x :: tr) = accessLog tr := rfl
@[simp] theorem accessLog_dropped (x : Session) :
    accessLog (.dropped x :: tr) = accessLog tr := rfl
@[simp] theorem accessLog_adopted (number : Nat) :
    accessLog (.adopted number :: tr) = accessLog tr := rfl
@[simp] theorem accessLog_reloadReply (stream : Nat) (ok : Bool) :
    accessLog (.reloadReply stream ok :: tr) = accessLog tr := rfl

end AccessLog

/-- The session with its `disconnect_reason` written. -/
def Session.because (reason : DisconnectReason) (x : Session) : Session :=
  { x with disconnectReason := reason }

/-- `Drop for Session`, for each session removed. -/
def dropAll (removed : List Session) : List Event := removed.map .dropped

@[simp] theorem accessLog_dropAll (removed : List Session) : accessLog (dropAll removed) = [] := by
  induction removed with
  | nil => rfl
  | cons x l ih => exact ih

/-! ## One session -/

/-- The outcomes of the calls the drain body may make for one session. -/
structure DrainCall where
  read : DtlsCall (DtlsIoResult Packet)
  tun : List TunAttempt
  inject : DtlsCall Bool

structure Drained where
  session : Session
  events : List Event
  failure : Option IoError

/-- Broadcast and multicast pass only where the configuration allows them. -/
def destinationAllowed (cfg : ServerConfig) (destination : Ipv4Addr) : Bool :=
  let broadcast := ipv4IsBroadcast destination cfg.networkAddress cfg.networkPrefix
  let multicast := destination.isMulticast
  (!broadcast && !multicast) || (broadcast && cfg.allowBroadcast)
    || (multicast && cfg.allowMulticast)

/-- The tail of the body: offer the oldest waiting datagram. -/
def injectPending (now : Instant) (call : DtlsCall Bool) (x : Session) : Session :=
  match x.pendingInject with
  | [] => x
  | _ :: waiting =>
      let x := x.emit now call.sent
      match call.result with
      | .ok true => { x with pendingInject := waiting, drainPending := true }
      | .ok false => { x with drainPending := true }
      | .error _ => { x with pendingInject := waiting }

/-- The first message of a session that owes a login. -/
def judgeLogin (rules : Rules) (now : Instant) (packet : Packet) (x : Session) : Drained :=
  let credentials := rules.logins.lookup x.address
  let accepted := loginAccepted credentials packet
  let judged : List Event :=
    [.access (.received x.serial packet),
      .access (.login x.serial x.address packet credentials accepted)]
  let x := { x with loginAttempted := true }
  if accepted then
    let x := { x with authenticated := true, lastActivity := now }
    ⟨x.queueSessionPlain now AUTH_OK, judged ++ [.queued x AUTH_OK .auth, .connected x], none⟩
  else
    ⟨x.queueSessionPlain now AUTH_FAILED, judged ++ [.queued x AUTH_FAILED .auth], none⟩

/-- A message of an authenticated session. -/
def deliverPacket (cfg : ServerConfig) (now : Instant) (call : DrainCall) (packet : Packet)
    (x : Session) : Drained :=
  let received : Event := .access (.received x.serial packet)
  if isKeepalivePacket packet then
    let x := { x with lastActivity := now }
    ⟨x.queueSessionPlain now KEEPALIVE_PACKET, [received, .queued x KEEPALIVE_PACKET .keepalive],
      none⟩
  else
    match ipv4PacketAddresses packet with
    | none => ⟨injectPending now call.inject x, [received], none⟩
    | some (source, destination) =>
        if source = x.address ∧ destinationAllowed cfg destination = true then
          let x := { x with
            bytesRx := saturatingAdd x.bytesRx packet.length
            packetsRx := saturatingAdd x.packetsRx 1 }
          match (writeTunPacket packet call.tun).1 with
          | .ok _ =>
              ⟨injectPending now call.inject { x with lastActivity := now },
                [received, .tunWrite x packet], none⟩
          | .error error => ⟨x, [received, .tunWrite x packet], some error⟩
        else ⟨injectPending now call.inject x, [received], none⟩

/-- A message read from an established session. -/
def receiveMessage (cfg : ServerConfig) (rules : Rules) (now : Instant) (call : DrainCall)
    (packet : Packet) (x : Session) : Drained :=
  if x.authenticated then deliverPacket cfg now call packet x
  else if x.loginAttempted then ⟨x, [.access (.received x.serial packet)], none⟩
  else judgeLogin rules now packet x

/-- The body of the drain loop. -/
def drainSession (cfg : ServerConfig) (rules : Rules) (now : Instant) (call : DrainCall)
    (x : Session) : Drained :=
  if !x.established then ⟨x, [], none⟩
  else if !x.drainPending && x.pendingInject.isEmpty then ⟨x, [], none⟩
  else
    let x := x.emit now call.read.sent
    match call.read.result with
    | .ok (.complete packet) =>
        if packet.isEmpty then
          ⟨injectPending now call.inject { x with drainPending := false }, [], none⟩
        else receiveMessage cfg rules now call packet { x with drainPending := true }
    | .ok .wantRead => ⟨injectPending now call.inject { x with drainPending := false }, [], none⟩
    | .ok .wantWrite => ⟨injectPending now call.inject { x with drainPending := true }, [], none⟩
    | .error _ => ⟨injectPending now call.inject { x with drainPending := false }, [], none⟩

/-! ## The passes over the list -/

structure DrainPass where
  sessions : List Session
  events : List Event
  failure : Option IoError

/-- One pass over the sessions, ended by the first failure. -/
def drainSessions (f : Session → Drained) : List Session → DrainPass
  | [] => ⟨[], [], none⟩
  | x :: xs =>
      let r := f x
      match r.failure with
      | some error => ⟨r.session :: xs, r.events, some error⟩
      | none =>
          let rest := drainSessions f xs
          ⟨r.session :: rest.sessions, r.events ++ rest.events, rest.failure⟩

/-- A session after the pass is one before it, as it was or drained. -/
theorem mem_drainSessions (f : Session → Drained) :
    ∀ (l : List Session), ∀ y ∈ (drainSessions f l).sessions,
      ∃ x ∈ l, y = x ∨ y = (f x).session ∧ (f x).events ⊆ (drainSessions f l).events := by
  intro l
  induction l with
  | nil => exact fun y hy => absurd hy List.not_mem_nil
  | cons x xs ih =>
      intro y hy
      unfold drainSessions at hy ⊢
      dsimp only at hy ⊢
      split at hy
      · rcases List.mem_cons.mp hy with rfl | hy
        · exact ⟨x, List.mem_cons_self, .inr ⟨rfl, List.Subset.refl _⟩⟩
        · exact ⟨y, List.mem_cons_of_mem x hy, .inl rfl⟩
      · rcases List.mem_cons.mp hy with rfl | hy
        · exact ⟨x, List.mem_cons_self, .inr ⟨rfl, List.subset_append_left _ _⟩⟩
        · obtain ⟨z, hz, hy⟩ := ih y hy
          exact ⟨z, List.mem_cons_of_mem x hz,
            hy.imp_right fun h => ⟨h.1, List.subset_append_of_subset_right _ h.2⟩⟩

/-- Every event of the pass is one of a session, all of whose events it logs. -/
theorem drainSessions_events (f : Session → Drained) :
    ∀ (l : List Session), ∀ ev ∈ (drainSessions f l).events,
      ∃ x ∈ l, ev ∈ (f x).events ∧ (f x).events ⊆ (drainSessions f l).events := by
  intro l
  induction l with
  | nil => exact fun ev hev => absurd hev List.not_mem_nil
  | cons x xs ih =>
      intro ev hev
      unfold drainSessions at hev ⊢
      dsimp only at hev ⊢
      split at hev
      · exact ⟨x, List.mem_cons_self, hev, List.Subset.refl _⟩
      · rcases List.mem_append.mp hev with hev | hev
        · exact ⟨x, List.mem_cons_self, hev, List.subset_append_left _ _⟩
        · obtain ⟨y, hy, hev, hsub⟩ := ih ev hev
          exact ⟨y, List.mem_cons_of_mem x hy, hev, List.subset_append_of_subset_right _ hsub⟩

/-- The address under which a session counts as a duplicate. -/
def authenticatedAddress (x : Session) : Option Ipv4Addr :=
  if x.authenticated then some x.address else none

/-- The deduplication pass: reverse, retain the unseen, reverse. -/
def deduplicate (sessions : List Session) : List Session × List Event :=
  (Vec.keepLast authenticatedAddress sessions,
    dropAll ((Vec.dropEarlier authenticatedAddress sessions).map (Session.because .replaced)))

/-! ## What a pass is for the access table -/

/-- The table of a session list. -/
def tableOf (sessions : List Session) (nextSerial : Nat) : AccessTable :=
  ⟨(sessions.map Session.entry : List Entry), nextSerial⟩

/-- A sequence of moves of the given kinds under the given rules. -/
abbrev TableMoves (cfg : ServerConfig) (rules : Rules) (kinds : List MoveKind) :
    AccessTable → AccessTable → List AccessEvent → Prop :=
  Machine.Moves fun t t' evs => ∃ k ∈ kinds, Move cfg rules k t t' evs

@[simp] theorem entry_injectPending (now : Instant) (call : DtlsCall Bool) (x : Session) :
    (injectPending now call x).entry = x.entry := by
  unfold injectPending
  split
  · rfl
  · dsimp only
    split <;> rfl

/-- The message the body reads, if there is one. -/
def messageRead (call : DrainCall) (x : Session) : Option Packet :=
  if !x.established then none
  else if !x.drainPending && x.pendingInject.isEmpty then none
  else
    match call.read.result with
    | .ok (.complete packet) => if packet.isEmpty then none else some packet
    | _ => none

/-- The session reads the login it owes. -/
def acceptsLogin (rules : Rules) (call : DrainCall) (x : Session) : Bool :=
  !x.authenticated && !x.loginAttempted &&
    (messageRead call x).any (loginAccepted (rules.logins.lookup x.address))

/-- What the body does to the entry of its session, given the message: nothing
without one, or a message is read, or a login is judged. -/
inductive DrainEffect (rules : Rules) (e : Entry) :
    Option Packet → Entry → List AccessEvent → Prop
  | quiet : DrainEffect rules e none e []
  | read (packet : Packet) : (e.authenticated = true ∨ e.loginAttempted = true) →
      DrainEffect rules e (some packet) e [.received e.serial packet]
  | login (frame : Packet) : e.established = true → e.authenticated = false →
      e.loginAttempted = false →
      DrainEffect rules e (some frame)
        (e.logIn (loginAccepted (rules.logins.lookup e.address) frame))
        [.received e.serial frame,
          .login e.serial e.address frame (rules.logins.lookup e.address)
            (loginAccepted (rules.logins.lookup e.address) frame)]

theorem judgeLogin_effect {rules : Rules} {now : Instant} {packet : Packet} {x : Session}
    (hest : x.established = true) (hauth : x.authenticated = false)
    (hatt : x.loginAttempted = false) :
    DrainEffect rules x.entry (some packet) (judgeLogin rules now packet x).session.entry
      (accessLog (judgeLogin rules now packet x).events) := by
  have hlogin : DrainEffect rules x.entry _ _ _ := .login packet hest hauth hatt
  unfold judgeLogin
  dsimp only
  cases hok : loginAccepted (rules.logins.lookup x.address) packet with
  | true =>
      rw [show x.entry.address = x.address from rfl, hok] at hlogin
      exact hlogin
  | false =>
      have hentry : ({ x with loginAttempted := true } : Session).entry = x.entry.logIn false := by
        simp only [Session.entry, Entry.logIn, hauth]
      rw [show x.entry.address = x.address from rfl, hok, ← hentry] at hlogin
      exact hlogin

theorem deliverPacket_effect {cfg : ServerConfig} {rules : Rules} {now : Instant}
    {call : DrainCall} {packet : Packet} {x : Session} (hauth : x.authenticated = true) :
    DrainEffect rules x.entry (some packet) (deliverPacket cfg now call packet x).session.entry
      (accessLog (deliverPacket cfg now call packet x).events) := by
  have hread : DrainEffect rules x.entry _ x.entry _ := .read packet (.inl hauth)
  unfold deliverPacket
  split
  · exact hread
  · split
    · rw [entry_injectPending]
      exact hread
    · split
      · dsimp only
        split
        · rw [entry_injectPending]
          exact hread
        · exact hread
      · rw [entry_injectPending]
        exact hread

theorem receiveMessage_effect {cfg : ServerConfig} {rules : Rules} {now : Instant}
    {call : DrainCall} {packet : Packet} {x : Session} (hest : x.established = true) :
    DrainEffect rules x.entry (some packet) (receiveMessage cfg rules now call packet x).session.entry
      (accessLog (receiveMessage cfg rules now call packet x).events) := by
  unfold receiveMessage
  split
  · rename_i hauth
    exact deliverPacket_effect hauth
  · rename_i hauth
    split
    · rename_i hatt
      exact .read packet (.inr hatt)
    · rename_i hatt
      exact judgeLogin_effect hest (eq_false_of_ne_true hauth) (eq_false_of_ne_true hatt)

theorem drainSession_effect (cfg : ServerConfig) (rules : Rules) (now : Instant) (call : DrainCall)
    (x : Session) :
    DrainEffect rules x.entry (messageRead call x) (drainSession cfg rules now call x).session.entry
      (accessLog (drainSession cfg rules now call x).events) := by
  unfold drainSession messageRead
  by_cases hest : (!x.established) = true
  · rw [if_pos hest, if_pos hest]
    exact .quiet
  · rw [if_neg hest, if_neg hest]
    have hest : x.established = true := by simpa using hest
    by_cases hidle : (!x.drainPending && x.pendingInject.isEmpty) = true
    · rw [if_pos hidle, if_pos hidle]
      exact .quiet
    · rw [if_neg hidle, if_neg hidle]
      dsimp only
      rcases call.read.result with error | (packet | _ | _)
      · rw [entry_injectPending]
        exact .quiet
      · dsimp only
        by_cases hempty : packet.isEmpty = true
        · rw [if_pos hempty, if_pos hempty, entry_injectPending]
          exact .quiet
        · rw [if_neg hempty, if_neg hempty]
          exact receiveMessage_effect
            (x := { x.emit now call.read.sent with drainPending := true }) hest
      all_goals
        rw [entry_injectPending]
        exact .quiet

theorem DrainEffect.moves {cfg : ServerConfig} {rules : Rules} {e e' : Entry}
    {message : Option Packet} {evs : List AccessEvent} (h : DrainEffect rules e message e' evs) (rest : Multiset Entry) (next : Nat) :
    TableMoves cfg rules [.read, .login] ⟨e ::ₘ rest, next⟩ ⟨e' ::ₘ rest, next⟩ evs := by
  cases h with
  | quiet => exact .refl _
  | read packet hpast =>
      exact .single ⟨.read, by simp, .read (Multiset.mem_cons_self e rest) hpast⟩
  | login frame hest hauth hatt =>
      exact .single ⟨.login, by simp, .login (t := ⟨e ::ₘ rest, next⟩) rfl hest hauth hatt⟩

/-- A pass is a sequence of reads and logins, one for each session at most. -/
theorem drainSessions_moves {cfg : ServerConfig} {rules : Rules} {f : Session → Drained}
    {message : Session → Option Packet}
    (hf : ∀ x, DrainEffect rules x.entry (message x) (f x).session.entry (accessLog (f x).events))
    (next : Nat) :
    ∀ (l : List Session) (rest : Multiset Entry),
      TableMoves cfg rules [.read, .login] ⟨(l.map Session.entry : Multiset Entry) + rest, next⟩
        ⟨((drainSessions f l).sessions.map Session.entry : Multiset Entry) + rest, next⟩
        (accessLog (drainSessions f l).events)
  | [], rest => .refl _
  | x :: xs, rest => by
      have hx : TableMoves cfg rules _ _ _ _ :=
        (hf x).moves ((xs.map Session.entry : Multiset Entry) + rest) next
      unfold drainSessions
      dsimp only
      split
      · simpa only [List.map_cons, ← Multiset.cons_coe, Multiset.cons_add] using hx
      · have hxs : TableMoves cfg rules _ _ _ _ :=
          drainSessions_moves hf next xs ((f x).session.entry ::ₘ rest)
        simp only [Multiset.add_cons] at hxs
        simpa only [List.map_cons, ← Multiset.cons_coe, Multiset.cons_add, accessLog_append] using
          hx.trans hxs

end AutobricksVpn
