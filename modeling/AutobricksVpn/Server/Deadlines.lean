/-
# `AutobricksVpn.Server.Deadlines` — what the control worker wakes up for

The timeouts of a session stand in `src/server/control.rs` twice: the control
pass compares what has elapsed with them (`expire`), and at the end of a turn
they are added to the times they count from, for the time to wake up
(`nextWake`).  Both are the same deadlines (`mem_expire`, `nextWake_le`).

Meanwhile the other workers change the sessions.  A deadline is put off by what
is read and written; it is brought forward when a session is new, goes on with
its handshake or is established, and then the control worker is notified
(`step_continued`, `notifies_of_broughtForward`).
-/
import AutobricksVpn.Server.Idle
import AutobricksVpn.Server.Passes
import AutobricksVpn.Server.Publish

namespace AutobricksVpn

/-! ## The deadlines -/

/-- The least `max_session_lifetime` that `duration_value` accepts. -/
def MIN_SESSION_LIFETIME : Duration := Duration.fromSecs 60

namespace Session

def idleDeadline (x : Session) : Instant :=
  x.lastActivity +
    if x.authenticated then SESSION_IDLE_TIMEOUT
    else if x.established then Duration.fromSecs 120
    else HANDSHAKE_TIMEOUT

def lifetimeDeadline (cfg : ServerConfig) (x : Session) : Option Instant :=
  x.establishedAt.map (· + cfg.maxSessionLifetime)

def deadlines (cfg : ServerConfig) (x : Session) : List Instant :=
  [x.dtlsDeadline, some x.idleDeadline, x.lifetimeDeadline cfg].filterMap id

end Session

def PendingCommand.deadline (p : PendingCommand) : Instant := p.acceptedAt + COMMAND_TIMEOUT

def nextWake (cfg : ServerConfig) (sessions : List Session) (pending : List PendingCommand)
    (nextConfigReload : Instant) : Instant :=
  let deadline := (sessions.flatMap (·.deadlines cfg)).min?
  let nextWake := (deadline.map (min · nextConfigReload)).getD nextConfigReload
  ((pending.map (·.deadline)).min?.map (min · nextWake)).getD nextWake

section Deadlines

variable {cfg : ServerConfig} {now : Instant} {x : Session} {sessions : List Session}
  {pending : List PendingCommand} {nextConfigReload : Instant}

theorem mem_deadlines {deadline : Instant} :
    deadline ∈ x.deadlines cfg ↔
      x.dtlsDeadline = some deadline ∨ deadline = x.idleDeadline ∨
        x.lifetimeDeadline cfg = some deadline := by
  simp [Session.deadlines, eq_comm]

/-- Less than `limit` has elapsed as long as the deadline lies ahead. -/
theorem elapsed_lt_iff {now since limit : Nat} (h : 0 < limit) :
    now - since < limit ↔ now < since + limit := by
  omega

theorem idleDeadline_eq (x : Session) : x.idleDeadline = x.lastActivity + idleLimit x := rfl

theorem idleLimit_pos (x : Session) : 0 < idleLimit x := by
  unfold idleLimit
  split
  · decide
  · split <;> decide

theorem idleValid_iff : idleValid now x = true ↔ now < x.idleDeadline := by
  rw [idleValid, decide_eq_true_eq, idleDeadline_eq]
  exact elapsed_lt_iff (idleLimit_pos x)

theorem lifetimeValid_iff (h : MIN_SESSION_LIFETIME ≤ cfg.maxSessionLifetime) :
    lifetimeValid cfg now x = true ↔ ∀ deadline ∈ x.lifetimeDeadline cfg, now < deadline := by
  have hpos : 0 < cfg.maxSessionLifetime := Nat.lt_of_lt_of_le (by decide) h
  unfold lifetimeValid Session.lifetimeDeadline
  cases x.establishedAt with
  | none => simp
  | some started =>
      simp only [Option.any_some, Bool.not_eq_true', decide_eq_false_iff_not, Nat.not_le,
        Option.map_some, Option.mem_some_iff, forall_eq']
      exact elapsed_lt_iff hpos

/-- A session is removed when one of the two deadlines has come. -/
def Expired (cfg : ServerConfig) (now : Instant) (x : Session) : Prop :=
  x.idleDeadline ≤ now ∨ ∃ deadline ∈ x.lifetimeDeadline cfg, deadline ≤ now

theorem keeps_iff (h : MIN_SESSION_LIFETIME ≤ cfg.maxSessionLifetime) :
    (idleValid now x && lifetimeValid cfg now x) = true ↔ ¬ Expired cfg now x := by
  rw [Bool.and_eq_true, idleValid_iff, lifetimeValid_iff h, Expired]
  simp only [not_or, Nat.not_le, not_exists, not_and]

theorem mem_expire (h : MIN_SESSION_LIFETIME ≤ cfg.maxSessionLifetime) :
    x ∈ (expire cfg now sessions).1 ↔ x ∈ sessions ∧ ¬ Expired cfg now x := by
  rw [← keeps_iff h]
  exact List.mem_filter

theorem not_expired_of_pass {commands : List Command} {calls : Nat → RetransmitCall}
    (h : MIN_SESSION_LIFETIME ≤ cfg.maxSessionLifetime) :
    x ∈ (controlPass cfg now commands calls sessions).1 → ¬ Expired cfg now x :=
  fun hx => ((mem_expire h).mp hx).2

/-- What `min` does with an option. -/
theorem getD_map_min_le (o : Option Instant) (t : Instant) :
    (o.map (min · t)).getD t ≤ t ∧ ∀ d ∈ o, (o.map (min · t)).getD t ≤ d := by
  cases o with
  | none => exact ⟨Nat.le_refl t, fun d hd => by cases hd⟩
  | some d =>
      refine ⟨Nat.min_le_right d t, fun d' hd => ?_⟩
      rw [← Option.some.inj hd]
      exact Nat.min_le_left d t

theorem min?_le {l : List Instant} {d : Instant} (hd : d ∈ l) : ∃ m ∈ l.min?, m ≤ d := by
  cases hmin : l.min? with
  | none =>
      rw [List.min?_eq_none_iff.mp hmin] at hd
      cases hd
  | some m => exact ⟨m, rfl, (List.min?_eq_some_iff.mp hmin).2 d hd⟩

/-- No deadline is before the time to wake up. -/
theorem nextWake_le (cfg : ServerConfig) (sessions : List Session) (pending : List PendingCommand)
    (nextConfigReload : Instant) :
    nextWake cfg sessions pending nextConfigReload ≤ nextConfigReload ∧
      (∀ x ∈ sessions, ∀ deadline ∈ x.deadlines cfg,
        nextWake cfg sessions pending nextConfigReload ≤ deadline) ∧
      ∀ p ∈ pending, nextWake cfg sessions pending nextConfigReload ≤ p.deadline := by
  obtain ⟨hreload, hsessions⟩ :=
    getD_map_min_le (sessions.flatMap (·.deadlines cfg)).min? nextConfigReload
  obtain ⟨hwake, hpending⟩ := getD_map_min_le (pending.map (·.deadline)).min?
    (((sessions.flatMap (·.deadlines cfg)).min?.map (min · nextConfigReload)).getD nextConfigReload)
  refine ⟨Nat.le_trans hwake hreload, fun x hx deadline hdeadline => ?_, fun p hp => ?_⟩
  · obtain ⟨m, hm, hle⟩ := min?_le (List.mem_flatMap.mpr ⟨x, hx, hdeadline⟩)
    exact Nat.le_trans hwake (Nat.le_trans (hsessions m hm) hle)
  · obtain ⟨m, hm, hle⟩ := min?_le (List.mem_map_of_mem hp)
    exact Nat.le_trans (hpending m hm) hle

theorem min?_map_mem (l : List Instant) (t : Instant) :
    (l.min?.map (min · t)).getD t = t ∨ (l.min?.map (min · t)).getD t ∈ l := by
  cases hmin : l.min? with
  | none => exact .inl rfl
  | some m =>
      rcases Nat.le_total m t with hle | hle
      · refine .inr ?_
        show min m t ∈ l
        rw [Nat.min_eq_left hle]
        exact (List.min?_eq_some_iff.mp hmin).1
      · exact .inl (Nat.min_eq_right hle)

/-- The time to wake up is a deadline, or that of the next reload. -/
theorem nextWake_mem (cfg : ServerConfig) (sessions : List Session) (pending : List PendingCommand)
    (nextConfigReload : Instant) :
    nextWake cfg sessions pending nextConfigReload = nextConfigReload ∨
      (∃ x ∈ sessions, nextWake cfg sessions pending nextConfigReload ∈ x.deadlines cfg) ∨
      ∃ p ∈ pending, nextWake cfg sessions pending nextConfigReload = p.deadline := by
  rcases min?_map_mem (pending.map (·.deadline))
    (((sessions.flatMap (·.deadlines cfg)).min?.map (min · nextConfigReload)).getD
      nextConfigReload) with hwake | hpending
  · rw [nextWake, hwake]
    rcases min?_map_mem (sessions.flatMap (·.deadlines cfg)) nextConfigReload with
      hreload | hsessions
    · exact .inl hreload
    · exact .inr (.inl (List.mem_flatMap.mp hsessions))
  · obtain ⟨p, hp, heq⟩ := List.mem_map.mp hpending
    exact .inr (.inr ⟨p, hp, heq.symm⟩)

end Deadlines

/-! ## What the others do to them -/

/-- The record `y` is that of `x` later on: it is no newer, it was active in
between, or it has logged in. -/
structure Continues (now : Instant) (x y : Session) : Prop where
  serial : y.serial = x.serial
  established : y.established = x.established
  establishedAt : y.establishedAt = x.establishedAt
  authenticated : x.authenticated = true → y.authenticated = true
  lastActivity : y.lastActivity = x.lastActivity ∨ y.lastActivity = now
  dtlsDeadline : y.dtlsDeadline = x.dtlsDeadline

/-- A deadline of the session is earlier than before, or there is one more. -/
def BroughtForward (cfg : ServerConfig) (x y : Session) : Prop :=
  y.idleDeadline < x.idleDeadline ∨
    (∃ deadline ∈ y.dtlsDeadline, ∀ before ∈ x.dtlsDeadline, deadline < before) ∨
    ∃ deadline ∈ y.lifetimeDeadline cfg, ∀ before ∈ x.lifetimeDeadline cfg, deadline < before

section Continues

variable {cfg : ServerConfig} {rules : Rules} {now : Instant} {x y z : Session}
  {sessions kept : List Session}

theorem Continues.refl (now : Instant) (x : Session) : Continues now x x :=
  ⟨rfl, rfl, rfl, id, .inl rfl, rfl⟩

theorem Continues.trans (h : Continues now x y) (h' : Continues now y z) : Continues now x z := by
  refine ⟨h'.serial.trans h.serial, h'.established.trans h.established,
    h'.establishedAt.trans h.establishedAt, h'.authenticated ∘ h.authenticated, ?_,
    h'.dtlsDeadline.trans h.dtlsDeadline⟩
  rcases h'.lastActivity with heq | heq
  · rw [heq]
    exact h.lastActivity
  · exact .inr heq

theorem Continues.idleLimit_le (h : Continues now x y) : idleLimit x ≤ idleLimit y := by
  unfold idleLimit
  rw [h.established]
  cases hx : x.authenticated with
  | true =>
      rw [h.authenticated hx]
  | false =>
      cases y.authenticated with
      | true => cases x.established <;> decide
      | false => exact Nat.le_refl _

theorem Continues.idleDeadline_le (h : Continues now x y) :
    x.lastActivity ≤ now → x.idleDeadline ≤ y.idleDeadline := by
  intro hclock
  rw [idleDeadline_eq, idleDeadline_eq]
  refine Nat.add_le_add ?_ h.idleLimit_le
  rcases h.lastActivity with heq | heq
  · exact Nat.le_of_eq heq.symm
  · rw [heq]
    exact hclock

/-- Its deadlines are the same, or the idle deadline is put off. -/
theorem Continues.not_broughtForward (h : Continues now x y) :
    x.lastActivity ≤ now → ¬ BroughtForward cfg x y := by
  rintro hclock (hidle | ⟨deadline, hdeadline, hbefore⟩ | ⟨deadline, hdeadline, hbefore⟩)
  · exact absurd hidle (Nat.not_lt.mpr (h.idleDeadline_le hclock))
  · exact absurd (hbefore deadline (h.dtlsDeadline ▸ hdeadline)) (Nat.lt_irrefl deadline)
  · have hsame : y.lifetimeDeadline cfg = x.lifetimeDeadline cfg := by
      rw [Session.lifetimeDeadline, Session.lifetimeDeadline, h.establishedAt]
    exact absurd (hbefore deadline (hsame ▸ hdeadline)) (Nat.lt_irrefl deadline)

/-- Each of its deadlines is one of before, or later than one. -/
theorem Continues.putOff (h : Continues now x y) (hclock : x.lastActivity ≤ now) {deadline : Instant} :
    deadline ∈ y.deadlines cfg → ∃ before ∈ x.deadlines cfg, before ≤ deadline := by
  rw [mem_deadlines]
  rintro (hdtls | rfl | hlifetime)
  · rw [h.dtlsDeadline] at hdtls
    exact ⟨deadline, mem_deadlines.mpr (.inl hdtls), Nat.le_refl deadline⟩
  · exact ⟨x.idleDeadline, mem_deadlines.mpr (.inr (.inl rfl)), h.idleDeadline_le hclock⟩
  · rw [Session.lifetimeDeadline, h.establishedAt] at hlifetime
    exact ⟨deadline, mem_deadlines.mpr (.inr (.inr hlifetime)), Nat.le_refl deadline⟩

/-! ### One session -/

theorem continues_emit (now : Instant) (sent : List Packet) (x : Session) :
    Continues now x (x.emit now sent) :=
  ⟨rfl, rfl, rfl, id, .inl rfl, rfl⟩

theorem continues_queueSessionPlain (now : Instant) (packet : Packet) (x : Session) :
    Continues now x (x.queueSessionPlain now packet) :=
  ⟨rfl, rfl, rfl, id, .inl rfl, rfl⟩

theorem continues_sendTunnelPacket (now : Instant) (call : WriteCall) (packet : Packet)
    (x : Session) : Continues now x (sendTunnelPacket now call packet x).1 := by
  unfold sendTunnelPacket
  split
  · split
    · exact ⟨rfl, rfl, rfl, id, .inr rfl, rfl⟩
    · exact continues_emit now call.sent x
  · exact continues_emit now call.sent x
  · exact continues_emit now call.sent x
  · exact continues_emit now call.sent x

theorem continues_drainSessionPlain (now : Instant) :
    ∀ (turns : Nat) (calls : List WriteCall) (x : Session),
      Continues now x (drainSessionPlain now turns calls x).1
  | 0, _, x => .refl now x
  | turns + 1, calls, x => by
      unfold drainSessionPlain
      split
      · exact .refl now x
      · rename_i front queue _
        have hqueue : Continues now x { x with rawTxQueue := queue } :=
          ⟨rfl, rfl, rfl, id, .inl rfl, rfl⟩
        split
        · exact hqueue.trans (continues_drainSessionPlain now turns calls _)
        · have hsend := continues_sendTunnelPacket now (calls.headD .blocked) front.value.1
            { x with rawTxQueue := queue }
          split <;> rename_i hs <;> rw [hs] at hsend
          · exact (hqueue.trans hsend).trans (continues_drainSessionPlain now turns calls.tail _)
          · exact (hqueue.trans hsend).trans ⟨rfl, rfl, rfl, id, .inl rfl, rfl⟩
          · exact (hqueue.trans hsend).trans (continues_drainSessionPlain now turns calls.tail _)

theorem continues_injectPending (now : Instant) (call : DtlsCall Bool) (x : Session) :
    Continues now x (injectPending now call x) := by
  unfold injectPending
  split
  · exact .refl now x
  · dsimp only
    split <;> exact ⟨rfl, rfl, rfl, id, .inl rfl, rfl⟩

theorem continues_judgeLogin (packet : Packet) (x : Session) :
    Continues now x (judgeLogin rules now packet x).session := by
  unfold judgeLogin
  dsimp only
  split
  · exact ⟨rfl, rfl, rfl, fun _ => rfl, .inr rfl, rfl⟩
  · exact ⟨rfl, rfl, rfl, id, .inl rfl, rfl⟩

theorem continues_deliverPacket (call : DrainCall) (packet : Packet) (x : Session) :
    Continues now x (deliverPacket cfg now call packet x).session := by
  unfold deliverPacket
  split
  · exact ⟨rfl, rfl, rfl, id, .inr rfl, rfl⟩
  · split
    · exact continues_injectPending now call.inject x
    · split
      · dsimp only
        split
        · refine Continues.trans ?_ (continues_injectPending now call.inject _)
          exact ⟨rfl, rfl, rfl, id, .inr rfl, rfl⟩
        · exact ⟨rfl, rfl, rfl, id, .inl rfl, rfl⟩
      · exact continues_injectPending now call.inject x

theorem continues_receiveMessage (call : DrainCall) (packet : Packet) (x : Session) :
    Continues now x (receiveMessage cfg rules now call packet x).session := by
  unfold receiveMessage
  split
  · exact continues_deliverPacket call packet x
  · split
    · exact .refl now x
    · exact continues_judgeLogin packet x

theorem continues_drainSession (call : DrainCall) (x : Session) :
    Continues now x (drainSession cfg rules now call x).session := by
  have hpending : ∀ pending : Bool,
      Continues now x { x.emit now call.read.sent with drainPending := pending } := fun _ =>
    ⟨rfl, rfl, rfl, id, .inl rfl, rfl⟩
  unfold drainSession
  split
  · exact .refl now x
  · split
    · exact .refl now x
    · dsimp only
      split
      · split
        · exact (hpending false).trans (continues_injectPending now call.inject _)
        · exact (hpending true).trans (continues_receiveMessage call _ _)
      · exact (hpending false).trans (continues_injectPending now call.inject _)
      · exact (hpending true).trans (continues_injectPending now call.inject _)
      · exact (hpending false).trans (continues_injectPending now call.inject _)

theorem continues_injectIncoming (call : DtlsCall Bool) (incoming : Packet) (x : Session) :
    Continues now x (injectIncoming now call incoming x).1 := by
  unfold injectIncoming
  split
  · split
    · exact .refl now x
    · exact ⟨rfl, rfl, rfl, id, .inl rfl, rfl⟩
  · dsimp only
    split <;> exact ⟨rfl, rfl, rfl, id, .inl rfl, rfl⟩

theorem continues_udpWriteSession (calls : List (Except IoError Nat)) (x : Session) :
    Continues now x (udpWriteSession now calls x).1 := by
  unfold udpWriteSession
  split <;> exact ⟨rfl, rfl, rfl, id, .inl rfl, rfl⟩

/-! ### The list -/

/-- Every session continues one that was there. -/
def Continued (now : Instant) (sessions kept : List Session) : Prop :=
  ∀ y ∈ kept, ∃ x ∈ sessions, Continues now x y

theorem continued_of_subset (h : kept ⊆ sessions) : Continued now sessions kept :=
  related_of_subset (.refl now) h

theorem continued_flushPending (calls : Nat → List WriteCall) (sessions : List Session) :
    Continued now sessions (flushPending now calls sessions) :=
  related_flushPending (fun calls x => continues_drainSessionPlain now _ calls x) calls sessions

theorem continued_routePacket (calls : Nat → List WriteCall) (packet : Packet)
    (sessions : List Session) :
    Continued now sessions (routePacket cfg now calls packet sessions).1 :=
  related_routePacket (.refl now) (fun _ _ _ => .trans) (continues_queueSessionPlain now)
    (fun calls x => continues_drainSessionPlain now _ calls x) calls packet sessions

theorem continued_udpWritePass (calls : Nat → List (Except IoError Nat)) (sessions : List Session) :
    Continued now sessions (udpWritePass now calls sessions).1 :=
  related_udpWritePass continues_udpWriteSession calls sessions

theorem continued_drainSessions (calls : Nat → DrainCall) (sessions : List Session) :
    Continued now sessions
      (drainSessions (fun x => drainSession cfg rules now (calls x.serial) x) sessions).sessions :=
  related_drainSessions (.refl now) continues_drainSession calls sessions

end Continues

/-! ## Notifications -/

/-- An event at which the source calls `control_wake.notify()`: a session that is
new, is established, has logged in, or is dropped. -/
def Event.notifiesControl : Event → Bool
  | .access (.created _) | .access (.established _ _) | .dropped _ => true
  | .access (.login _ _ _ _ accepted) => accepted
  | .access (.received _ _) => false
  | .queued _ _ _ | .tunWrite _ _ | .connected _ | .adopted _ | .reloadReply _ _ => false

/-- The handshake goes on: there is a new `dtls_deadline`. -/
def handshakeContinues (now : Instant) (call : HandshakeCall) (incoming : Packet)
    (newSession : Bool) (sessions : List Session) (index : Nat) : Bool :=
  match sessions[index]? with
  | none => false
  | some x =>
      let (x, goOn) := if newSession then (x, true) else injectIncoming now call.inject incoming x
      if goOn && !x.established then
        match call.handshake.result with
        | .ok false => true
        | .ok true | .error _ => false
      else false

/-- Whether the control worker is notified in a step that logs these events.
After the end of the UDP reader the main thread does so, too. -/
def notifiesControl (s : ServerState) (a : Action) (evs : List Event) : Bool :=
  evs.any Event.notifiesControl ||
    match a, s.decrypt with
    | .decrypt (.process call), .process incoming index newSession =>
        handshakeContinues s.now call incoming newSession s.sessions index
    | .shutdown, _ => true
    | _, _ => false

section Notifications

variable {cfg : ServerConfig} {rules : Rules} {now : Instant} {s s' : ServerState} {a : Action}
  {sessions : List Session} {evs : List Event}

theorem notifies_of_mem {ev : Event} (hev : ev ∈ evs) (h : ev.notifiesControl = true) :
    evs.any Event.notifiesControl = true :=
  List.any_eq_true.mpr ⟨ev, hev, h⟩

theorem notifies_establishSession {before index : Nat} {c : Certified} {x : Session} :
    (establishSession cfg now rules before c sessions index x).2.any Event.notifiesControl =
      true := by
  unfold establishSession
  dsimp only
  generalize (if (rules.logins.lookup c.address).isNone = true then AUTH_OK else AUTH_REQUIRED) =
    message
  split
  · rfl
  · split <;> rfl

/-- A datagram that establishes no session, and after which no handshake goes on,
brings no deadline forward. -/
theorem continued_processDatagram {call : HandshakeCall} {incoming : Packet} {newSession : Bool}
    {index : Nat} :
    (processDatagram cfg now rules call incoming newSession sessions index).2.any
        Event.notifiesControl = true ∨
      handshakeContinues now call incoming newSession sessions index = true ∨
      Continued now sessions
        (processDatagram cfg now rules call incoming newSession sessions index).1 := by
  unfold processDatagram handshakeContinues
  cases hx : sessions[index]? with
  | none => exact .inr (.inr (continued_of_subset (List.Subset.refl _)))
  | some x =>
      dsimp only
      have hin : Continues now x
          (if newSession then (x, true) else injectIncoming now call.inject incoming x).1 := by
        split
        · exact .refl now x
        · exact continues_injectIncoming call.inject incoming x
      generalize (if newSession then (x, true)
        else injectIncoming now call.inject incoming x) = r at hin
      obtain ⟨y, goOn⟩ := r
      dsimp only at hin ⊢
      split
      · unfold continueHandshake
        dsimp only
        cases call.handshake.result with
        | error error => exact .inl rfl
        | ok complete =>
            cases complete with
            | false => exact .inr (.inl rfl)
            | true =>
                dsimp only
                split
                · exact .inl rfl
                · exact .inl notifies_establishSession
      · exact .inr (.inr (related_set (.refl now) hx hin))

theorem continued_admitPeer {call : AdmitCall} {datagram : UdpDatagram} {limiter : IpRateLimiter}
    {next : Nat} :
    (admitPeer cfg now call datagram limiter sessions next).events.any Event.notifiesControl = true ∨
      Continued now sessions (admitPeer cfg now call datagram limiter sessions next).sessions := by
  have heffect := admitPeer_effect cfg now call datagram limiter sessions next
  generalize admitPeer cfg now call datagram limiter sessions next = r at heffect
  cases heffect with
  | turnedAway => exact .inr (continued_of_subset (List.Subset.refl _))
  | banned => exact .inr (continued_of_subset List.filter_sublist.subset)
  | failed _ hperm =>
      exact .inr (continued_of_subset fun x hx => hperm.subset (List.mem_append_left _ hx))
  | admitted =>
      exact .inl (notifies_of_mem (List.mem_append_right _ List.mem_cons_self) rfl)

theorem notifies_of_events (s : ServerState) (a : Action) (h : evs.any Event.notifiesControl = true) :
    notifiesControl s a evs = true := by
  unfold notifiesControl
  rw [h, Bool.true_or]

theorem decryptStep_continued {a : DecryptAction} :
    decryptStep cfg s a = some (s', evs) →
    notifiesControl s (.decrypt a) evs = true ∨ Continued s.now s.sessions s'.sessions := by
  intro h
  cases decryptStep_cases h with
  | idle ha => cases ha
  | removed ha => cases ha
  | moved | adopted => exact .inr (continued_of_subset (List.Subset.refl _))
  | drained => exact .inr (continued_drainSessions _ s.sessions)
  | deduplicated => exact .inr (continued_of_subset (Vec.keepLast_sublist _ _).subset)
  | admission _ _ hr =>
      rw [hr]
      exact continued_admitPeer.imp_left (notifies_of_events s _)
  | @processed call incoming index newSession r hpc hr =>
      rw [hr]
      have hprocess := @continued_processDatagram cfg s.rules s.now s.sessions call incoming newSession
        index
      rcases hprocess with hevents | hgoes | hcontinued
      · exact .inl (notifies_of_events s _ hevents)
      · left
        unfold notifiesControl
        rw [hpc]
        dsimp only
        rw [hgoes, Bool.or_true]
      · exact .inr hcontinued

theorem encryptStep_continued {a : EncryptAction} :
    encryptStep cfg s a = some (s', evs) → Continued s.now s.sessions s'.sessions := by
  intro h
  cases a with
  | take =>
      simp only [encryptStep] at h
      split at h
      · obtain ⟨rfl, -⟩ := Prod.mk.inj (Option.some.inj h)
        exact continued_of_subset (List.Subset.refl _)
      · cases h
  | route calls =>
      simp only [encryptStep] at h
      split at h
      · obtain ⟨rfl, -⟩ := Prod.mk.inj (Option.some.inj h)
        exact continued_routePacket calls _ s.sessions
      · cases h
  | flush calls =>
      simp only [encryptStep] at h
      split at h
      · obtain ⟨rfl, -⟩ := Prod.mk.inj (Option.some.inj h)
        exact continued_flushPending calls s.sessions
      · cases h

def Action.isControl : Action → Bool
  | .control _ => true
  | _ => false

/-- What another worker does brings no deadline forward, or the control worker is
notified. -/
theorem step_continued (ha : a.isControl = false) :
    step cfg s a = some (s', evs) →
    notifiesControl s a evs = true ∨ Continued s.now s.sessions s'.sessions := by
  intro h
  cases a with
  | control a => cases ha
  | decrypt a => exact decryptStep_continued h
  | encrypt a => exact .inr (encryptStep_continued h)
  | tick | deactivate | shutdown | tunReadFailed | udpReceived | tunReceived =>
      obtain ⟨rfl, -⟩ := Prod.mk.inj (Option.some.inj h)
      exact .inr (continued_of_subset (List.Subset.refl _))
  | udpWrite calls =>
      simp only [step] at h
      split at h
      · obtain ⟨rfl, -⟩ := Prod.mk.inj (Option.some.inj h)
        exact .inr (continued_udpWritePass calls s.sessions)
      · cases h

/-- Nobody else moves the control worker or sets the time of the next reload. -/
theorem step_control (ha : a.isControl = false) :
    step cfg s a = some (s', evs) →
    s'.control = s.control ∧ s'.nextConfigReload = s.nextConfigReload := by
  intro h
  cases a with
  | control a => cases ha
  | decrypt a =>
      cases decryptStep_cases h with
      | idle ha => cases ha
      | removed ha => cases ha
      | moved | drained | deduplicated | adopted | admission | processed => exact ⟨rfl, rfl⟩
  | encrypt a =>
      cases a with
      | take | route | flush =>
          simp only [step, encryptStep] at h
          split at h
          · obtain ⟨rfl, -⟩ := Prod.mk.inj (Option.some.inj h)
            exact ⟨rfl, rfl⟩
          · cases h
  | tick | deactivate | shutdown | tunReadFailed | udpReceived | tunReceived =>
      obtain ⟨rfl, -⟩ := Prod.mk.inj (Option.some.inj h)
      exact ⟨rfl, rfl⟩
  | udpWrite calls =>
      simp only [step] at h
      split at h
      · obtain ⟨rfl, -⟩ := Prod.mk.inj (Option.some.inj h)
        exact ⟨rfl, rfl⟩
      · cases h

/-- A session that is new, or a deadline of which is brought forward, comes with a
notification. -/
theorem notifies_of_broughtForward (hclock : ∀ x ∈ s.sessions, x.lastActivity ≤ s.now)
    (ha : a.isControl = false) (h : step cfg s a = some (s', evs)) {y : Session}
    (hy : y ∈ s'.sessions)
    (hforward : ∀ x ∈ s.sessions, x.serial = y.serial → BroughtForward cfg x y) :
    notifiesControl s a evs = true := by
  rcases step_continued ha h with hnotifies | hcontinued
  · exact hnotifies
  · obtain ⟨x, hx, hxy⟩ := hcontinued y hy
    exact absurd (hforward x hx hxy.serial.symm) (hxy.not_broughtForward (hclock x hx))

end Notifications

end AutobricksVpn
