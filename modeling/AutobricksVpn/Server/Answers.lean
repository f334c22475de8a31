/-
# `AutobricksVpn.Server.Answers` — what a step logs beside the table's moves

Packets leave a step in two ways, to TUN and to the plaintext queue of a
session.  `DrainEvent` and `processDatagram_events` say which the decrypt worker
logs and why; the other steps log packets of TUN that are queued to
authenticated sessions, or nothing of the kind (`Event.quiet`).

What is queued to a session has one of four causes (`QueueCause`).  A challenge
is queued at most once in the life of a session, when its handshake is complete
(`Effect.challenged`): before that the session is `Unanswered`, afterwards never
again.
-/
import AutobricksVpn.Server.Refine

namespace AutobricksVpn

/-- No packet goes anywhere. -/
def Event.quiet : Event → Bool
  | .queued _ _ _ => false
  | .tunWrite _ _ => false
  | _ => true

/-- The answer to a completed handshake, and to a login. -/
def handshakeAnswer (rules : Rules) (address : Ipv4Addr) : Packet :=
  if (rules.logins.lookup address).isNone then AUTH_OK else AUTH_REQUIRED

def loginAnswer (accepted : Bool) : Packet := if accepted then AUTH_OK else AUTH_FAILED

section Events

variable {cfg : ServerConfig} {rules : Rules} {now : Instant}

theorem dropAll_quiet {removed : List Session} : ∀ ev ∈ dropAll removed, ev.quiet = true := by
  intro ev hev
  obtain ⟨x, -, rfl⟩ := List.mem_map.mp hev
  rfl

theorem AdmissionEffect.quiet {datagram : UdpDatagram} {limiter : IpRateLimiter}
    {sessions : List Session} {next : Nat} {r : Admission} :
    AdmissionEffect cfg now datagram limiter sessions next r → ∀ ev ∈ r.events, ev.quiet = true := by
  intro h ev hev
  cases h with
  | turnedAway _ _ => exact absurd hev List.not_mem_nil
  | banned _ _ => exact dropAll_quiet ev hev
  | failed _ _ _ => exact dropAll_quiet ev hev
  | admitted _ _ _ _ _ _ _ _ _ =>
      rcases List.mem_append.mp hev with hev | hev
      · exact dropAll_quiet ev hev
      · rw [List.mem_singleton.mp hev]
        rfl

/-! ## A datagram -/

theorem establishSession_events {before : Nat} {c : Certified} {sessions : List Session}
    {index : Nat} {x : Session} :
    ∃ y rest, y.serial = x.serial ∧ (∀ ev ∈ rest, ev.quiet = true) ∧
      (establishSession cfg now rules before c sessions index x).2 =
        .queued y (handshakeAnswer rules c.address) .auth :: rest := by
  unfold establishSession handshakeAnswer
  generalize (rules.logins.lookup c.address).isNone = authenticated
  dsimp only
  generalize (if authenticated = true then AUTH_OK else AUTH_REQUIRED) = message
  refine ⟨x.establish now c authenticated, ?_⟩
  split
  · refine ⟨_, rfl, fun ev hev => ?_, rfl⟩
    rw [List.mem_singleton.mp hev]
    rfl
  · split
    · refine ⟨_, rfl, fun ev hev => ?_, rfl⟩
      rcases hev with _ | ⟨_, hev⟩
      · rfl
      · rcases hev with _ | ⟨_, hev⟩
        · rfl
        · exact dropAll_quiet ev hev
    · refine ⟨_, rfl, fun ev hev => ?_, rfl⟩
      rw [List.mem_singleton.mp hev]
      rfl

/-- A pending session, and the certificate with which its handshake is complete. -/
structure Completes (cfg : ServerConfig) (rules : Rules) (call : HandshakeCall)
    (sessions : List Session) (index : Nat) (x : Session) (c : Certified) : Prop where
  session : sessions[index]? = some x
  pending : x.established = false
  certificate : checkCertificate cfg rules call x.peer = some c

/-- A datagram makes the server answer when it completes a handshake, and once. -/
theorem processDatagram_events {call : HandshakeCall} {incoming : Packet} {newSession : Bool}
    {sessions : List Session} {index : Nat} :
    (∀ ev ∈ (processDatagram cfg now rules call incoming newSession sessions index).2,
      ev.quiet = true) ∨
    ∃ x c y rest, Completes cfg rules call sessions index x c ∧ y.serial = x.serial ∧
      (∀ ev ∈ rest, ev.quiet = true) ∧
      (processDatagram cfg now rules call incoming newSession sessions index).2 =
        .queued y (handshakeAnswer rules c.address) .auth :: rest := by
  unfold processDatagram
  cases hx : sessions[index]? with
  | none => exact .inl fun ev hev => absurd hev List.not_mem_nil
  | some x =>
      dsimp only
      generalize hin : (if newSession = true then (x, true)
        else injectIncoming now call.inject incoming x) = r
      have hentry : r.1.entry = x.entry := by
        rw [← hin]
        cases newSession with
        | true => rfl
        | false => exact entry_injectIncoming _ _ _
      split
      · rename_i hgo
        have hpend : x.established = false := by
          rw [← show r.1.established = x.established from congrArg Entry.established hentry]
          simp only [Bool.and_eq_true, Bool.not_eq_true'] at hgo
          exact hgo.2
        unfold continueHandshake
        dsimp only
        split
        · exact .inl fun ev hev => by rw [List.mem_singleton.mp hev]; rfl
        · exact .inl fun ev hev => absurd hev List.not_mem_nil
        · split
          · exact .inl fun ev hev => by rw [List.mem_singleton.mp hev]; rfl
          · rename_i c hc
            have hc' : checkCertificate cfg rules call x.peer = some c := by
              rw [← show r.1.peer = x.peer from congrArg Entry.peer hentry]
              exact hc
            obtain ⟨y, rest, hserial, hquiet, hevents⟩ := establishSession_events
              (x := r.1.emit now call.handshake.sent)
            exact .inr ⟨x, c, y, rest, ⟨hx, hpend, hc'⟩,
              hserial.trans (congrArg Entry.serial hentry), hquiet, hevents⟩
      · exact .inl fun ev hev => absurd hev List.not_mem_nil

/-! ## A drain pass -/

/-- The events of the drain body, for a session with the entry `e`. -/
inductive DrainEvent (cfg : ServerConfig) (rules : Rules) (e : Entry) (evs : List Event) :
    Event → Prop
  | access (event : AccessEvent) : DrainEvent cfg rules e evs (.access event)
  | connected (y : Session) : DrainEvent cfg rules e evs (.connected y)
  /-- A keepalive is answered. -/
  | keepalive {y : Session} : y.serial = e.serial →
      .access (.received e.serial KEEPALIVE_PACKET) ∈ evs →
      DrainEvent cfg rules e evs (.queued y KEEPALIVE_PACKET .keepalive)
  /-- A login is answered. -/
  | verdict {y : Session} {frame : Packet} : y.serial = e.serial → e.established = true →
      .access (.received e.serial frame) ∈ evs →
      DrainEvent cfg rules e evs
        (.queued y (loginAnswer (loginAccepted (rules.logins.lookup e.address) frame)) .auth)
  /-- A packet of an authenticated session goes to TUN, from its own address to
  a permitted destination. -/
  | tunWrite {y : Session} {packet : Packet} {destination : Ipv4Addr} :
      e.established = true → e.authenticated = true → y.entry = e →
      ipv4PacketAddresses packet = some (e.address, destination) →
      destinationAllowed cfg destination = true → DrainEvent cfg rules e evs (.tunWrite y packet)

theorem deliverPacket_events {call : DrainCall} {packet : Packet} {x : Session} :
    x.established = true → x.authenticated = true →
    ∀ ev ∈ (deliverPacket cfg now call packet x).events,
      DrainEvent cfg rules x.entry (deliverPacket cfg now call packet x).events ev := by
  intro hest hauth ev hev
  unfold deliverPacket at hev ⊢
  dsimp only at hev ⊢
  split at hev
  · rename_i hkeepalive
    obtain rfl : packet = KEEPALIVE_PACKET := by simpa [isKeepalivePacket] using hkeepalive
    rcases List.mem_pair.mp hev with rfl | rfl
    · exact .access _
    · exact .keepalive rfl List.mem_cons_self
  · split at hev
    · rw [List.mem_singleton.mp hev]
      exact .access _
    · rename_i source destination haddresses
      split at hev
      · rename_i hok
        obtain ⟨rfl, hallowed⟩ := hok
        split at hev
        all_goals
          rcases List.mem_pair.mp hev with rfl | rfl
          · exact .access _
          · exact .tunWrite hest hauth rfl haddresses hallowed
      · rw [List.mem_singleton.mp hev]
        exact .access _

theorem judgeLogin_events {packet : Packet} {x : Session} :
    x.established = true → ∀ ev ∈ (judgeLogin rules now packet x).events,
      DrainEvent cfg rules x.entry (judgeLogin rules now packet x).events ev := by
  intro hest ev hev
  have hanswer : ∀ (y : Session) (evs : List Event), y.serial = x.serial →
      .access (.received x.serial packet) ∈ evs → DrainEvent cfg rules x.entry evs
        (.queued y (loginAnswer (loginAccepted (rules.logins.lookup x.address) packet)) .auth) :=
    fun y evs hy hreceived => .verdict hy hest hreceived
  unfold judgeLogin at hev ⊢
  dsimp only at hev ⊢
  cases hok : loginAccepted (rules.logins.lookup x.address) packet with
  | true =>
      rw [hok, if_pos rfl] at hev
      rw [hok] at hanswer
      rw [if_pos rfl]
      simp only [List.cons_append, List.nil_append, List.mem_cons, List.not_mem_nil, or_false] at hev
      rcases hev with rfl | rfl | rfl | rfl
      · exact .access _
      · exact .access _
      · exact hanswer _ _ rfl List.mem_cons_self
      · exact .connected _
  | false =>
      rw [hok, if_neg Bool.false_ne_true] at hev
      rw [hok] at hanswer
      rw [if_neg Bool.false_ne_true]
      simp only [List.cons_append, List.nil_append, List.mem_cons, List.not_mem_nil, or_false] at hev
      rcases hev with rfl | rfl | rfl
      · exact .access _
      · exact .access _
      · exact hanswer _ _ rfl List.mem_cons_self

theorem receiveMessage_events {call : DrainCall} {packet : Packet} {x : Session} :
    x.established = true → ∀ ev ∈ (receiveMessage cfg rules now call packet x).events,
      DrainEvent cfg rules x.entry (receiveMessage cfg rules now call packet x).events ev := by
  intro hest ev hev
  unfold receiveMessage at hev ⊢
  split at hev
  · rename_i hauth
    rw [if_pos hauth]
    exact deliverPacket_events hest hauth ev hev
  · rename_i hauth
    rw [if_neg hauth]
    split at hev
    · rename_i hattempted
      rw [if_pos hattempted, List.mem_singleton.mp hev]
      exact .access _
    · rename_i hattempted
      rw [if_neg hattempted]
      exact judgeLogin_events hest ev hev

theorem drainSession_events {call : DrainCall} {x : Session} :
    ∀ ev ∈ (drainSession cfg rules now call x).events,
      DrainEvent cfg rules x.entry (drainSession cfg rules now call x).events ev := by
  intro ev hev
  unfold drainSession at hev ⊢
  split at hev
  · exact absurd hev List.not_mem_nil
  · rename_i hpend
    have hest : x.established = true := by simpa using hpend
    split at hev
    · exact absurd hev List.not_mem_nil
    · rename_i hidle
      rw [if_neg hpend, if_neg hidle]
      dsimp only at hev ⊢
      split at hev
      · split at hev
        · exact absurd hev List.not_mem_nil
        · rename_i hne
          rw [if_neg hne]
          exact receiveMessage_events (x := { x.emit now call.read.sent with drainPending := true })
            hest ev hev
      all_goals exact absurd hev List.not_mem_nil

end Events

/-! ## The messages of one session -/

def queuedOf (n : Nat) : Event → Option Packet
  | .queued x packet _ => if x.serial = n then some packet else none
  | _ => none

/-- The messages queued to session `n`, in order. -/
def queuedTo (n : Nat) (evs : List Event) : List Packet := evs.filterMap (queuedOf n)

section Messages

variable {cfg : ServerConfig} {s s' : ServerState} {a : Action} {evs : List Event} {n : Nat}
  {packet : Packet}

theorem mem_queuedTo :
    packet ∈ queuedTo n evs ↔ ∃ x origin, x.serial = n ∧ .queued x packet origin ∈ evs := by
  simp only [queuedTo, List.mem_filterMap]
  constructor
  · rintro ⟨ev, hev, hof⟩
    cases ev with
    | queued x p origin =>
        obtain ⟨hserial, hp⟩ := Option.ite_none_right_eq_some.mp hof
        obtain rfl := Option.some.inj hp
        exact ⟨x, origin, hserial, hev⟩
    | access | tunWrite | connected | dropped | adopted | reloadReply => exact nomatch hof
  · rintro ⟨x, origin, hserial, hev⟩
    exact ⟨_, hev, if_pos hserial⟩

theorem queuedTo_quiet : (∀ ev ∈ evs, ev.quiet = true) → queuedTo n evs = [] := by
  intro h
  refine List.filterMap_eq_nil_iff.mpr fun ev hev => ?_
  have hquiet := h ev hev
  cases ev with
  | queued | tunWrite => exact nomatch hquiet
  | access | connected | dropped | adopted | reloadReply => rfl

/-- The action completes the handshake of session `n` with the certificate `c`. -/
structure Answered (cfg : ServerConfig) (s : ServerState) (n : Nat) (c : Certified) (a : Action) :
    Prop where
  completes : ∃ call incoming index newSession x, a = .decrypt (.process call) ∧
    s.decrypt = .process incoming index newSession ∧ x.serial = n ∧
    Completes cfg s.rules call s.sessions index x c

/-- Why a message is queued to session `n`. -/
inductive QueueCause (cfg : ServerConfig) (s : ServerState) (a : Action) (evs : List Event)
    (n : Nat) : Packet → Prop
  | tunnel {packet : Packet} :
      (ipv4PacketAddresses packet).isSome = true → QueueCause cfg s a evs n packet
  | keepalive : .access (.received n KEEPALIVE_PACKET) ∈ evs →
      QueueCause cfg s a evs n KEEPALIVE_PACKET
  | verdict {x : Session} {frame : Packet} : x ∈ s.sessions → x.serial = n →
      x.established = true → .access (.received n frame) ∈ evs →
      QueueCause cfg s a evs n
        (loginAnswer (loginAccepted (s.rules.logins.lookup x.address) frame))
  | handshake {c : Certified} : Answered cfg s n c a →
      QueueCause cfg s a evs n (handshakeAnswer s.rules c.address)

theorem Effect.queued :
    Effect cfg s a s' evs → packet ∈ queuedTo n evs → QueueCause cfg s a evs n packet := by
  intro h hmem
  have hquiet : (∀ e ∈ evs, e.quiet = true) → False := fun hq =>
    absurd hmem (by rw [queuedTo_quiet hq]; exact List.not_mem_nil)
  obtain ⟨x, origin, rfl, hev⟩ := mem_queuedTo.mp hmem
  cases h with
  | idle _ _ _ hidle =>
      obtain ⟨stream, ok, heq⟩ | ⟨y, -, -, p, hp, heq⟩ := hidle _ hev
      · exact nomatch heq
      · obtain ⟨-, rfl, -⟩ := Event.queued.inj heq
        exact .tunnel hp
  | removed _ _ _ hshrinks _ =>
      obtain ⟨removed, hr⟩ := hshrinks.dropped
      have hr : evs = dropAll removed := hr
      exact (hquiet (hr ▸ dropAll_quiet)).elim
  | purged _ _ => exact (hquiet dropAll_quiet).elim
  | sent _ _ _ _ _ _ _ _ => exact absurd hev List.not_mem_nil
  | moved _ _ _ _ => exact absurd hev List.not_mem_nil
  | drained _ _ =>
      obtain ⟨y, hy, hev, hsub⟩ := drainSessions_events _ _ _ hev
      cases drainSession_events _ hev with
      | keepalive hserial hreceived => exact .keepalive (hserial ▸ hsub hreceived)
      | verdict hserial hest hreceived =>
          exact .verdict hy hserial.symm hest (hserial ▸ hsub hreceived)
  | deduplicated _ => exact (hquiet dropAll_quiet).elim
  | adopted _ _ => exact nomatch List.mem_singleton.mp hev
  | @admission call datagram _ _ _ _ _ hadmit _ =>
      have heff := admitPeer_effect cfg s.now call datagram s.handshakeLimiter s.sessions s.nextSerial
      rw [← hadmit] at heff
      exact (hquiet heff.quiet).elim
  | @processed call incoming index newSession r hpc hr =>
      rw [hr] at hev hquiet
      obtain hall | ⟨y, c, z, rest, hcompletes, hserial, hrest, hevents⟩ := processDatagram_events
      · exact (hquiet hall).elim
      · rw [hevents] at hev
        rcases List.mem_cons.mp hev with heq | hev
        · obtain ⟨rfl, rfl, -⟩ := Event.queued.inj heq
          exact .handshake ⟨call, incoming, index, newSession, y, rfl, hpc, hserial.symm, hcompletes⟩
        · exact nomatch hrest _ hev

/-! ## One challenge in the life of a session -/

/-- No entry with the serial was established: it is pending, or not made yet. -/
def AccessTable.Unanswered (n : Nat) (t : AccessTable) : Prop :=
  t.nextSerial ≤ n ∨ ∃ e ∈ t.entries, e.serial = n ∧ e.established = false

theorem Move.unanswered {rules : Rules} {k : MoveKind} {t t' : AccessTable} {log : List AccessEvent} :
    Move cfg rules k t t' log → t'.Unanswered n → t.Unanswered n := by
  intro h hn
  rcases hn with hnext | ⟨e, he, hserial, hpend⟩
  · refine .inl (Nat.le_trans ?_ hnext)
    cases h with
    | admission => exact Nat.le_succ _
    | drop | establish | read | login => exact Nat.le_refl _
  · by_cases hk : k = .admission
    · subst hk
      cases h with
      | admission =>
          rcases Multiset.mem_cons.mp he with rfl | he
          · exact .inl (Nat.le_of_eq hserial)
          · exact .inr ⟨e, he, hserial, hpend⟩
    · exact .inr ⟨e, h.pending_mem hk e he hpend, hserial, hpend⟩

theorem Effect.unanswered {tr : List AccessEvent} :
    Effect cfg s a s' evs → Lawful cfg tr s.table → s'.table.Unanswered n → s.table.Unanswered n := by
  intro h hl
  have hm := h.moves hl
  generalize s.table = t, s'.table = t', accessLog evs = log at hm
  clear h hl
  induction hm with
  | refl => exact id
  | head hmove _ ih =>
      obtain ⟨k, -, hmove⟩ := hmove
      exact fun hn => hmove.unanswered (ih hn)

theorem ipv4PacketAddresses_challenge : ipv4PacketAddresses AUTH_REQUIRED = none :=
  ipv4PacketAddresses_of_head (by decide) _

theorem answered_of_challenge :
    QueueCause cfg s a evs n AUTH_REQUIRED → ∃ c, Answered cfg s n c a := by
  intro h
  generalize hp : AUTH_REQUIRED = p at h
  cases h with
  | tunnel hsome =>
      rw [← hp, ipv4PacketAddresses_challenge] at hsome
      exact nomatch hsome
  | keepalive _ => exact absurd hp (by decide)
  | @verdict x frame _ _ _ _ =>
      generalize loginAccepted (s.rules.logins.lookup x.address) frame = accepted at hp
      cases accepted <;> exact absurd hp (by decide)
  | handshake hanswered => exact ⟨_, hanswered⟩

theorem queuedTo_processDatagram {now : Instant} {rules : Rules} {call : HandshakeCall}
    {incoming : Packet} {newSession : Bool} {sessions : List Session} {index : Nat} :
    queuedTo n (processDatagram cfg now rules call incoming newSession sessions index).2 = [] ∨
    ∃ p, queuedTo n (processDatagram cfg now rules call incoming newSession sessions index).2 = [p] := by
  obtain hall | ⟨x, c, y, rest, -, -, hrest, hevents⟩ := processDatagram_events
  · exact .inl (queuedTo_quiet hall)
  · rw [hevents, queuedTo, List.filterMap_cons, show rest.filterMap (queuedOf n) = [] from
      queuedTo_quiet hrest]
    cases queuedOf n (.queued y (handshakeAnswer rules c.address) .auth) with
    | none => exact .inl rfl
    | some p => exact .inr ⟨p, rfl⟩

/-- Once its handshake is complete a session is established or gone. -/
theorem ProcessEffect.answered {now : Instant} {rules : Rules} {call : HandshakeCall}
    {sessions : List Session} {index next : Nat} {x : Session} {r : List Session × List Event} :
    ProcessEffect cfg now rules call sessions x (sessions.eraseIdx index) r → r.2 ≠ [] →
    sessions[index]? = some x → (tableOf sessions next).Distinct →
    ¬ (tableOf r.1 next).Unanswered x.serial := by
  intro h hlog hx hd
  obtain ⟨hlt, rfl⟩ := List.getElem?_eq_some_iff.mp hx
  have hother : ∀ y ∈ sessions.eraseIdx index, y.serial ≠ sessions[index].serial := fun y hy =>
    hd.eq_of_serial (entries_eraseIdx hlt) (mem_tableOf.mpr ⟨y, hy, rfl⟩)
  rintro (hnext | ⟨e, he, hserial, hpend⟩)
  · have hbelow := hd.below _ (mem_tableOf.mpr ⟨_, List.getElem_mem hlt, rfl⟩)
    exact Nat.not_lt_of_le hnext hbelow
  · obtain ⟨y, hy, rfl⟩ := mem_tableOf.mp he
    cases h with
    | kept _ _ => exact hlog rfl
    | removed _ hl _ => exact hother y (hl.subset hy) hserial
    | established c _ _ _ hentry _ _ hl hkept _ _ _ =>
        rcases List.mem_cons.mp (hl.subset hy) with rfl | hy
        · rw [hentry] at hpend
          exact nomatch hpend
        · rw [hkept] at hy
          exact hother y (List.mem_filter.mp hy).1 hserial

/-- A challenge is the only message of its step, and the session's only challenge. -/
theorem Effect.challenged {tr : List AccessEvent} :
    Effect cfg s a s' evs → Lawful cfg tr s.table → AUTH_REQUIRED ∈ queuedTo n evs →
    queuedTo n evs = [AUTH_REQUIRED] ∧ s.table.Unanswered n ∧ ¬ s'.table.Unanswered n := by
  intro h hl hmem
  obtain ⟨c, call, incoming, index, newSession, x, rfl, hpc, rfl, hcompletes⟩ :=
    answered_of_challenge (h.queued hmem)
  have hbefore : s.table.Unanswered x.serial :=
    .inr ⟨x.entry, mem_tableOf.mpr ⟨x, List.mem_of_getElem? hcompletes.session, rfl⟩, rfl,
      hcompletes.pending⟩
  cases h with
  | idle ha => exact nomatch ha
  | removed ha => exact nomatch ha
  | moved => exact absurd hmem List.not_mem_nil
  | @processed _ incoming' index' newSession' r hpc' hr =>
      obtain ⟨rfl, rfl, rfl⟩ := DecryptPc.process.inj (hpc.symm.trans hpc')
      have heff : ProcessEffect cfg s.now s.rules call s.sessions x (s.sessions.eraseIdx index) r :=
        hr ▸ processDatagram_effect incoming newSession hcompletes.session
      have hlog : r.2 ≠ [] := fun hnil => absurd (hnil ▸ hmem) List.not_mem_nil
      refine ⟨?_, hbefore, heff.answered hlog hcompletes.session hl.distinct⟩
      rw [hr] at hmem ⊢
      rcases queuedTo_processDatagram with hnil | ⟨p, hp⟩
      · rw [hnil] at hmem
        exact absurd hmem List.not_mem_nil
      · rw [hp] at hmem ⊢
        rw [List.mem_singleton.mp hmem]

/-! ## Who is established -/

theorem TableMoves.established_notMem {rules : Rules} {kinds : List MoveKind} {t t' : AccessTable}
    {log : List AccessEvent} {e : Entry} {evidence : Evidence} :
    TableMoves cfg rules kinds t t' log → .establish ∉ kinds → .established e evidence ∉ log := by
  intro hm hk
  induction hm with
  | refl => exact List.not_mem_nil
  | head hmove _ ih =>
      obtain ⟨k, hmem, hmove⟩ := hmove
      intro hev
      rcases List.mem_append.mp hev with hev | hev
      · cases hmove with
        | establish => exact hk hmem
        | drop => exact absurd hev List.not_mem_nil
        | admission | read | login => simp at hev
      · exact ih hev

theorem kinds_of_establish : .establish ∈ a.kinds → ∃ call, a = .decrypt (.process call) := by
  intro h
  cases a with
  | decrypt d =>
      cases d with
      | process call => exact ⟨call, rfl⟩
      | drain | deduplicate | adoptReload | takeDatagram | findSession => simp [Action.kinds] at h
  | _ => simp [Action.kinds] at h

/-- A session is established with the address of the certificate that completes
its handshake. -/
theorem Effect.established_by {tr : List AccessEvent} {e : Entry} {evidence : Evidence} :
    Effect cfg s a s' evs → Lawful cfg tr s.table → .established e evidence ∈ accessLog evs →
    ∃ c, Answered cfg s e.serial c a ∧ e.address = c.address := by
  intro h hl hev
  by_cases hk : .establish ∈ a.kinds
  · obtain ⟨call, rfl⟩ := kinds_of_establish hk
    cases h with
    | idle ha => exact nomatch ha
    | removed ha => exact nomatch ha
    | moved => exact absurd hev List.not_mem_nil
    | @processed _ incoming index newSession r hpc hr =>
        rcases processDatagram_cases hr with rfl | ⟨x, hx, heff⟩
        · exact absurd hev List.not_mem_nil
        · cases heff with
          | kept _ _ => exact absurd hev List.not_mem_nil
          | removed _ _ hnone => exact absurd (hnone ▸ hev) List.not_mem_nil
          | established c hpend _ hc hentry _ _ _ _ _ _ hlog =>
              obtain ⟨rfl, -⟩ := AccessEvent.established.inj (List.mem_singleton.mp (hlog ▸ hev))
              rw [hentry]
              exact ⟨c, ⟨call, incoming, index, newSession, x, rfl, hpc, rfl, hx, hpend, hc⟩, rfl⟩
  · exact absurd hev ((h.moves hl).established_notMem hk)

end Messages

end AutobricksVpn
