/-
# `AutobricksVpn.Server.Reconnect` — a client comes back to a full server

The capacity is checked twice on the way of a new session: before the session
is made, when nobody knows whose it will be, and after its handshake, where a
client that stands in the table already is let through.

The second check never refuses such a client (`processDatagram_takesOver`).  The
first does: at a full server a datagram is processed only if the session of its
endpoint was made before (`holds_iff`), so a client whose endpoint has changed
waits for its own old session to expire.  A handshake that was begun in time is
refused nothing, however many datagrams it takes (`handshake_followed`).

Once the new session is authenticated the old ones are to go.  Without a login
they go in the same step; with one the deduplication pass decides, which looks
at authenticated sessions only and goes by their position (`displaces_iff`).
-/
import AutobricksVpn.Server.Replace
import AutobricksVpn.Server.Shifts

namespace AutobricksVpn

/-! ## A client comes back -/

/-- The client with the address has an established session. -/
def Connected (sessions : List Session) (address : Ipv4Addr) : Prop :=
  ∃ x ∈ sessions, x.established = true ∧ x.address = address

/-- The server is full, the client stands in it, and there is a datagram from an
endpoint at which nobody is established. -/
structure ComesBack (cfg : ServerConfig) (s : ServerState) (datagram : UdpDatagram)
    (address : Ipv4Addr) : Prop where
  lookup : s.decrypt = .findSession datagram
  full : s.sessions.countP (·.established) = cfg.maxClients
  client : Connected s.sessions address
  endpoint : ∀ x ∈ s.sessions, x.established = true → x.peer ≠ datagram.peer

/-- The source is not banned, has shown its cookie and is within its limits, and
the acceptor can be made anew. -/
structure Verified (cfg : ServerConfig) (s : ServerState) (call : AdmitCall)
    (datagram : UdpDatagram) : Prop where
  source : ∃ ip, peerIpv4 datagram.peer = some ip ∧
    (s.handshakeLimiter.checkBan ip s.now).1 = false ∧
    ((s.handshakeLimiter.checkBan ip s.now).2.recordAttempt ip s.now).map Prod.fst =
      some .allowed ∧
    s.sessions.countP (·.pendingFrom ip) < MAX_PENDING_PER_IP
  cookie : call.setIncomingPeer = .ok () ∧ call.acceptStateless = .ok true
  pending : s.sessions.countP (!·.established) < cfg.maxPendingHandshakes
  acceptor : call.createStatelessAcceptor = .ok ()

/-- The datagram is about to be processed, for a session of its endpoint. -/
def ServerState.Holds (s : ServerState) (datagram : UdpDatagram) : Prop :=
  ∃ index newSession x, s.decrypt = .process datagram.packet index newSession ∧
    s.sessions[index]? = some x ∧ x.peer = datagram.peer

section Admission

variable {cfg : ServerConfig} {s s' : ServerState} {call : AdmitCall} {datagram : UdpDatagram}
  {address : Ipv4Addr} {evs : List Event}

/-- Of a source that passes everything else the capacity decides. -/
theorem admitPeer_verified :
    Verified cfg s call datagram →
    ((admitPeer cfg s.now call datagram s.handshakeLimiter s.sessions s.nextSerial).verdict =
        .admitted ↔
      s.sessions.countP (·.established) < cfg.maxClients) := by
  rintro ⟨⟨ip, hpeer, hban, hattempt, hfrom⟩, ⟨hset, haccept⟩, hpending, hacceptor⟩
  have hevict : evictOldest cfg s.sessions = (s.sessions, []) := if_neg (Nat.not_le.mpr hpending)
  have hverified : ∀ limiter, (admitVerified cfg s.now call datagram ip limiter s.sessions
      s.nextSerial).verdict = .admitted ↔ s.sessions.countP (·.established) < cfg.maxClients := by
    intro limiter
    unfold admitVerified
    rw [if_neg (Nat.not_le.mpr hfrom), hevict, hacceptor]
    split
    · rename_i hfull
      exact ⟨fun h => absurd h (by simp), fun h => absurd hfull (Nat.not_le.mpr h)⟩
    · rename_i hroom
      exact ⟨fun _ => Nat.not_le.mp hroom, fun _ => rfl⟩
  unfold admitPeer
  rw [hpeer, hset, haccept]
  dsimp only
  split
  · rename_i limiter heq
    rw [heq] at hban
    cases hban
  · rename_i limiter heq
    rw [heq] at hattempt
    split
    · exact hverified _
    · rename_i limiter' heq'
      rw [heq'] at hattempt
      cases hattempt
    · rename_i limiter' heq'
      rw [heq'] at hattempt
      cases hattempt
    · rename_i heq'
      rw [heq'] at hattempt
      cases hattempt

theorem lookupPeer_some {sessions : List Session} {peer : SockaddrStorage} {index : Nat} :
    lookupPeer sessions peer = some index → ∃ x, sessions[index]? = some x ∧ x.peer = peer := by
  intro h
  obtain ⟨hlt, hpeer, -⟩ := List.findIdx?_eq_some_iff_getElem.mp h
  exact ⟨sessions[index], List.getElem?_eq_getElem hlt, by simpa [samePeer] using hpeer⟩

/-- What the lookup finds is processed. -/
theorem holds_of_lookup {index : Nat} :
    s.decrypt = .findSession datagram → lookupPeer s.sessions datagram.peer = some index →
    step cfg s (.decrypt (.findSession call)) = some (s', evs) → s'.Holds datagram := by
  intro hpc hlookup hs
  simp only [step, decryptStep, hpc, hlookup] at hs
  obtain ⟨rfl, -⟩ := Prod.mk.inj (Option.some.inj hs)
  obtain ⟨x, hx, hpeer⟩ := lookupPeer_some hlookup
  exact ⟨index, false, x, rfl, hx, hpeer⟩

/-- **Exactly when the datagram is not refused.** -/
theorem holds_iff :
    ComesBack cfg s datagram address →
    (lookupPeer s.sessions datagram.peer = none → Verified cfg s call datagram) →
    step cfg s (.decrypt (.findSession call)) = some (s', evs) →
    (s'.Holds datagram ↔ (lookupPeer s.sessions datagram.peer).isSome = true) := by
  intro hback hverified hs
  cases hlookup : lookupPeer s.sessions datagram.peer with
  | some index => exact ⟨fun _ => rfl, fun _ => holds_of_lookup hback.lookup hlookup hs⟩
  | none =>
      simp only [step, decryptStep, hback.lookup, hlookup] at hs
      have hnot := mt (admitPeer_verified (hverified hlookup)).mp
        (Nat.not_lt.mpr (Nat.le_of_eq hback.full.symm))
      refine ⟨fun h => ?_, fun h => absurd h Bool.false_ne_true⟩
      obtain ⟨index, newSession, x, hpc, -⟩ := h
      split at hs
      · obtain ⟨rfl, -⟩ := Prod.mk.inj (Option.some.inj hs)
        cases hpc
      · obtain ⟨rfl, -⟩ := Prod.mk.inj (Option.some.inj hs)
        cases hpc
      · rename_i hadmitted
        exact absurd hadmitted hnot

end Admission

/-! ## The new session -/

/-- An established session of the client. -/
def establishedFor (address : Ipv4Addr) (x : Session) : Bool :=
  x.established && x.address == address

/-- The session is established for the client, the clients are the same, and the
client's old sessions are gone if it needs no login. -/
structure TakesOver (s s' : ServerState) (x : Session) (c : Certified) : Prop where
  session : ∃ z ∈ s'.sessions,
    z.entry = x.entry.establish c.address c.fingerprint
      (s.rules.logins.lookup c.address).isNone s.now ∧
    (z.authenticated = true → ∀ y ∈ s'.sessions, establishedFor c.address y = true → y = z)
  clients : ∀ address, Connected s'.sessions address ↔ Connected s.sessions address
  count : (s.rules.logins.lookup c.address).isNone = true →
    s'.sessions.countP (·.established) + s.sessions.countP (establishedFor c.address) =
      s.sessions.countP (·.established) + 1

section Process

variable {cfg : ServerConfig} {rules : Rules} {now : Instant} {s s' : ServerState}
  {call : HandshakeCall} {sessions : List Session} {index : Nat} {x : Session} {c : Certified}
  {incoming : Packet} {newSession : Bool} {as : List Action} {tr : List Event}

/-- A client that has another session is not refused for capacity. -/
theorem establishSession_established {before : Nat} {y : Session} :
    y ∈ sessions.eraseIdx index → isDuplicate c.address x.peer y = true →
    accessLog (establishSession cfg now rules before c sessions index x).2 ≠ [] := by
  intro hy hdup
  unfold establishSession
  generalize (rules.logins.lookup c.address).isNone = authenticated
  dsimp only
  generalize (if authenticated = true then AUTH_OK else AUTH_REQUIRED) = message
  generalize hx' : (x.establish now c authenticated).queueSessionPlain now message = x'
  have hpeer : x'.peer = x.peer := by rw [← hx']; rfl
  have hany : (sessions.set index x').any (isDuplicate c.address x'.peer) = true := by
    refine List.any_eq_true.mpr ⟨y, ?_, by rw [hpeer]; exact hdup⟩
    rw [← List.eraseIdx_set_eq (a := x')] at hy
    exact List.mem_of_mem_eraseIdx hy
  rw [hany, if_neg (by simp)]
  split <;> simp

/-- The datagram goes on with the handshake of its session. -/
theorem processDatagram_continues :
    sessions[index]? = some x → x.established = false →
    (newSession = true ∨ ∃ fed, call.inject.result = .ok fed) →
    ∃ x', x'.entry = x.entry ∧
      processDatagram cfg now rules call incoming newSession sessions index =
        continueHandshake cfg now rules call (sessions.countP (·.established))
          (sessions.set index x') index x' := by
  intro hx hpend hfed
  unfold processDatagram
  rw [hx]
  dsimp only
  generalize hin : (if newSession = true then (x, true)
    else injectIncoming now call.inject incoming x) = r
  have hr : r.1.entry = x.entry ∧ r.2 = true := by
    rw [← hin]
    cases newSession with
    | true => exact ⟨rfl, rfl⟩
    | false =>
        obtain ⟨fed, hfed⟩ := hfed.resolve_left Bool.false_ne_true
        refine ⟨entry_injectIncoming _ _ _, ?_⟩
        rw [if_neg Bool.false_ne_true]
        unfold injectIncoming
        rw [hfed]
        split
        · split <;> rfl
        · cases fed <;> rfl
  have hest : r.1.established = false := (congrArg Entry.established hr.1).trans hpend
  refine ⟨r.1, hr.1, ?_⟩
  rw [hr.2, hest]
  rfl

theorem mem_others {y : Session} :
    sessions[index]? = some x → y ∈ sessions → y ≠ x → y ∈ sessions.eraseIdx index := by
  intro hx hy hne
  obtain ⟨hlt, rfl⟩ := List.getElem?_eq_some_iff.mp hx
  have hperm := (List.getElem_cons_eraseIdx_perm hlt).symm
  exact (List.mem_cons.mp (hperm.subset hy)).resolve_left hne

/-- The handshake completes with the certificate of a client that is connected. -/
theorem processDatagram_logs :
    sessions[index]? = some x → x.established = false →
    (newSession = true ∨ ∃ fed, call.inject.result = .ok fed) →
    call.handshake.result = .ok true → checkCertificate cfg rules call x.peer = some c →
    Connected sessions c.address → (∀ y ∈ sessions, y.established = true → y.peer ≠ x.peer) →
    accessLog (processDatagram cfg now rules call incoming newSession sessions index).2 ≠ [] := by
  intro hx hpend hfed hdone hc hclient hpeers
  obtain ⟨y, hy, hest, haddr⟩ := hclient
  have hne : y ≠ x := by
    rintro rfl
    exact absurd (hest.symm.trans hpend) (by simp)
  obtain ⟨x', hentry, heq⟩ := processDatagram_continues hx hpend hfed
  have hpeer : x'.peer = x.peer := congrArg Entry.peer hentry
  rw [heq]
  unfold continueHandshake
  rw [hdone]
  dsimp only
  rw [show (x'.emit now call.handshake.sent).peer = x.peer from hpeer, hc]
  refine establishSession_established (y := y) ?_ ?_
  · rw [List.eraseIdx_set_eq, List.eraseIdx_set_eq]
    exact mem_others hx hy hne
  · refine isDuplicate_iff.mpr ⟨hest, haddr, ?_⟩
    rw [show (x'.emit now call.handshake.sent).peer = x.peer from hpeer]
    exact hpeers y hy hest

/-- Removing the client's sessions takes as many off the established ones. -/
theorem countP_established_filter (l : List Session) :
    (l.filter fun y => !establishedFor c.address y).countP (·.established) +
      l.countP (establishedFor c.address) = l.countP (·.established) := by
  induction l with
  | nil => rfl
  | cons y ys ih =>
      cases hest : y.established with
      | false => simpa [List.filter_cons, establishedFor, hest] using ih
      | true =>
          by_cases haddr : y.address = c.address
          · simp [establishedFor, hest, haddr] at ih ⊢
            omega
          · simp [establishedFor, hest, haddr] at ih ⊢
            omega

/-- The established sessions of a client give way to one. -/
theorem countP_replaced {l l' others : List Session} {x x' : Session} :
    l.Perm (x :: others) → x.established = false → x'.established = true →
    l'.Perm (x' :: others.filter fun y => !establishedFor c.address y) →
    l'.countP (·.established) + l.countP (establishedFor c.address) =
      l.countP (·.established) + 1 := by
  intro hl hpend hest' hl'
  have hfor : establishedFor c.address x = false := by rw [establishedFor, hpend, Bool.false_and]
  have hnew := hl'.countP_eq (·.established)
  have hold := hl.countP_eq (·.established)
  have holdfor := hl.countP_eq (establishedFor c.address)
  rw [List.countP_cons_of_pos (p := fun y : Session => y.established) hest'] at hnew
  rw [List.countP_cons_of_neg (p := fun y : Session => y.established) (by simp [hpend])] at hold
  rw [List.countP_cons_of_neg (by simp [hfor])] at holdfor
  have hsplit := countP_established_filter (c := c) others
  omega

/-- The handshake needs more datagrams, and the session stays. -/
theorem processDatagram_stays :
    sessions[index]? = some x → x.established = false →
    (newSession = true ∨ ∃ fed, call.inject.result = .ok fed) →
    call.handshake.result = .ok false →
    ∃ z ∈ (processDatagram cfg now rules call incoming newSession sessions index).1,
      z.entry = x.entry := by
  intro hx hpend hfed hmore
  obtain ⟨hlt, -⟩ := List.getElem?_eq_some_iff.mp hx
  obtain ⟨x', hentry, heq⟩ := processDatagram_continues hx hpend hfed
  rw [heq]
  unfold continueHandshake
  rw [hmore]
  refine ⟨_, List.mem_set (by simpa using hlt) _, hentry⟩

/-- **The second check spares a client that comes back.** -/
theorem processDatagram_takesOver :
    s.sessions.Pairwise (fun y z => y.peer ≠ z.peer) →
    s.sessions[index]? = some x → x.established = false →
    (newSession = true ∨ ∃ fed, call.inject.result = .ok fed) →
    call.handshake.result = .ok true → checkCertificate cfg s.rules call x.peer = some c →
    Connected s.sessions c.address →
    s'.sessions =
      (processDatagram cfg s.now s.rules call incoming newSession s.sessions index).1 →
    TakesOver s s' x c := by
  intro hpairwise hx hpend hfed hdone hc hclient hs'
  obtain ⟨hlt, hget⟩ := List.getElem?_eq_some_iff.mp hx
  have hperm : s.sessions.Perm (x :: s.sessions.eraseIdx index) := by
    rw [← hget]
    exact (List.getElem_cons_eraseIdx_perm hlt).symm
  -- The endpoint is nobody else's, so every other session of the client is a duplicate.
  have hothers : ∀ y ∈ s.sessions.eraseIdx index, y.peer ≠ x.peer := by
    have hp := (hperm.pairwise_iff fun {y z} (h : y.peer ≠ z.peer) => h.symm).mp hpairwise
    exact fun y hy => ((List.pairwise_cons.mp hp).1 y hy).symm
  have hpeers : ∀ y ∈ s.sessions, y.established = true → y.peer ≠ x.peer := by
    intro y hy hest
    rcases List.mem_cons.mp (hperm.subset hy) with rfl | hy
    · exact absurd (hest.symm.trans hpend) (by simp)
    · exact hothers y hy
  have hdup : ∀ y ∈ s.sessions.eraseIdx index,
      isDuplicate c.address x.peer y = establishedFor c.address y := by
    intro y hy
    rw [isDuplicate, establishedFor, samePeer]
    simp [hothers y hy]
  have hlog : accessLog (processDatagram cfg s.now s.rules call incoming newSession s.sessions
      index).2 ≠ [] := processDatagram_logs hx hpend hfed hdone hc hclient hpeers
  have heff : ProcessEffect cfg s.now s.rules call s.sessions x (s.sessions.eraseIdx index)
      (processDatagram cfg s.now s.rules call incoming newSession s.sessions index) :=
    processDatagram_effect incoming newSession hx
  generalize processDatagram cfg s.now s.rules call incoming newSession s.sessions index = r
    at hs' hlog heff
  cases heff with
  | kept _ _ => exact absurd rfl hlog
  | removed _ _ hnone => exact absurd hnone hlog
  | @established x' l kept evs c' _ _ hc' hentry _ _ hl hkept _ _ _ =>
      obtain rfl := Option.some.inj (hc.symm.trans hc')
      have hl : s'.sessions.Perm (x' :: kept) := by rw [hs']; exact hl
      have hest' : x'.established = true := congrArg Entry.established hentry
      have haddr' : x'.address = c.address := congrArg Entry.address hentry
      have hauth' : x'.authenticated = (s.rules.logins.lookup c.address).isNone :=
        congrArg Entry.authenticated hentry
      have hx' : x' ∈ s'.sessions := hl.symm.subset List.mem_cons_self
      -- Without a login the client's other sessions are not kept.
      have hfree : (s.rules.logins.lookup c.address).isNone = true →
          kept = (s.sessions.eraseIdx index).filter fun y => !establishedFor c.address y := by
        intro hnone
        rw [hkept, hnone]
        exact List.filter_congr fun y hy => by rw [Bool.true_and, hdup y hy]
      refine ⟨⟨x', hx', hentry, fun hauth y hy hfor => ?_⟩, fun address => ⟨?_, ?_⟩, fun hnone => ?_⟩
      · refine (List.mem_cons.mp (hl.subset hy)).resolve_right fun hy => ?_
        rw [hfree (hauth'.symm.trans hauth)] at hy
        simpa [hfor] using (List.mem_filter.mp hy).2
      · rintro ⟨y, hy, hest, rfl⟩
        rcases List.mem_cons.mp (hl.subset hy) with rfl | hy
        · rw [haddr']
          exact hclient
        · rw [hkept] at hy
          exact ⟨y, List.mem_of_mem_eraseIdx (List.mem_filter.mp hy).1, hest, rfl⟩
      · rintro ⟨y, hy, hest, rfl⟩
        by_cases haddr : y.address = c.address
        · exact ⟨x', hx', hest', haddr'.trans haddr.symm⟩
        · have hne : y ≠ x := by
            rintro rfl
            exact absurd (hest.symm.trans hpend) (by simp)
          refine ⟨y, hl.symm.subset (List.mem_cons_of_mem x' ?_), hest, rfl⟩
          rw [hkept]
          exact List.mem_filter.mpr ⟨mem_others hx hy hne, by simp [isDuplicate, haddr]⟩
      · rw [hfree hnone] at hl
        have hcount := countP_replaced (c := c) hperm hpend hest' hl
        omega

end Process

/-! ## A handshake over its datagrams -/

/-- The session is in the list, as it was. -/
def Underway (e : Entry) (sessions : List Session) : Prop := ∃ x ∈ sessions, x.entry = e

/-- The event leaves session `n` dropped or established. -/
inductive Event.Ends (n : Nat) : Event → Prop
  | dropped {x : Session} : x.serial = n → Event.Ends n (.dropped x)
  | established {e : Entry} {evidence : Evidence} :
      e.serial = n → Event.Ends n (.access (.established e evidence))

/-- A step that leaves the handshake of the session to its client. -/
inductive Undisturbed (cfg : ServerConfig) (e : Entry) (s : ServerState) : Action → Prop
  /-- A datagram of the session is processed.  wolfSSL goes on with it, and if
  that completes the handshake, the certificate is one of a connected client. -/
  | processed {call : HandshakeCall} {incoming : Packet} {index : Nat} {newSession : Bool}
      {x : Session} :
      s.decrypt = .process incoming index newSession → s.sessions[index]? = some x → x.entry = e →
      (newSession = true ∨ ∃ fed, call.inject.result = .ok fed) →
      (call.handshake.result = .ok false ∨ ∃ c, call.handshake.result = .ok true ∧
        checkCertificate cfg s.rules call x.peer = some c ∧ Connected s.sessions c.address) →
      Undisturbed cfg e s (.decrypt (.process call))
  /-- Any other step, and the session is not dropped by it. -/
  | elsewhere {a : Action} :
      (∀ incoming index newSession x, s.decrypt = .process incoming index newSession →
        s.sessions[index]? = some x → x.entry = e → a.isDecrypt = false) →
      (∀ s' evs x, step cfg s a = some (s', evs) → .dropped x ∈ evs → x.serial ≠ e.serial) →
      Undisturbed cfg e s a

/-- A step of the continuation completes the handshake of the session, which takes over. -/
def TakenOver (cfg : ServerConfig) (rules : Rules) (s : ServerState) (x : Session)
    (bs : List Action) : Prop :=
  ∃ before call after tr evs u u' c, bs = before ++ .decrypt (.process call) :: after ∧
    ((server cfg rules).startedAt s).Run Machine.Free before tr u ∧
    step cfg u (.decrypt (.process call)) = some (u', evs) ∧
    checkCertificate cfg u.rules call x.peer = some c ∧ TakesOver u u' x c

section Handshakes

variable {cfg : ServerConfig} {rules : Rules} {now : Instant} {s s' : ServerState} {a : Action}
  {e : Entry} {as : List Action} {tr evs : List Event} {log : List Observation}

/-- A pending session takes no step of its own but the last one of its handshake. -/
theorem Change.underway {α α' : Account} :
    Change cfg rules now α α' log → α.entry.established = false →
    α'.entry = α.entry ∨ ∃ event, .logged event ∈ log ∧ event.Ends α.entry.serial := by
  intro h hpend
  have habout := h.about.2
  cases h with
  | wrote | routed | read | keepalive | delivered | undelivered => exact .inl rfl
  | loggedIn hest | loginRejected hest =>
      rw [hpend] at hest
      cases hest
  | @established x _ c _ _ _ =>
      refine .inr ⟨.access (.established x.entry c.evidence), by simp, .established ?_⟩
      exact Option.some.inj (habout (.logged (.access (.established x.entry c.evidence))) (by simp))

theorem Leave.ends {α : Account} :
    Leave cfg s a α log → ∃ event, .logged event ∈ log ∧ event.Ends α.entry.serial := by
  intro h
  have hdropped : ∃ x, .logged (.dropped x) ∈ log := by
    cases h with
    | dropped => exact ⟨_, List.mem_singleton_self _⟩
    | refused => exact ⟨_, List.mem_cons_of_mem _ (List.mem_singleton_self _)⟩
  obtain ⟨x, hx⟩ := hdropped
  exact ⟨.dropped x, hx, .dropped (Option.some.inj (h.about _ hx))⟩

theorem Shift.underway {r r' : Roll} :
    Shift cfg s a r r' log → e.established = false → (∃ α ∈ r.accounts, α.entry = e) →
    (∃ α ∈ r'.accounts, α.entry = e) ∨ ∃ event, .logged event ∈ log ∧ event.Ends e.serial := by
  rintro h hpend ⟨β, hβ, rfl⟩
  cases h with
  | change hc =>
      rcases Multiset.mem_cons.mp hβ with rfl | hβ
      · exact (hc.underway hpend).imp_left fun heq => ⟨_, Multiset.mem_cons_self _ _, heq⟩
      · exact .inl ⟨β, Multiset.mem_cons_of_mem hβ, rfl⟩
  | leave hl =>
      rcases Multiset.mem_cons.mp hβ with rfl | hβ
      · exact .inr hl.ends
      · exact .inl ⟨β, hβ, rfl⟩
  | create => exact .inl ⟨β, Multiset.mem_cons_of_mem hβ, rfl⟩
  | aside _ => exact .inl ⟨β, hβ, rfl⟩

/-- A pending session stays as it is until a step drops or establishes it. -/
theorem step_underway :
    step cfg s a = some (s', evs) → e.established = false → Underway e s.sessions →
    Underway e s'.sessions ∨ ∃ event ∈ evs, event.Ends e.serial := by
  rintro hs hpend ⟨x, hx, hentry⟩
  have hmoves := (step_shifts hs).invariant
    (fun log (r : Roll) => (∃ α ∈ r.accounts, α.entry = e) ∨
      ∃ event, .logged event ∈ log ∧ event.Ends e.serial)
    (fun hI hshift => ?_) [] (.inl ⟨x.account, List.mem_map_of_mem hx, hentry⟩)
  · rcases hmoves with ⟨α, hα, hentry⟩ | ⟨event, hmem, hends⟩
    · obtain ⟨y, hy, rfl⟩ := List.mem_map.mp hα
      exact .inl ⟨y, hy, hentry⟩
    · refine .inr ⟨event, ?_, hends⟩
      rw [← @observations_event? cfg s a evs]
      exact List.mem_filterMap.mpr ⟨_, hmem, rfl⟩
  · rcases hI with hI | ⟨event, hmem, hends⟩
    · exact (hshift.underway hpend hI).imp_right fun ⟨event, hmem, hends⟩ =>
        ⟨event, List.mem_append_right _ hmem, hends⟩
    · exact .inr ⟨event, List.mem_append_left _ hmem, hends⟩

/-- The handshake goes on, or it is complete and the session takes over. -/
theorem step_undisturbed {x : Session} :
    (server cfg rules).Run Machine.Free as tr s → Undisturbed cfg x.entry s a →
    step cfg s a = some (s', evs) → x.established = false → Underway x.entry s.sessions →
    Underway x.entry s'.sessions ∨ ∃ call c, a = .decrypt (.process call) ∧
      checkCertificate cfg s.rules call x.peer = some c ∧ TakesOver s s' x c := by
  intro hr hu hs hpend hway
  cases hu with
  | @processed call incoming index newSession y hpc hy hentry hfed hresult =>
      have hpendy : y.established = false := (congrArg Entry.established hentry).trans hpend
      have hpeer : y.peer = x.peer := congrArg Entry.peer hentry
      simp only [step, decryptStep, hpc] at hs
      have hsessions : s'.sessions = (processDatagram cfg s.now s.rules call incoming newSession
          s.sessions index).1 := by
        rw [← (Prod.mk.inj (Option.some.inj hs)).1]
      rcases hresult with hmore | ⟨c, hdone, hc, hclient⟩
      · obtain ⟨z, hz, hz'⟩ := processDatagram_stays hy hpendy hfed hmore
        exact .inl ⟨z, hsessions ▸ hz, hz'.trans hentry⟩
      · have hover : TakesOver s s' y c :=
          processDatagram_takesOver (peers_of_run hr) hy hpendy hfed hdone hc hclient hsessions
        refine .inr ⟨call, c, rfl, hpeer ▸ hc, ?_, hover.clients, hover.count⟩
        rw [← hentry]
        exact hover.session
  | elsewhere hother hkept =>
      refine .inl ((step_underway hs hpend hway).resolve_right ?_)
      rintro ⟨event, hmem, hends⟩
      cases hends with
      | @dropped y hserial => exact hkept _ _ y hs hmem hserial
      | @established e evidence hserial =>
          -- Only the datagram of a session establishes it.
          have hlog : .established e evidence ∈ accessLog evs := List.mem_filterMap.mpr ⟨_, hmem, rfl⟩
          obtain ⟨c, ⟨call, incoming, index, newSession, y, rfl, hpc, hy, hcompletes⟩, -⟩ :=
            (step_cases hs).established_by (server_lawful hr) hlog
          obtain ⟨z, hz, hentry⟩ := hway
          have hsame : y = z := List.inj_on_of_nodup_map (serials_of_run hr)
            (List.mem_of_getElem? hcompletes.session) hz
            (hy.trans (hserial.trans (congrArg Entry.serial hentry).symm))
          have hdecrypt := hother _ _ _ y hpc hcompletes.session (hsame ▸ hentry)
          cases hdecrypt

/-- Its next datagram finds a session that is underway. -/
theorem Underway.holds {x : Session} {call : AdmitCall} {datagram : UdpDatagram} :
    Underway x.entry s.sessions → s.decrypt = .findSession datagram → datagram.peer = x.peer →
    step cfg s (.decrypt (.findSession call)) = some (s', evs) → s'.Holds datagram := by
  rintro ⟨y, hy, hentry⟩ hpc hpeer hs
  have hfound : (lookupPeer s.sessions datagram.peer).isSome = true := by
    refine List.findIdx?_isSome.trans (List.any_eq_true.mpr ⟨y, hy, ?_⟩)
    have hsame : y.peer = datagram.peer := (congrArg Entry.peer hentry).trans hpeer.symm
    simp [samePeer, hsame]
  obtain ⟨index, hlookup⟩ := Option.isSome_iff_exists.mp hfound
  exact holds_of_lookup hpc hlookup hs

/-- **A handshake that nothing else disturbs** is underway until it is complete,
and then its session takes over. -/
theorem handshake_followed {x : Session} {bs : List Action} {tr' : List Event} {t : ServerState} :
    (server cfg rules).Run Machine.Free as tr s → x ∈ s.sessions → x.established = false →
    ((server cfg rules).startedAt s).Run (Undisturbed cfg x.entry) bs tr' t →
    TakenOver cfg rules s x bs ∨ Underway x.entry t.sessions := by
  intro hr hx hpend hcont
  induction hcont with
  | start => exact .inr ⟨x, hx, rfl⟩
  | @next bs tr' evs t t' a hrun hu hs ih =>
      rcases ih with ⟨before, call, after, tr₁, evs₁, u, u', c, rfl, hover⟩ | hway
      · exact .inl ⟨before, call, after ++ [a], tr₁, evs₁, u, u', c, by simp, hover⟩
      · rcases step_undisturbed (hr.append hrun.free) hu hs hpend hway with hway | hlast
        · exact .inr hway
        · obtain ⟨call, c, rfl, hc, hover⟩ := hlast
          exact .inl ⟨bs, call, [], tr', evs, t, t', c, rfl, hrun.free, hs, hc, hover⟩

end Handshakes

/-! ## The old sessions -/

/-- Of the client's established sessions `z` is the only one. -/
def OnlySession (address : Ipv4Addr) (z : Session) (sessions : List Session) : Prop :=
  z ∈ sessions ∧ ∀ y ∈ sessions, establishedFor address y = true → y = z

section Displace

variable {cfg : ServerConfig} {s s' : ServerState} {evs : List Event} {z : Session}

/-- **Exactly when the deduplication pass removes the old sessions**, and not the new one. -/
theorem displaces_iff :
    s.decrypt = .deduplicate → z.authenticated = true →
    step cfg s (.decrypt .deduplicate) = some (s', evs) →
    (OnlySession z.address z s'.sessions ↔
      (s.sessions.filter (isFor z.address)).getLast? = some z ∧
        ∀ y ∈ s.sessions, establishedFor z.address y = true → y.authenticated = true) := by
  intro hpc hauth hs
  simp only [step, decryptStep, hpc] at hs
  obtain ⟨rfl, -⟩ := Prod.mk.inj (Option.some.inj hs)
  have hsurvivors := deduplicate_survivors z.address s.sessions
  have hsub : ∀ y ∈ (deduplicate s.sessions).1, y ∈ s.sessions :=
    (Vec.keepLast_sublist authenticatedAddress s.sessions).subset
  constructor
  · rintro ⟨hz, honly⟩
    constructor
    · have hmem : z ∈ (deduplicate s.sessions).1.filter (isFor z.address) :=
        List.mem_filter.mpr ⟨hz, by simp [isFor, hauth]⟩
      rw [hsurvivors] at hmem
      exact Option.mem_toList.mp hmem
    · intro y hy hfor
      -- One that is not authenticated survives the pass.
      by_contra hnot
      have hkept : y ∈ (deduplicate s.sessions).1 :=
        Vec.mem_keepLast_of_none hy (by simp [authenticatedAddress, hnot])
      exact hnot (honly y hkept hfor ▸ hauth)
  · rintro ⟨hlast, hall⟩
    rw [hlast] at hsurvivors
    have hz : z ∈ (deduplicate s.sessions).1.filter (isFor z.address) := by
      rw [hsurvivors]
      exact List.mem_singleton_self z
    refine ⟨(List.mem_filter.mp hz).1, fun y hy hfor => ?_⟩
    have haddr : y.address = z.address := by
      simp only [establishedFor, Bool.and_eq_true, beq_iff_eq] at hfor
      exact hfor.2
    have hmem : y ∈ (deduplicate s.sessions).1.filter (isFor z.address) :=
      List.mem_filter.mpr ⟨hy, by simp [isFor, hall y (hsub y hy) hfor, haddr]⟩
    rw [hsurvivors] at hmem
    exact List.mem_singleton.mp hmem

end Displace

/-! ## A client and a full server -/

section Reconnect

variable {cfg : ServerConfig} {rules : Rules} {as : List Action} {tr : List Event} {s : ServerState}

/-- **When a client that comes back is let in.**  In every reachable state: its
datagram is not refused exactly when its endpoint has a session already; every
datagram that is processed keeps the session or, when it completes the
handshake, lets it take over; and the pass after a login removes the client's
old sessions exactly when they are all authenticated and the new one stands
last.  So in every continuation that leaves a pending handshake to its client,
the session takes over, or its next datagram is not refused either. -/
theorem reconnection_admitted_iff :
    (server cfg rules).Run Machine.Free as tr s →
    (∀ datagram call address s' evs, ComesBack cfg s datagram address →
      (lookupPeer s.sessions datagram.peer = none → Verified cfg s call datagram) →
      step cfg s (.decrypt (.findSession call)) = some (s', evs) →
      (s'.Holds datagram ↔ (lookupPeer s.sessions datagram.peer).isSome = true)) ∧
    (∀ call incoming index newSession x, s.decrypt = .process incoming index newSession →
      s.sessions[index]? = some x → x.established = false →
      (newSession = true ∨ ∃ fed, call.inject.result = .ok fed) →
      ∃ s' evs, step cfg s (.decrypt (.process call)) = some (s', evs) ∧
        (call.handshake.result = .ok false → ∃ z ∈ s'.sessions, z.entry = x.entry) ∧
        ∀ c, call.handshake.result = .ok true → checkCertificate cfg s.rules call x.peer = some c →
          Connected s.sessions c.address → TakesOver s s' x c) ∧
    (∀ z s' evs, s.decrypt = .deduplicate → z.authenticated = true →
      step cfg s (.decrypt .deduplicate) = some (s', evs) →
      (OnlySession z.address z s'.sessions ↔
        (s.sessions.filter (isFor z.address)).getLast? = some z ∧
          ∀ y ∈ s.sessions, establishedFor z.address y = true → y.authenticated = true)) ∧
    ∀ x ∈ s.sessions, x.established = false → ∀ bs tr' t,
      ((server cfg rules).startedAt s).Run (Undisturbed cfg x.entry) bs tr' t →
      TakenOver cfg rules s x bs ∨
        Underway x.entry t.sessions ∧ ∀ datagram call t' evs, t.decrypt = .findSession datagram →
          datagram.peer = x.peer → step cfg t (.decrypt (.findSession call)) = some (t', evs) →
          t'.Holds datagram := by
  intro hr
  refine ⟨fun _ _ _ _ _ => holds_iff, ?_, fun _ _ _ => displaces_iff, ?_⟩
  · intro call incoming index newSession x hpc hx hpend hfed
    have hs : step cfg s (.decrypt (.process call)) = some
        ({ s with
            sessions :=
              (processDatagram cfg s.now s.rules call incoming newSession s.sessions index).1
            decrypt := .drain },
          (processDatagram cfg s.now s.rules call incoming newSession s.sessions index).2) := by
      simp only [step, decryptStep, hpc]
    refine ⟨_, _, hs, processDatagram_stays hx hpend hfed, fun c hdone hc hclient => ?_⟩
    exact processDatagram_takesOver (peers_of_run hr) hx hpend hfed hdone hc hclient rfl
  · intro x hx hpend bs tr' t hcont
    exact (handshake_followed hr hx hpend hcont).imp_right fun hway =>
      ⟨hway, fun _ _ _ _ => hway.holds⟩

namespace Sample

def datagram (port : UInt16) : UdpDatagram := ⟨peer port, 16, [22]⟩

/-- A datagram from `port` is taken, after `before`. -/
def lookUp (before : List Action) (port : UInt16) : List Action :=
  before ++ [.udpReceived (datagram port), .decrypt (.drain silent), .decrypt .deduplicate,
    .decrypt .adoptReload, .decrypt .takeDatagram]

/-- The client is established at port 1, and there is one more handshake at port 2. -/
def begunEarly : List Action :=
  lookUp (turn silent 1 false ++ turn silent 2 false ++ turn silent 1 true) 2

/-- The client is established at port 1, and comes back at port 2 only then. -/
def begunLate : List Action := lookUp (turn silent 1 false ++ turn silent 1 true) 2

/-- The session that is pending at port 2. -/
def begunEntry : Entry := Entry.knock 1 (peer 2)

/-- Two more datagrams, and the second completes the handshake. -/
def twoMore : List Action :=
  [.decrypt (.findSession verified), .decrypt (.process (handshake false))] ++ turn silent 2 true

/-- The step is one of the handshake from port 2, or it logs nothing. -/
def undisturbed (s : ServerState) (a : Action) : Bool :=
  match a, s.decrypt with
  | .decrypt (.process call), .process _ index newSession =>
      match s.sessions[index]? with
      | some x =>
          decide (x.entry = begunEntry) && newSession == false &&
            (match call.inject.result, call.handshake.result with
            | .ok _, .ok false => true
            | .ok _, .ok true => (checkCertificate config s.rules call x.peer).any fun c =>
                s.sessions.any (establishedFor c.address)
            | _, _ => false)
      | none => false
  | _, .process _ _ _ => false
  | a, _ => (step config s a).all fun r => r.2.isEmpty

/-- What follows when the first of them has come. -/
def goesOn : ServerState × List Event :=
  ((server config (Sample.rules none)).startedAt (outcome none begunEarly).1).outcome undisturbed twoMore

end Sample

theorem undisturbed_of_sample {s : ServerState} {a : Action} :
    Sample.undisturbed s a = true → Undisturbed Sample.config Sample.begunEntry s a := by
  intro h
  unfold Sample.undisturbed at h
  split at h
  · rename_i call incoming index newSession hpc
    split at h
    · rename_i x hx
      simp only [Bool.and_eq_true, decide_eq_true_eq] at h
      obtain ⟨⟨hentry, -⟩, hresult⟩ := h
      split at hresult
      · rename_i fed hfed hmore
        exact .processed hpc hx hentry (.inr ⟨fed, hfed⟩) (.inl hmore)
      · rename_i fed hfed hdone
        obtain ⟨c, hc, hany⟩ := (Option.any_eq_true _ _).mp hresult
        obtain ⟨y, hy, hfor⟩ := List.any_eq_true.mp hany
        simp only [establishedFor, Bool.and_eq_true, beq_iff_eq] at hfor
        exact .processed hpc hx hentry (.inr ⟨fed, hfed⟩) (.inr ⟨c, hdone, hc, y, hy, hfor⟩)
      · cases hresult
    · cases h
  · cases h
  · rename_i hpc _
    refine .elsewhere (fun _ _ _ _ hprocess => absurd hprocess (hpc _ _ _)) ?_
    intro s' evs x hs hx
    rw [hs] at h
    have hnil : evs = [] := List.isEmpty_iff.mp h
    rw [hnil] at hx
    cases hx

/-- The server has one place, the client has it, and its handshake from the new
endpoint was begun before: the datagram is processed, and with the second one
after it the new session takes over. -/
theorem reconnection_admitted_early :
    (∃ s' evs, step Sample.config (Sample.outcome none Sample.begunEarly).1
        (.decrypt (.findSession Sample.verified)) = some (s', evs) ∧
      s'.Holds (Sample.datagram 2)) ∧
    ∃ x, x.entry = Sample.begunEntry ∧ TakenOver Sample.config (Sample.rules none)
      (Sample.outcome none Sample.begunEarly).1 x Sample.twoMore := by
  have hr : (server Sample.config (Sample.rules none)).Run Machine.Free Sample.begunEarly
      (Sample.outcome none Sample.begunEarly).2 (Sample.outcome none Sample.begunEarly).1 :=
    run_sample (by decide +kernel)
  obtain ⟨hlookup, -, -, hfollowed⟩ := reconnection_admitted_iff hr
  constructor
  · have hback : ComesBack Sample.config (Sample.outcome none Sample.begunEarly).1
        (Sample.datagram 2) Sample.address :=
      ⟨by decide +kernel, by decide +kernel, by unfold Connected; decide +kernel, by decide +kernel⟩
    have hknown : (lookupPeer (Sample.outcome none Sample.begunEarly).1.sessions
        (Sample.datagram 2).peer).isSome = true := by decide +kernel
    have hstep : (step Sample.config (Sample.outcome none Sample.begunEarly).1
        (.decrypt (.findSession Sample.verified))).isSome = true := by decide +kernel
    obtain ⟨⟨s', evs⟩, hs⟩ := Option.isSome_iff_exists.mp hstep
    refine ⟨s', evs, hs, (hlookup _ _ _ _ _ hback (fun hnone => ?_) hs).mpr hknown⟩
    rw [hnone] at hknown
    cases hknown
  · have hrun : ((server Sample.config (Sample.rules none)).startedAt
        (Sample.outcome none Sample.begunEarly).1).Run (Undisturbed Sample.config Sample.begunEntry)
        Sample.twoMore Sample.goesOn.2 Sample.goesOn.1 :=
      Machine.run_outcome (fun _ _ h => undisturbed_of_sample h) (by decide +kernel)
    have hwaiting : ∃ x ∈ (Sample.outcome none Sample.begunEarly).1.sessions,
        x.entry = Sample.begunEntry := by decide +kernel
    have hover : ¬ ∃ x ∈ Sample.goesOn.1.sessions, x.entry = Sample.begunEntry := by decide +kernel
    obtain ⟨x, hx, hentry⟩ := hwaiting
    rw [← hentry] at hrun hover
    have hpend : x.established = false := congrArg Entry.established hentry
    refine ⟨x, hentry, (hfollowed x hx hpend _ _ _ hrun).resolve_right ?_⟩
    exact fun h => hover h.1

/-- The same with a handshake that is begun when the place is taken: the
client's datagram is refused, and by the capacity alone. -/
theorem reconnection_refused :
    ∃ as tr s s' evs, (server Sample.config (Sample.rules none)).Run Machine.Free as tr s ∧
      ComesBack Sample.config s (Sample.datagram 2) Sample.address ∧
      Verified Sample.config s ⟨.ok (), .ok true, .ok ()⟩ (Sample.datagram 2) ∧
      step Sample.config s (.decrypt (.findSession ⟨.ok (), .ok true, .ok ()⟩)) = some (s', evs) ∧
      ¬ s'.Holds (Sample.datagram 2) := by
  have hr : (server Sample.config (Sample.rules none)).Run Machine.Free Sample.begunLate
      (Sample.outcome none Sample.begunLate).2 (Sample.outcome none Sample.begunLate).1 :=
    run_sample (by decide +kernel)
  have hback : ComesBack Sample.config (Sample.outcome none Sample.begunLate).1
      (Sample.datagram 2) Sample.address :=
    ⟨by decide +kernel, by decide +kernel, by unfold Connected; decide +kernel, by decide +kernel⟩
  have hverified : Verified Sample.config (Sample.outcome none Sample.begunLate).1
      ⟨.ok (), .ok true, .ok ()⟩ (Sample.datagram 2) :=
    ⟨⟨Ipv4Addr.new 203 0 113 7, by decide +kernel, by decide +kernel, by decide +kernel,
      by decide +kernel⟩, ⟨rfl, rfl⟩, by decide +kernel, rfl⟩
  have hstep : ((step Sample.config (Sample.outcome none Sample.begunLate).1
      (.decrypt (.findSession ⟨.ok (), .ok true, .ok ()⟩))).any fun r =>
        decide (r.1.decrypt = .drain)) = true := by decide +kernel
  obtain ⟨⟨s', evs⟩, hs, hpc⟩ := (Option.any_eq_true _ _).mp hstep
  refine ⟨_, _, _, s', evs, hr, hback, hverified, hs, ?_⟩
  rintro ⟨index, newSession, x, hprocess, -⟩
  rw [of_decide_eq_true hpc] at hprocess
  cases hprocess

end Reconnect

end AutobricksVpn
