/-
# `AutobricksVpn.Server.Handshake` — a datagram of a known peer

The rest of an iteration of `src/server/decrypt.rs`, with the session at hand:
the datagram is injected, and a pending session goes on with its handshake.
When that completes, the certificate is checked against the bindings, the SAN
and the source policy (`checkCertificate`); a session that passes is
established (`establishSession`), refused for capacity, or replaces the other
sessions of its address.

Written `x :: others` for the list up to order, the outcome is one of three
(`ProcessEffect`): `x` keeps its entry; `x` was pending and is gone; or `x` was
pending, is established now, and if it owes no login every other established
session of its address is gone.
-/
import AutobricksVpn.Lib.RemovalLoop
import AutobricksVpn.Server.Admission

namespace AutobricksVpn

/-- The outcomes of the calls made on the session of the datagram. -/
structure HandshakeCall where
  inject : DtlsCall Bool
  handshake : DtlsCall Bool
  fingerprint : Except IoError String
  peerCertificateHasSanIp : Ipv4Addr → Except IoError Bool
  peerCertificateAllowsSourceIp : Ipv4Addr → Except IoError Bool
  currentTimeout : Duration

/-- A check that was made and passed. -/
def passed : Except IoError Bool → Bool
  | .ok result => result
  | .error _ => false

/-- `bindings.iter().find(…)`: an address bound to the fingerprint. -/
def findBinding (rules : Rules) (fingerprint : String) : Option Ipv4Addr :=
  (rules.bindings.entries.find? fun binding => binding.2 == fingerprint).map (·.1)

structure Certified where
  address : Ipv4Addr
  fingerprint : String
  evidence : Evidence

/-- The checks of a completed handshake; a failed one removes the session. -/
def checkCertificate (cfg : ServerConfig) (rules : Rules) (call : HandshakeCall)
    (peer : SockaddrStorage) : Option Certified :=
  match call.fingerprint with
  | .error _ => none
  | .ok fingerprint =>
      match findBinding rules fingerprint with
      | none => none
      | some address =>
          let sanMatches := call.peerCertificateHasSanIp address
          if cfg.verifyClientSanIp && !passed sanMatches then none
          else
            match peerIpv4 peer with
            | none => none
            | some sourceIp =>
                let sourceAllowed := call.peerCertificateAllowsSourceIp sourceIp
                if !passed sourceAllowed then none
                else
                  some
                    { address := address
                      fingerprint := fingerprint
                      evidence :=
                        { rules := rules, sanMatches := sanMatches, sourceIp := sourceIp,
                          sourceAllowed := sourceAllowed } }

/-- The datagram is given to wolfSSL or put behind those that wait already;
the second component is false when the source `continue`s. -/
def injectIncoming (now : Instant) (call : DtlsCall Bool) (incoming : Packet) (x : Session) :
    Session × Bool :=
  if !x.pendingInject.isEmpty then
    if SESSION_TX_QUEUE_CAPACITY ≤ x.pendingInject.length then (x, true)
    else ({ x with pendingInject := x.pendingInject ++ [incoming] }, true)
  else
    let x := x.emit now call.sent
    match call.result with
    | .ok true => ({ x with drainPending := true }, true)
    | .ok false =>
        ({ x with pendingInject := x.pendingInject ++ [incoming], drainPending := true }, true)
    | .error _ => (x, false)

/-- Another established session of the address. -/
def isDuplicate (address : Ipv4Addr) (peer : SockaddrStorage) (x : Session) : Bool :=
  x.established && x.address == address && !samePeer x.peer peer

/-- The session record after a certificate was accepted. -/
def Session.establish (now : Instant) (c : Certified) (authenticated : Bool) (x : Session) :
    Session :=
  { x with
    address := c.address
    fingerprint := some c.fingerprint
    established := true
    authenticated := authenticated
    establishedAt := some now
    dtlsDeadline := none }

/-- The session at `index` has passed its checks. -/
def establishSession (cfg : ServerConfig) (now : Instant) (rules : Rules)
    (establishedBeforeProcessing : Nat) (c : Certified) (sessions : List Session) (index : Nat)
    (x : Session) : List Session × List Event :=
  let authenticated := (rules.logins.lookup c.address).isNone
  let message := if authenticated then AUTH_OK else AUTH_REQUIRED
  let established := x.establish now c authenticated
  let queued : Event := .queued established message .auth
  let x := established.queueSessionPlain now message
  let sessions := sessions.set index x
  let replacesExisting := sessions.any (isDuplicate c.address x.peer)
  if cfg.maxClients ≤ establishedBeforeProcessing ∧ replacesExisting = false then
    (Vec.swapRemove (sessions.set index (x.because .maxClients)) index,
      [queued, .dropped (x.because .maxClients)])
  else if authenticated then
    let (kept, replaced) :=
      Vec.removeLoop (fun y => if isDuplicate c.address x.peer y then none else some y)
        sessions.length 0 sessions
    (kept, [queued, .access (.established x.entry c.evidence), .connected x] ++
      dropAll (replaced.map (Session.because .replaced)))
  else (sessions, [queued, .access (.established x.entry c.evidence)])

/-- The handshake of the pending session at `index`. -/
def continueHandshake (cfg : ServerConfig) (now : Instant) (rules : Rules) (call : HandshakeCall)
    (establishedBeforeProcessing : Nat) (sessions : List Session) (index : Nat) (x : Session) :
    List Session × List Event :=
  let x := x.emit now call.handshake.sent
  let sessions := sessions.set index x
  match call.handshake.result with
  | .error _ => (Vec.swapRemove sessions index, [.dropped x])
  | .ok false =>
      (sessions.set index { x with dtlsDeadline := some (now + call.currentTimeout) }, [])
  | .ok true =>
      match checkCertificate cfg rules call x.peer with
      | none => (Vec.swapRemove sessions index, [.dropped x])
      | some c => establishSession cfg now rules establishedBeforeProcessing c sessions index x

/-- The datagram, with the session it belongs to at `index`. -/
def processDatagram (cfg : ServerConfig) (now : Instant) (rules : Rules) (call : HandshakeCall)
    (incoming : Packet) (newSession : Bool) (sessions : List Session) (index : Nat) :
    List Session × List Event :=
  match sessions[index]? with
  | none => (sessions, [])
  | some x =>
      let (x, goOn) := if newSession then (x, true) else injectIncoming now call.inject incoming x
      if goOn && !x.established then
        continueHandshake cfg now rules call (sessions.countP (·.established))
          (sessions.set index x) index x
      else (sessions.set index x, [])

/-! ## The three outcomes -/

theorem passed_iff {r : Except IoError Bool} : passed r = true ↔ r = .ok true := by
  cases r <;> simp [passed]

theorem findBinding_lookup {rules : Rules} {fingerprint : String} {address : Ipv4Addr}
    (h : findBinding rules fingerprint = some address) :
    rules.bindings.lookup address = some fingerprint := by
  obtain ⟨binding, hfind, rfl⟩ := Option.map_eq_some_iff.mp h
  have hmem := List.mem_of_find?_eq_some hfind
  have hfp := List.find?_some hfind
  rw [beq_iff_eq] at hfp
  exact AList.mem_lookup_iff.mpr (by rw [← hfp]; exact hmem)

/-- A certificate that passes supports the entry it establishes. -/
theorem checkCertificate_supports {cfg : ServerConfig} {rules : Rules} {call : HandshakeCall}
    {x : Entry} {c : Certified} (h : checkCertificate cfg rules call x.peer = some c) (now : Instant) :
    c.evidence.rules = rules ∧
    c.evidence.Supports cfg
      (x.establish c.address c.fingerprint (rules.logins.lookup c.address).isNone now) := by
  unfold checkCertificate at h
  split at h
  · exact nomatch h
  · split at h
    · exact nomatch h
    · rename_i address hfind
      dsimp only at h
      split at h
      · exact nomatch h
      · rename_i hsan
        split at h
        · exact nomatch h
        · rename_i sourceIp hpeer
          split at h
          · exact nomatch h
          · rename_i hsource
            obtain rfl := Option.some.inj h
            refine ⟨rfl, { binding := ⟨_, rfl, findBinding_lookup hfind⟩, san := fun hverify => ?_,
                           source := ⟨hpeer, ?_⟩, login := rfl }⟩
            · simpa [hverify, passed_iff] using hsan
            · simpa [passed_iff] using hsource

/-- What the session and the others become. -/
inductive ProcessEffect (cfg : ServerConfig) (now : Instant) (rules : Rules) (call : HandshakeCall)
    (sessions : List Session) (x : Session) (others : List Session) :
    List Session × List Event → Prop
  | kept {x' : Session} {l : List Session} :
      x'.entry = x.entry → l.Perm (x' :: others) →
      ProcessEffect cfg now rules call sessions x others (l, [])
  | removed {l : List Session} {evs : List Event} :
      x.established = false → l.Perm others → accessLog evs = [] →
      ProcessEffect cfg now rules call sessions x others (l, evs)
  | established {x' : Session} {l kept : List Session} {evs : List Event} (c : Certified) :
      x.established = false → call.handshake.result = .ok true →
      checkCertificate cfg rules call x.peer = some c →
      x'.entry = x.entry.establish c.address c.fingerprint
        (rules.logins.lookup c.address).isNone now →
      c.evidence.rules = rules → c.evidence.Supports cfg x'.entry →
      l.Perm (x' :: kept) →
      kept = others.filter (fun y =>
        !((rules.logins.lookup c.address).isNone && isDuplicate c.address x.peer y)) →
      (sessions.countP (·.established) < cfg.maxClients ∨
        ∃ y ∈ others, y.established = true ∧ y.address = c.address) →
      ((rules.logins.lookup c.address).isNone = true → ∀ y ∈ others,
        isDuplicate c.address x.peer y = true → .dropped (y.because .replaced) ∈ evs) →
      accessLog evs = [.established x'.entry c.evidence] →
      ProcessEffect cfg now rules call sessions x others (l, evs)

section Effects

variable {cfg : ServerConfig} {now : Instant} {rules : Rules} {call : HandshakeCall}
  {sessions : List Session} {index : Nat}

theorem entry_injectIncoming (call : DtlsCall Bool) (incoming : Packet) (x : Session) :
    (injectIncoming now call incoming x).1.entry = x.entry := by
  unfold injectIncoming
  split
  · split <;> rfl
  · dsimp only
    split <;> rfl

theorem isDuplicate_iff {address : Ipv4Addr} {peer : SockaddrStorage} {x : Session} :
    isDuplicate address peer x = true ↔
      x.established = true ∧ x.address = address ∧ x.peer ≠ peer := by
  simp [isDuplicate, samePeer, and_assoc]

theorem establishSession_effect {x₀ x : Session} {c : Certified} {before : List Session}
    (hlt : index < sessions.length) (hx : x.entry = x₀.entry) (hpend : x₀.established = false)
    (hdone : call.handshake.result = .ok true)
    (hc : checkCertificate cfg rules call x.peer = some c) :
    ProcessEffect cfg now rules call before x₀ (sessions.eraseIdx index)
      (establishSession cfg now rules (before.countP (·.established)) c sessions index x) := by
  have hpeer : x.peer = x₀.peer := congrArg Entry.peer hx
  have hc' : checkCertificate cfg rules call x₀.peer = some c := hpeer ▸ hc
  rw [show x.peer = x.entry.peer from rfl] at hc
  obtain ⟨hrules, hsupports⟩ := checkCertificate_supports hc now
  unfold establishSession
  generalize hauth : (rules.logins.lookup c.address).isNone = authenticated at hsupports ⊢
  dsimp only
  generalize (if authenticated = true then AUTH_OK else AUTH_REQUIRED) = message
  generalize hx' : (x.establish now c authenticated).queueSessionPlain now message = x'
  have hentry : x'.entry = x₀.entry.establish c.address c.fingerprint authenticated now := by
    rw [← hx', ← hx]
    rfl
  have hpeer' : x'.peer = x₀.peer := congrArg Entry.peer hentry
  rw [← show x'.entry = x.entry.establish c.address c.fingerprint authenticated now by
    rw [hentry, hx]] at hsupports
  have hset : (sessions.set index x').Perm (x' :: sessions.eraseIdx index) :=
    List.set_perm_cons_eraseIdx hlt x'
  have hself : isDuplicate c.address x'.peer x' = false := by
    simp [isDuplicate, samePeer]
  split
  · -- Refused for capacity: the session leaves again.
    refine .removed hpend ?_ rfl
    rw [List.set_set]
    exact Vec.swapRemove_set_perm hlt _
  · rename_i hcap
    -- Somebody of the same address is established, or there is a free place.
    have hroom : before.countP (·.established) < cfg.maxClients ∨
        ∃ y ∈ sessions.eraseIdx index, y.established = true ∧ y.address = c.address := by
      by_cases hfull : cfg.maxClients ≤ before.countP (·.established)
      · rw [not_and] at hcap
        have hany : (sessions.set index x').any (isDuplicate c.address x'.peer) = true := by
          simpa using hcap hfull
        obtain ⟨y, hy, hdup⟩ := List.any_eq_true.mp hany
        have hy := hset.subset hy
        obtain ⟨hest, haddr, hne⟩ := isDuplicate_iff.mp hdup
        rcases List.mem_cons.mp hy with rfl | hy
        · exact absurd rfl hne
        · exact .inr ⟨y, hy, hest, haddr⟩
      · exact .inl (Nat.not_le.mp hfull)
    have hentry' : x'.entry = x₀.entry.establish c.address c.fingerprint
        (rules.logins.lookup c.address).isNone now := by rw [hauth, hentry]
    split
    · rename_i htrue
      have hloop := Vec.removeLoop_filter (isDuplicate c.address x'.peer) (sessions.set index x')
      refine .established c hpend hdone hc' hentry' hrules hsupports ?_ rfl hroom ?_ ?_
      · rw [hauth, htrue, ← hpeer']
        refine hloop.1.trans ((hset.filter _).trans ?_)
        rw [List.filter_cons_of_pos (by simp [hself])]
        simp
      · intro _ y hy hdup
        have hmem : y ∈ (sessions.set index x').filter (isDuplicate c.address x'.peer) :=
          List.mem_filter.mpr ⟨hset.symm.subset (List.mem_cons_of_mem x' hy), hpeer' ▸ hdup⟩
        refine List.mem_append_right _ (List.mem_map.mpr ⟨_, ?_, rfl⟩)
        exact List.mem_map.mpr ⟨y, hloop.2.symm.subset hmem, rfl⟩
      · simp
    · rename_i hfalse
      have hnone : (rules.logins.lookup c.address).isNone = false := by
        rw [hauth, eq_false_of_ne_true hfalse]
      refine .established c hpend hdone hc' hentry' hrules hsupports ?_ rfl hroom ?_ rfl
      · rw [hnone]
        simpa using hset
      · intro htrue
        exact nomatch hnone.symm.trans htrue

theorem continueHandshake_effect {x₀ x : Session} {before : List Session}
    (hlt : index < sessions.length) (hx : x.entry = x₀.entry) (hpend : x₀.established = false) :
    ProcessEffect cfg now rules call before x₀ (sessions.eraseIdx index)
      (continueHandshake cfg now rules call (before.countP (·.established)) sessions index x) := by
  unfold continueHandshake
  dsimp only
  split
  · exact .removed hpend (Vec.swapRemove_set_perm hlt _) rfl
  · rw [List.set_set]
    refine .kept ?_ (List.set_perm_cons_eraseIdx hlt _)
    exact hx
  · rename_i hdone
    split
    · exact .removed hpend (Vec.swapRemove_set_perm hlt _) rfl
    · rename_i c hc
      have hlt' : index < (sessions.set index (x.emit now call.handshake.sent)).length := by
        rwa [List.length_set]
      rw [← show (sessions.set index (x.emit now call.handshake.sent)).eraseIdx index =
        sessions.eraseIdx index from List.eraseIdx_set_eq ..]
      exact establishSession_effect hlt' hx hpend hdone hc

/-- Every outcome of the processing, for the session `x` found at `index`. -/
theorem processDatagram_effect (incoming : Packet) (newSession : Bool) {x : Session}
    (hx : sessions[index]? = some x) :
    ProcessEffect cfg now rules call sessions x (sessions.eraseIdx index)
      (processDatagram cfg now rules call incoming newSession sessions index) := by
  obtain ⟨hlt, -⟩ := List.getElem?_eq_some_iff.mp hx
  unfold processDatagram
  rw [hx]
  dsimp only
  generalize hin : (if newSession = true then (x, true)
    else injectIncoming now call.inject incoming x) = r
  obtain ⟨y, goOn⟩ := r
  have hy : y.entry = x.entry := by
    cases newSession with
    | true => rw [← (Prod.mk.inj hin).1]
    | false =>
        rw [← show (injectIncoming now call.inject incoming x).1 = y from congrArg Prod.fst hin]
        exact entry_injectIncoming _ _ _
  dsimp only
  split
  · rename_i hgo
    have hpend : x.established = false := by
      have hyest : y.established = x.established := congrArg Entry.established hy
      rw [← hyest]
      simp only [Bool.and_eq_true, Bool.not_eq_true'] at hgo
      exact hgo.2
    have hlt' : index < (sessions.set index y).length := by rwa [List.length_set]
    rw [← show (sessions.set index y).eraseIdx index = sessions.eraseIdx index from
      List.eraseIdx_set_eq ..]
    exact continueHandshake_effect hlt' hy hpend
  · exact .kept hy (List.set_perm_cons_eraseIdx hlt y)

/-- A datagram whose session is gone changes nothing. -/
theorem processDatagram_cases {incoming : Packet} {newSession : Bool}
    {r : List Session × List Event} :
    r = processDatagram cfg now rules call incoming newSession sessions index →
    r = (sessions, []) ∨ ∃ x, sessions[index]? = some x ∧
      ProcessEffect cfg now rules call sessions x (sessions.eraseIdx index) r := by
  rintro rfl
  cases hx : sessions[index]? with
  | none => exact .inl (by rw [processDatagram, hx])
  | some x => exact .inr ⟨x, rfl, processDatagram_effect incoming newSession hx⟩

end Effects

end AutobricksVpn
