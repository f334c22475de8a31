/-
# `AutobricksVpn.Client.Exchange` — a client logs in over a datagram network

The server and one client, whose session has the serial `n`, with the records
between them.  A record to the client is in flight from the time its message is
queued, since the queues of the session only delay and lose it; the network
hands over the records in any order and loses any of them.  What the server
reads from the session is a record of the client.

The client is one whose certificate is bound and whose login the server knows
(`Matching`).  The server then never refuses it, and challenges it once; so the
only answer that can end the client is a packet of the tunnel that arrives while
it waits for a login message.  A login goes wrong exactly in the runs in which
this happens (`login_tolerant_iff`), and it does happen: the server queues
packets as soon as the session is authenticated, and they may overtake `AUTH_OK`
(`packet_overtakes_answer`).
-/
import AutobricksVpn.Client.Login
import AutobricksVpn.Server.Answers
import AutobricksVpn.Server.Invariants

namespace AutobricksVpn

/-! ## The two ends and the network -/

structure Exchange where
  server : ServerState
  client : AuthenticatePc
  cache : Option LoginCredentials
  toClient : List Packet
  toServer : List Packet

/-- What a read of the client yields; `record` is one of those in flight. -/
inductive ClientRead where
  | record (index : Nat)
  | empty
  | want
  | failed (code : Int)

inductive ExchangeAction where
  | server (action : Action)
  | loseAnswer (index : Nat)
  | loseLogin (index : Nat)
  | connected (now : Instant)
  | read (source : ClientRead) (now : Instant) (wait : PollOutcome)
  | logIn (now : Instant) (id password : Except IoError String)
  | write (outcome : WolfSsl Nat) (now : Instant) (wait : PollOutcome)

/-- The client reads a record of the network, or nothing. -/
def takeRecord (toClient : List Packet) : ClientRead → Option (WolfSsl Packet × List Packet)
  | .record index => toClient[index]?.map fun packet => (.value packet, toClient.eraseIdx index)
  | .empty => some (.value [], toClient)
  | .want => some (.want, toClient)
  | .failed code => some (.failed code, toClient)

/-- The records in flight to the server after a write of the login; after a
partial write the client has ended. -/
def sendRecord (frame : Packet) (toServer : List Packet) : WolfSsl Nat → List Packet
  | .value written => if written = frame.length then toServer ++ [frame] else toServer
  | .want => toServer
  | .failed _ => toServer

def exchangeStep (cfg : ServerConfig) (n : Nat) (s : Exchange) :
    ExchangeAction → Option (Exchange × List Event)
  | .server action =>
      match step cfg s.server action with
      | none => none
      | some (server, evs) =>
          let received := receivedBy n (accessLog evs)
          if received.isSubperm s.toServer then
            some ({ s with
              server := server
              toClient := s.toClient ++ queuedTo n evs
              toServer := s.toServer.diff received }, evs)
          else none
  | .loseAnswer index => some ({ s with toClient := s.toClient.eraseIdx index }, [])
  | .loseLogin index => some ({ s with toServer := s.toServer.eraseIdx index }, [])
  | .connected now =>
      match s.client with
      | .connecting => some ({ s with client := .awaitChallenge (now + LOGIN_STEP_TIMEOUT) }, [])
      | _ => none
  | .read source now wait =>
      match s.client.deadline?.isSome, takeRecord s.toClient source with
      | true, some (read, toClient) =>
          some ({ s with client := readTurn now read wait s.client, toClient := toClient }, [])
      | _, _ => none
  | .logIn now id password =>
      match s.client with
      | .logIn =>
          let login := cachedLogin s.cache id password
          some ({ s with
            client := logInTurn now login
            cache := login.toOption }, [])
      | _ => none
  | .write outcome now wait =>
      match s.client with
      | .sendLogin frame deadline =>
          some ({ s with
            client := writeTurn frame deadline now outcome wait
            toServer := sendRecord frame s.toServer outcome }, [])
      | _ => none

/-- The server from its start, and a client that starts to connect. -/
def exchange (cfg : ServerConfig) (rules : Rules) (n : Nat) (cache : Option LoginCredentials) :
    Machine Exchange ExchangeAction Event :=
  { init :=
      { server := ServerState.start cfg rules, client := .connecting, cache := cache
        toClient := [], toServer := [] }
    step := exchangeStep cfg n }

/-! ## What a step can do -/

inductive ExchangeEffect (cfg : ServerConfig) (n : Nat) (s : Exchange) :
    ExchangeAction → Exchange → List Event → Prop
  | server {action : Action} {server : ServerState} {evs : List Event} :
      step cfg s.server action = some (server, evs) →
      (receivedBy n (accessLog evs)).Subperm s.toServer →
      ExchangeEffect cfg n s (.server action)
        { s with
          server := server
          toClient := s.toClient ++ queuedTo n evs
          toServer := s.toServer.diff (receivedBy n (accessLog evs)) } evs
  | lost {a : ExchangeAction} {toClient toServer : List Packet} :
      (∀ source now wait, a ≠ .read source now wait) →
      toClient.Sublist s.toClient → toServer.Sublist s.toServer →
      ExchangeEffect cfg n s a { s with toClient := toClient, toServer := toServer } []
  | connected {now : Instant} : s.client = .connecting →
      ExchangeEffect cfg n s (.connected now)
        { s with client := .awaitChallenge (now + LOGIN_STEP_TIMEOUT) } []
  | read {source : ClientRead} {now : Instant} {wait : PollOutcome} {read : WolfSsl Packet}
      {toClient : List Packet} :
      s.client.deadline?.isSome = true → takeRecord s.toClient source = some (read, toClient) →
      ExchangeEffect cfg n s (.read source now wait)
        { s with client := readTurn now read wait s.client, toClient := toClient } []
  | logIn {now : Instant} {id password : Except IoError String} :
      s.client = .logIn →
      ExchangeEffect cfg n s (.logIn now id password)
        { s with
          client := logInTurn now (cachedLogin s.cache id password)
          cache := (cachedLogin s.cache id password).toOption } []
  | write {outcome : WolfSsl Nat} {now : Instant} {wait : PollOutcome} {frame : Packet}
      {deadline : Instant} :
      s.client = .sendLogin frame deadline →
      ExchangeEffect cfg n s (.write outcome now wait)
        { s with
          client := writeTurn frame deadline now outcome wait
          toServer := sendRecord frame s.toServer outcome } []

section Exchanges

variable {cfg : ServerConfig} {rules : Rules} {n : Nat} {cache : Option LoginCredentials}
  {G : Exchange → ExchangeAction → Prop} {as : List ExchangeAction} {tr evs : List Event}
  {s s' : Exchange} {a : ExchangeAction}

theorem exchangeStep_cases :
    exchangeStep cfg n s a = some (s', evs) → ExchangeEffect cfg n s a s' evs := by
  intro h
  cases a with
  | server action =>
      simp only [exchangeStep] at h
      split at h
      · exact nomatch h
      · rename_i server evs' hs
        split at h
        · rename_i hsub
          obtain ⟨rfl, rfl⟩ := Prod.mk.inj (Option.some.inj h)
          exact .server hs (List.isSubperm_iff.mp hsub)
        · exact nomatch h
  | loseAnswer index =>
      obtain ⟨rfl, rfl⟩ := Prod.mk.inj (Option.some.inj h)
      exact .lost nofun (List.eraseIdx_sublist _ _) (List.Sublist.refl _)
  | loseLogin index =>
      obtain ⟨rfl, rfl⟩ := Prod.mk.inj (Option.some.inj h)
      exact .lost nofun (List.Sublist.refl _) (List.eraseIdx_sublist _ _)
  | connected now =>
      simp only [exchangeStep] at h
      split at h
      · rename_i hpc
        obtain ⟨rfl, rfl⟩ := Prod.mk.inj (Option.some.inj h)
        exact .connected hpc
      · exact nomatch h
  | read source now wait =>
      simp only [exchangeStep] at h
      split at h
      · rename_i hwaiting htake
        obtain ⟨rfl, rfl⟩ := Prod.mk.inj (Option.some.inj h)
        exact .read hwaiting htake
      · exact nomatch h
  | logIn now id password =>
      simp only [exchangeStep] at h
      split at h
      · rename_i hpc
        obtain ⟨rfl, rfl⟩ := Prod.mk.inj (Option.some.inj h)
        exact .logIn hpc
      · exact nomatch h
  | write outcome now wait =>
      simp only [exchangeStep] at h
      split at h
      · rename_i hpc
        obtain ⟨rfl, rfl⟩ := Prod.mk.inj (Option.some.inj h)
        exact .write hpc
      · exact nomatch h

/-- The server's part of a run is a run of the server. -/
theorem exchange_server_run :
    (exchange cfg rules n cache).Run G as tr s →
    ∃ as', (server cfg rules).Run Machine.Free as' tr s.server := by
  intro hr
  induction hr with
  | start => exact ⟨[], .start⟩
  | @next as tr evs s s' a _ _ hs ih =>
      obtain ⟨as', hr⟩ := ih
      cases exchangeStep_cases hs with
      | server hstep _ => exact ⟨_, hr.next trivial hstep⟩
      | lost | connected | read | logIn | write =>
          rw [List.append_nil]
          exact ⟨as', hr⟩

/-- A client that has ended stays so. -/
theorem ExchangeEffect.ended {result : Except IoError Unit} :
    ExchangeEffect cfg n s a s' evs → s.client = .ended result → s'.client = .ended result := by
  intro h hended
  cases h with
  | server | lost => exact hended
  | connected hpc | logIn hpc | write hpc => exact nomatch hended.symm.trans hpc
  | read hwaiting _ =>
      rw [hended] at hwaiting
      exact nomatch hwaiting

end Exchanges

/-! ## A client that the server knows -/

/-- The certificate of the client, the address it is bound to, and the login
configured for that address. -/
structure Client where
  fingerprint : String
  address : Ipv4Addr
  login : Option (String × String)

/-- The login message of the client. -/
structure Client.Sends (client : Client) (frame : Packet) : Prop where
  pair : ∃ id password, client.login = some (id, password) ∧ 0 ∉ asBytes id ∧
    frame = loginFrame (asBytes id) (asBytes password)

/-- The rules of the server bind the certificate and have the login, the
handshake of session `n` is one with that certificate, and the credentials at
hand are those of the login. -/
structure Matching (client : Client) (n : Nat) (s : Exchange) (a : ExchangeAction) : Prop where
  bound : findBinding s.server.rules client.fingerprint = some client.address
  login : s.server.rules.logins.lookup client.address = client.login
  certificate : ∀ call incoming index newSession x, a = .server (.decrypt (.process call)) →
    s.server.decrypt = .process incoming index newSession →
    s.server.sessions[index]? = some x → x.serial = n → call.fingerprint = .ok client.fingerprint
  credentials : ∀ now id password, a = .logIn now id password →
    ∀ pair, client.login = some pair → ∃ credentials,
      cachedLogin s.cache id password = .ok credentials ∧
      credentials.id = asBytes pair.1 ∧ credentials.password = asBytes pair.2

/-- A packet of the tunnel arrives while the client waits for a login message. -/
def Overtaken (s : Exchange) : ExchangeAction → Prop
  | .read (.record index) _ _ => s.client.deadline?.isSome = true ∧
      ∃ packet, s.toClient[index]? = some packet ∧ (ipv4PacketAddresses packet).isSome = true
  | _ => False

/-- The client was challenged and has no verdict yet. -/
def AuthenticatePc.challenged : AuthenticatePc → Bool
  | .logIn => true
  | .sendLogin _ _ => true
  | .awaitVerdict _ => true
  | _ => false

/-- What the server may have sent to the client. -/
inductive Client.Expects (client : Client) : Packet → Prop
  | accepted : client.Expects AUTH_OK
  | challenge : client.login ≠ none → client.Expects AUTH_REQUIRED
  | tunnel {packet : Packet} : (ipv4PacketAddresses packet).isSome = true → client.Expects packet

section Known

variable {cfg : ServerConfig} {rules : Rules} {n : Nat} {cache : Option LoginCredentials}
  {client : Client} {as : List ExchangeAction} {tr evs : List Event} {s s' : Exchange}
  {a : ExchangeAction}

/-! ### The server's side -/

theorem checkCertificate_binding {call : HandshakeCall} {peer : SockaddrStorage} {c : Certified} :
    checkCertificate cfg rules call peer = some c →
    ∃ f, call.fingerprint = .ok f ∧ findBinding rules f = some c.address := by
  intro h
  unfold checkCertificate at h
  split at h
  · exact nomatch h
  · rename_i f hf
    split at h
    · exact nomatch h
    · rename_i address hfind
      refine ⟨f, hf, ?_⟩
      dsimp only at h
      split at h
      · exact nomatch h
      · split at h
        · exact nomatch h
        · split at h
          · exact nomatch h
          · rw [← Option.some.inj h]
            exact hfind

theorem Matching.answered {action : Action} {c : Certified} :
    Matching client n s (.server action) → Answered cfg s.server n c action →
    c.address = client.address := by
  intro hm ⟨call, incoming, index, newSession, x, ha, hpc, hserial, hcompletes⟩
  obtain ⟨f, hf, hfind⟩ := checkCertificate_binding hcompletes.certificate
  have hclient := hm.certificate call incoming index newSession x (ha ▸ rfl) hpc
    hcompletes.session hserial
  obtain rfl := Except.ok.inj (hf.symm.trans hclient)
  exact Option.some.inj (hfind.symm.trans hm.bound)

/-- The server accepts the login message. -/
theorem Client.Sends.accepted {frame : Packet} :
    client.Sends frame → loginAccepted client.login frame = true := by
  rintro ⟨id, password, hlogin, hzero, rfl⟩
  rw [hlogin]
  exact loginMatches_loginFrame hzero

theorem Client.Sends.ne_keepalive : ¬ client.Sends KEEPALIVE_PACKET := by
  rintro ⟨id, password, -, -, h⟩
  have hhead : (0 : UInt8) = 0xff := congrArg (·.headD 0) h
  exact absurd hhead (by decide)

/-- What holds of the two ends and the records in flight. -/
structure LoginInvariant (client : Client) (n : Nat) (tr : List Event) (s : Exchange) : Prop where
  /-- Session `n` is established for the client only. -/
  address : ∀ e evidence, .established e evidence ∈ accessLog tr → e.serial = n →
    e.address = client.address
  answers : ∀ packet ∈ s.toClient, client.Expects packet
  logins : ∀ packet ∈ s.toServer, client.Sends packet
  /-- One challenge, and none before the handshake is complete or after it was read. -/
  once : s.toClient.count AUTH_REQUIRED ≤ 1
  unanswered : s.server.table.Unanswered n → AUTH_REQUIRED ∉ s.toClient
  challenged : s.client.challenged = true →
    AUTH_REQUIRED ∉ s.toClient ∧ ¬ s.server.table.Unanswered n ∧ client.login ≠ none
  frame : ∀ frame deadline, s.client = .sendLogin frame deadline → client.Sends frame
  tolerant : s.client.Tolerant

/-- Whatever the server queues to the session the client expects. -/
theorem LoginInvariant.expects {action : Action} {server : ServerState} {packet : Packet} :
    LoginInvariant client n tr s → Matching client n s (.server action) →
    Lawful cfg (accessLog tr) s.server.table → step cfg s.server action = some (server, evs) →
    (receivedBy n (accessLog evs)).Subperm s.toServer → packet ∈ queuedTo n evs →
    client.Expects packet := by
  intro hi hm hl hs hsub hqueued
  have hreceived : ∀ frame, .access (.received n frame) ∈ evs → client.Sends frame := by
    intro frame hev
    refine hi.logins frame (hsub.subset ?_)
    exact List.mem_filterMap.mpr ⟨_, mem_accessLog.mpr hev, if_pos rfl⟩
  cases (step_cases hs).queued hqueued with
  | tunnel hpacket => exact .tunnel hpacket
  | keepalive hev => exact absurd (hreceived _ hev) Client.Sends.ne_keepalive
  | @verdict x frame hx hserial hest hev =>
      obtain ⟨e, evidence, hby⟩ := hl.proven.entries _ (entry_mem_table hx) hest
      have hserial' : e.serial = n := hby.serial.trans hserial
      have haddress : x.address = client.address :=
        (show e.address = x.address from hby.address).symm.trans
          (hi.address e evidence hby.mem hserial')
      rw [haddress, hm.login, (hreceived frame hev).accepted]
      exact .accepted
  | @handshake c hanswered =>
      rw [handshakeAnswer, hm.answered hanswered, hm.login]
      cases hlogin : client.login with
      | none => exact .accepted
      | some pair => exact .challenge (by simp [hlogin])

theorem LoginInvariant.server {action : Action} {server : ServerState} :
    LoginInvariant client n tr s → Matching client n s (.server action) →
    Lawful cfg (accessLog tr) s.server.table → step cfg s.server action = some (server, evs) →
    (receivedBy n (accessLog evs)).Subperm s.toServer →
    LoginInvariant client n (tr ++ evs)
      { s with
        server := server
        toClient := s.toClient ++ queuedTo n evs
        toServer := s.toServer.diff (receivedBy n (accessLog evs)) } := by
  intro hi hm hl hs hsub
  have heff := step_cases hs
  -- A challenge is queued to a session that was not answered before only.
  have hnew : ¬ s.server.table.Unanswered n → AUTH_REQUIRED ∉ queuedTo n evs :=
    fun hanswered hmem => hanswered (heff.challenged hl hmem).2.1
  refine ⟨?_, ?_, ?_, ?_, ?_, ?_, hi.frame, hi.tolerant⟩
  · intro e evidence hev hserial
    rw [accessLog_append] at hev
    rcases List.mem_append.mp hev with hev | hev
    · exact hi.address e evidence hev hserial
    · obtain ⟨c, hanswered, haddress⟩ := heff.established_by hl hev
      rw [haddress, hm.answered (hserial ▸ hanswered)]
  · intro packet hpacket
    rcases List.mem_append.mp hpacket with hpacket | hpacket
    · exact hi.answers packet hpacket
    · exact hi.expects hm hl hs hsub hpacket
  · exact fun packet hpacket => hi.logins packet (List.diff_subset _ _ hpacket)
  · rw [List.count_append]
    by_cases hmem : AUTH_REQUIRED ∈ queuedTo n evs
    · obtain ⟨hqueued, hbefore, -⟩ := heff.challenged hl hmem
      rw [hqueued, List.count_eq_zero.mpr (hi.unanswered hbefore)]
      exact Nat.le_refl 1
    · rw [List.count_eq_zero.mpr hmem]
      exact hi.once
  · intro hun hmem
    rcases List.mem_append.mp hmem with hmem | hmem
    · exact hi.unanswered (heff.unanswered hl hun) hmem
    · exact (heff.challenged hl hmem).2.2 hun
  · intro hchallenged
    obtain ⟨hnone, hanswered, hlogin⟩ := hi.challenged hchallenged
    refine ⟨fun hmem => ?_, fun hun => hanswered (heff.unanswered hl hun), hlogin⟩
    exact (List.mem_append.mp hmem).elim hnone (hnew hanswered)

/-! ### The client's side -/

/-- The records a read leaves, and the one it takes. -/
theorem takeRecord_cases {toClient left : List Packet} {source : ClientRead} {read : WolfSsl Packet} :
    takeRecord toClient source = some (read, left) →
    left.Sublist toClient ∧ ∀ packet, read = .value packet → packet ≠ [] →
      ∃ index, source = .record index ∧ toClient[index]? = some packet ∧
        left = toClient.eraseIdx index := by
  intro h
  cases source with
  | record index =>
      obtain ⟨packet, hpacket, heq⟩ := Option.map_eq_some_iff.mp h
      obtain ⟨rfl, rfl⟩ := Prod.mk.inj heq
      refine ⟨List.eraseIdx_sublist _ _, fun p hp _ => ?_⟩
      obtain rfl := WolfSsl.value.inj hp
      exact ⟨index, rfl, hpacket, rfl⟩
  | empty =>
      obtain ⟨rfl, rfl⟩ := Prod.mk.inj (Option.some.inj h)
      exact ⟨List.Sublist.refl _, fun p hp hne => absurd (WolfSsl.value.inj hp).symm hne⟩
  | want | failed =>
      obtain ⟨rfl, rfl⟩ := Prod.mk.inj (Option.some.inj h)
      exact ⟨List.Sublist.refl _, fun p hp _ => nomatch hp⟩

theorem mem_sendRecord {frame packet : Packet} {toServer : List Packet} {outcome : WolfSsl Nat} :
    packet ∈ sendRecord frame toServer outcome → packet ∈ toServer ∨ packet = frame := by
  intro h
  unfold sendRecord at h
  split at h
  · split at h
    · exact (List.mem_append.mp h).imp_right List.mem_singleton.mp
    · exact .inl h
  · exact .inl h
  · exact .inl h

/-- The only challenge is no longer in flight when it has been read. -/
theorem challenge_notMem_eraseIdx {l : List Packet} {index : Nat} :
    l.count AUTH_REQUIRED ≤ 1 → l[index]? = some AUTH_REQUIRED →
    AUTH_REQUIRED ∉ l.eraseIdx index := by
  intro hcount hget
  obtain ⟨hlt, heq⟩ := List.getElem?_eq_some_iff.mp hget
  have hperm := (List.getElem_cons_eraseIdx_perm hlt).symm.count_eq AUTH_REQUIRED
  rw [heq, List.count_cons_self] at hperm
  exact List.count_eq_zero.mp (by omega)

/-- The client keeps the invariant by a step that answers nothing new. -/
theorem LoginInvariant.keep {pc : AuthenticatePc} {toClient toServer : List Packet}
    {cache : Option LoginCredentials} :
    LoginInvariant client n tr s → toClient.Sublist s.toClient →
    (∀ packet ∈ toServer, client.Sends packet) →
    (pc.challenged = true →
      AUTH_REQUIRED ∉ toClient ∧ ¬ s.server.table.Unanswered n ∧ client.login ≠ none) →
    (∀ frame deadline, pc = .sendLogin frame deadline → client.Sends frame) → pc.Tolerant →
    LoginInvariant client n tr
      { server := s.server, client := pc, cache := cache, toClient := toClient
        toServer := toServer } := by
  intro hi hsub hlogins hchallenged hframe htolerant
  exact
    { address := hi.address
      answers := fun packet hpacket => hi.answers packet (hsub.subset hpacket)
      logins := hlogins
      once := (hsub.count_le _).trans hi.once
      unanswered := fun hun hmem => hi.unanswered hun (hsub.subset hmem)
      challenged := hchallenged
      frame := hframe
      tolerant := htolerant }

theorem LoginInvariant.challenged_sublist {toClient : List Packet} :
    LoginInvariant client n tr s → toClient.Sublist s.toClient → s.client.challenged = true →
    AUTH_REQUIRED ∉ toClient ∧ ¬ s.server.table.Unanswered n ∧ client.login ≠ none := by
  intro hi hsub hchallenged
  obtain ⟨hnone, hanswered, hlogin⟩ := hi.challenged hchallenged
  exact ⟨fun hmem => hnone (hsub.subset hmem), hanswered, hlogin⟩

theorem LoginInvariant.read {source : ClientRead} {now : Instant} {wait : PollOutcome}
    {read : WolfSsl Packet} {toClient : List Packet} :
    LoginInvariant client n tr s → ¬ Overtaken s (.read source now wait) →
    s.client.deadline?.isSome = true → takeRecord s.toClient source = some (read, toClient) →
    LoginInvariant client n tr
      { s with client := readTurn now read wait s.client, toClient := toClient } := by
  intro hi hturn hwaiting htake
  obtain ⟨hsub, hrecord⟩ := takeRecord_cases htake
  have hended : ∀ result, (∀ error, result = .error error → error.kind ≠ .permissionDenied) →
      LoginInvariant client n tr
        { s with client := .ended result, toClient := toClient } := by
    intro result hkind
    refine hi.keep hsub hi.logins nofun nofun fun error herror => ?_
    exact AuthenticatePc.tolerant_ended (hkind error (AuthenticatePc.ended.inj herror)) error rfl
  rcases readTurn_cases with heq | ⟨packet, hread, hne, heq⟩ | ⟨error, hkind, heq⟩
  · rw [heq]
    exact hi.keep hsub hi.logins (hi.challenged_sublist hsub) hi.frame hi.tolerant
  · rw [heq]
    obtain ⟨index, rfl, hget, rfl⟩ := hrecord packet hread hne
    cases hi.answers packet (List.mem_of_getElem? hget) with
    | accepted =>
        have hok : s.client.answered (AUTH_OK.take AUTH_RESPONSE_BUFFER) = .ended (.ok ()) := by
          cases hpc : s.client with
          | awaitChallenge | awaitVerdict => rfl
          | connecting | logIn | sendLogin | ended =>
              rw [hpc] at hwaiting
              exact nomatch hwaiting
        rw [hok]
        exact hended _ nofun
    | challenge hlogin =>
        cases hpc : s.client with
        | awaitChallenge deadline =>
            have hnone := challenge_notMem_eraseIdx hi.once hget
            refine hi.keep hsub hi.logins (fun _ => ⟨hnone, fun hun => ?_, hlogin⟩) nofun nofun
            exact hi.unanswered hun (List.mem_of_getElem? hget)
        | awaitVerdict deadline =>
            obtain ⟨hnone, -⟩ := hi.challenged (by rw [hpc]; rfl)
            exact absurd (List.mem_of_getElem? hget) hnone
        | connecting | logIn | sendLogin | ended =>
            rw [hpc] at hwaiting
            exact nomatch hwaiting
    | tunnel hpacket => exact absurd ⟨hwaiting, packet, hget, hpacket⟩ hturn
  · rw [heq]
    refine hended _ fun e he => ?_
    obtain rfl := Except.error.inj he
    exact hkind

theorem ExchangeEffect.loginInvariant :
    ExchangeEffect cfg n s a s' evs → Matching client n s a → ¬ Overtaken s a →
    Lawful cfg (accessLog tr) s.server.table → LoginInvariant client n tr s →
    LoginInvariant client n (tr ++ evs) s' := by
  intro h hm hturn hl hi
  cases h with
  | server hs hsub => exact hi.server hm hl hs hsub
  | lost _ hclient hserver =>
      rw [List.append_nil]
      exact hi.keep hclient (fun packet hpacket => hi.logins packet (hserver.subset hpacket))
        (hi.challenged_sublist hclient) hi.frame hi.tolerant
  | connected _ =>
      rw [List.append_nil]
      exact hi.keep (List.Sublist.refl _) hi.logins nofun nofun nofun
  | read hwaiting htake =>
      rw [List.append_nil]
      exact hi.read hturn hwaiting htake
  | @logIn now id password hpc =>
      rw [List.append_nil]
      have hchallenged := hi.challenged (by rw [hpc]; rfl)
      obtain ⟨pair, hpair⟩ := Option.ne_none_iff_exists'.mp hchallenged.2.2
      obtain ⟨credentials, hok, hid, hpassword⟩ := hm.credentials now id password rfl pair hpair
      rw [hok]
      refine hi.keep (List.Sublist.refl _) hi.logins (fun _ => hchallenged) ?_ nofun
      intro frame deadline heq
      obtain ⟨rfl, -⟩ := AuthenticatePc.sendLogin.inj heq
      exact ⟨pair.1, pair.2, hpair, hid ▸ credentials.nulFree, by rw [hid, hpassword]⟩
  | @write outcome now wait frame deadline hpc =>
      rw [List.append_nil]
      have hsends := hi.frame frame deadline hpc
      have hchallenged := hi.challenged (by rw [hpc]; rfl)
      have hlogins : ∀ packet ∈ sendRecord frame s.toServer outcome, client.Sends packet := by
        intro packet hpacket
        rcases mem_sendRecord hpacket with hpacket | rfl
        · exact hi.logins packet hpacket
        · exact hsends
      rcases writeTurn_cases with ⟨deadline', heq⟩ | heq | ⟨error, hkind, heq⟩ <;> rw [heq]
      · exact hi.keep (List.Sublist.refl _) hlogins (fun _ => hchallenged) nofun nofun
      · refine hi.keep (List.Sublist.refl _) hlogins (fun _ => hchallenged) ?_ nofun
        intro frame' deadline' heq
        obtain ⟨rfl, -⟩ := AuthenticatePc.sendLogin.inj heq
        exact hsends
      · exact hi.keep (List.Sublist.refl _) hlogins nofun nofun
          (AuthenticatePc.tolerant_ended hkind)

/-! ### The whole run -/

/-- A step of the client the server knows, in which no packet comes too early. -/
def InTurn (client : Client) (n : Nat) (s : Exchange) (a : ExchangeAction) : Prop :=
  Matching client n s a ∧ ¬ Overtaken s a

theorem exchange_loginInvariant :
    (exchange cfg rules n cache).Run (InTurn client n) as tr s → LoginInvariant client n tr s := by
  refine Machine.Run.invariant₂
    (fun tr (s : Exchange) => Lawful cfg (accessLog tr) s.server.table)
    (fun tr s => LoginInvariant client n tr s) ?_ ?_ ?_
  · intro as tr s hr
    obtain ⟨as', hr'⟩ := exchange_server_run hr
    exact server_lawful hr'
  · exact
      { address := fun _ _ hev => absurd hev List.not_mem_nil
        answers := fun _ hp => absurd hp List.not_mem_nil
        logins := fun _ hp => absurd hp List.not_mem_nil
        once := Nat.zero_le 1
        unanswered := fun _ => List.not_mem_nil
        challenged := nofun
        frame := nofun
        tolerant := nofun }
  · intro tr s a s' evs hl hi hguard hs
    exact (exchangeStep_cases hs).loginInvariant hguard.1 hguard.2 hl hi

theorem ExchangeEffect.not_tolerant :
    ExchangeEffect cfg n s a s' evs → ¬ s.client.Tolerant → ¬ s'.client.Tolerant := by
  intro h hdenied htolerant
  refine hdenied fun error herror => htolerant error ?_
  exact h.ended herror

/-- A packet that comes too early ends the client. -/
theorem ExchangeEffect.overtaken :
    ExchangeEffect cfg n s a s' evs → Overtaken s a → ¬ s'.client.Tolerant := by
  intro h hover
  cases h with
  | @read source now wait read toClient hwaiting htake =>
      cases source with
      | record index =>
          obtain ⟨-, packet, hget, hpacket⟩ := hover
          obtain ⟨packet', hget', heq⟩ := Option.map_eq_some_iff.mp htake
          obtain rfl := Option.some.inj (hget.symm.trans hget')
          obtain ⟨rfl, -⟩ := Prod.mk.inj heq
          have hne : packet ≠ [] := by
            rintro rfl
            exact nomatch hpacket
          show ¬ (readTurn now (.value packet) wait s.client).Tolerant
          rw [readTurn_value hwaiting hne]
          exact AuthenticatePc.not_tolerant_answered hpacket hwaiting
      | empty | want | failed => exact hover.elim
  | @lost a _ _ hne _ _ =>
      cases a with
      | read source now wait => exact absurd rfl (hne source now wait)
      | server | loseAnswer | loseLogin | connected | logIn | write => exact hover.elim
  | server | connected | logIn | write => exact hover.elim

/-- **The login exchange.**  In every run with a client the server knows, the
client ends with `PermissionDenied` exactly if a packet of the tunnel arrives
while it waits for a login message; otherwise the login succeeds or fails with
an error after which the client connects again. -/
theorem login_tolerant_iff :
    (exchange cfg rules n cache).Run (Matching client n) as tr s →
    (s.client.Tolerant ↔ (exchange cfg rules n cache).Run (InTurn client n) as tr s) := by
  intro hr
  refine ⟨fun htolerant => ?_, fun hr' => (exchange_loginInvariant hr').tolerant⟩
  induction hr with
  | start => exact .start
  | @next as tr evs s s' a _ hm hs ih =>
      have heff := exchangeStep_cases hs
      have hbefore : s.client.Tolerant :=
        Classical.byContradiction fun hdenied => heff.not_tolerant hdenied htolerant
      exact (ih hbefore).next ⟨hm, fun hover => heff.overtaken hover htolerant⟩ hs

end Known

/-! ## A client logs in, and one does not -/

namespace Sample

/-- The client of the small server. -/
def client (login : Option (String × String)) : Client :=
  { fingerprint := fingerprint, address := address, login := login }

/-- A guard that can be computed. -/
def matching (client : Client) (s : Exchange) (a : ExchangeAction) : Bool :=
  findBinding s.server.rules client.fingerprint == some client.address &&
    s.server.rules.logins.lookup client.address == client.login &&
    match a with
    | .server (.decrypt (.process call)) =>
        match call.fingerprint with
        | .ok fingerprint => fingerprint == client.fingerprint
        | .error _ => false
    | .logIn _ id password =>
        match client.login, cachedLogin s.cache id password with
        | some pair, .ok credentials =>
            credentials.id == asBytes pair.1 && credentials.password == asBytes pair.2
        | some _, .error _ => false
        | none, _ => true
    | _ => true

/-- The client completes its handshake, as session 0. -/
def handshakes : List ExchangeAction :=
  ((turn silent 1 false ++ turn silent 1 true).map .server) ++ [.connected 0]

/-- The client is asked for its login, types it and is accepted. -/
def logsIn : List ExchangeAction :=
  handshakes ++
    [.read (.record 0) 0 .ready, .logIn 0 (.ok "alice") (.ok "secret"),
      .write (.value frame.length) 0 .ready,
      .server (.decrypt (.drain (reads 0 frame))), .read (.record 0) 0 .ready]
where
  frame : Packet := loginFrame (asBytes "alice") (asBytes "secret")

/-- A packet from the gateway to the client. -/
def packet : Packet := [0x45, 0, 0, 20, 0, 0, 0, 0, 64, 0, 0, 0, 10, 9, 1, 1, 10, 9, 1, 2]

/-- The server sends `AUTH_OK` and then the packet, which arrives first. -/
def overtakes : List ExchangeAction :=
  handshakes ++
    [.server (.tunReceived packet), .server (.encrypt .take),
      .server (.encrypt (.route fun _ => [⟨.ok (.complete AUTH_OK.length), []⟩,
        ⟨.ok (.complete packet.length), []⟩])),
      .read (.record 1) 0 .ready]

/-- What a run with the client of the small server leads to. -/
def exchanged (login : Option (String × String)) (as : List ExchangeAction) :
    Exchange × List Event :=
  (exchange config (rules login) 0 none).outcome (matching (client login)) as

end Sample

theorem matching_of_sample {client : Client} {n : Nat} {s : Exchange} {a : ExchangeAction} :
    Sample.matching client s a = true → Matching client n s a := by
  intro h
  simp only [Sample.matching, Bool.and_eq_true, beq_iff_eq] at h
  obtain ⟨⟨hbound, hlogin⟩, haction⟩ := h
  refine ⟨hbound, hlogin, ?_, ?_⟩
  · rintro call incoming index newSession x rfl - - -
    dsimp only at haction
    split at haction
    · rename_i fingerprint hf
      rw [hf, beq_iff_eq.mp haction]
    · exact nomatch haction
  · rintro now id password rfl pair hpair
    dsimp only at haction
    rw [hpair] at haction
    cases hc : cachedLogin s.cache id password with
    | error => rw [hc] at haction; exact nomatch haction
    | ok credentials =>
        rw [hc] at haction
        simp only [Bool.and_eq_true, beq_iff_eq] at haction
        exact ⟨credentials, rfl, haction⟩

theorem login_tolerant_iff_logsIn :
    (Sample.exchanged (some ("alice", "secret")) Sample.logsIn).1.client = .ended (.ok ()) ∧
    ((Sample.exchanged (some ("alice", "secret")) Sample.logsIn).1.client.Tolerant ↔
      (exchange Sample.config (Sample.rules (some ("alice", "secret"))) 0 none).Run
        (InTurn (Sample.client (some ("alice", "secret"))) 0) Sample.logsIn
        (Sample.exchanged (some ("alice", "secret")) Sample.logsIn).2
        (Sample.exchanged (some ("alice", "secret")) Sample.logsIn).1) :=
  ⟨by decide +kernel,
    login_tolerant_iff (Machine.run_outcome (fun _ _ => matching_of_sample) (by decide +kernel))⟩

/-- A client whose certificate is bound and that owes no login ends for good,
with the answer it was waiting for still on its way. -/
theorem packet_overtakes_answer :
    ∃ as tr s, (exchange Sample.config (Sample.rules none) 0 none).Run
        (Matching (Sample.client none) 0) as tr s ∧ s.toClient = [AUTH_OK] ∧
      ∃ error, s.client = .ended (.error error) ∧ error.kind = .permissionDenied ∧
        retry error = none := by
  have hr : (exchange Sample.config (Sample.rules none) 0 none).Run
      (Matching (Sample.client none) 0) Sample.overtakes _ _ :=
    Machine.run_outcome (fun _ _ => matching_of_sample) (by decide +kernel)
  refine ⟨_, _, _, hr, by decide +kernel,
    IoError.new .permissionDenied "invalid login challenge", ?_, rfl, rfl⟩
  decide +kernel

end AutobricksVpn
