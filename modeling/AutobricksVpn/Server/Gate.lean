/-
# `AutobricksVpn.Server.Gate` — what passes, and from whom

The gate between the clients and the TUN device: a packet goes to TUN only from
an authenticated session that is its source, a packet of TUN goes to
authenticated sessions only, and a session is authenticated only because no
login was configured for its address when its handshake completed, or because
its first message was the configured login.

The first two are read off the steps that log such events (`Effect.traffic`);
the third is the history of the access table (`AutobricksVpn.Access.History`).
-/
import AutobricksVpn.Server.Answers
import AutobricksVpn.Server.Invariants

namespace AutobricksVpn

/-! ## Which steps carry traffic -/

/-- A packet written to TUN, or one of TUN that is queued. -/
def Event.carriesTraffic : Event → Bool
  | .tunWrite _ _ => true
  | .queued _ _ .tunnel => true
  | _ => false

section Traffic

variable {cfg : ServerConfig} {rules : Rules} {now : Instant}

theorem Event.traffic_of_quiet {ev : Event} : ev.quiet = true → ev.carriesTraffic = false := by
  intro h
  cases ev with
  | queued | tunWrite => exact nomatch h
  | access | connected | dropped | adopted | reloadReply => rfl

theorem authenticated_of_entry {x y : Session} (h : y.entry = x.entry) :
    y.authenticated = x.authenticated := congrArg Entry.authenticated h

/-- What is written to TUN while `x` is drained was sent by `x`, which is
authenticated, from its own address to a permitted destination. -/
def Passes (cfg : ServerConfig) (x : Session) (ev : Event) : Prop :=
  x.established = true ∧ x.authenticated = true ∧ ∃ y packet destination,
    ev = .tunWrite y packet ∧ y.entry = x.entry ∧
    ipv4PacketAddresses packet = some (x.address, destination) ∧
    destinationAllowed cfg destination = true

/-- An event that carries traffic is a packet queued to an authenticated
session, or a packet written to TUN in a drain pass. -/
theorem Effect.traffic {s s' : ServerState} {a : Action} {evs : List Event} :
    Effect cfg s a s' evs → ∀ ev ∈ evs, ev.carriesTraffic = true →
      (∃ x ∈ s.sessions, x.authenticated = true ∧ ∃ packet, ev = .queued x packet .tunnel) ∨
      ∃ x ∈ s.sessions, Passes cfg x ev := by
  intro h ev hev ht
  have hquiet : (∀ e ∈ evs, e.quiet = true) → False := fun hq =>
    Bool.false_ne_true ((Event.traffic_of_quiet (hq ev hev)).symm.trans ht)
  cases h with
  | idle _ _ _ hidle =>
      obtain ⟨stream, ok, rfl⟩ | ⟨x, hx, hauth, packet, -, heq⟩ := hidle ev hev
      · exact nomatch ht
      · exact .inl ⟨x, hx, hauth, packet, heq⟩
  | removed _ _ _ hshrinks _ =>
      obtain ⟨removed, hr⟩ := hshrinks.dropped
      have hr : evs = dropAll removed := hr
      exact (hquiet (hr ▸ dropAll_quiet)).elim
  | purged _ _ => exact (hquiet dropAll_quiet).elim
  | sent _ _ _ _ _ _ _ _ => exact absurd hev List.not_mem_nil
  | moved _ _ _ _ => exact absurd hev List.not_mem_nil
  | drained _ _ =>
      obtain ⟨x, hx, hev, -⟩ := drainSessions_events _ _ ev hev
      cases drainSession_events ev hev with
      | access | connected | keepalive | verdict => exact nomatch ht
      | tunWrite hest hauth hentry haddresses hallowed =>
          exact .inr ⟨x, hx, hest, hauth, _, _, _, rfl, hentry, haddresses, hallowed⟩
  | deduplicated _ => exact (hquiet dropAll_quiet).elim
  | adopted _ _ =>
      rw [List.mem_singleton.mp hev] at ht
      exact nomatch ht
  | @admission call datagram _ _ _ _ _ hadmit _ =>
      have heff := admitPeer_effect cfg s.now call datagram s.handshakeLimiter s.sessions s.nextSerial
      rw [← hadmit] at heff
      exact (hquiet heff.quiet).elim
  | processed _ hr =>
      rw [hr] at hev hquiet
      obtain hall | ⟨x, c, y, rest, -, -, hrest, hevents⟩ := processDatagram_events
      · exact (hquiet hall).elim
      · rw [hevents] at hev
        rcases List.mem_cons.mp hev with rfl | hev
        · exact nomatch ht
        · rw [Event.traffic_of_quiet (hrest ev hev)] at ht
          exact nomatch ht

theorem mem_modify {α : Type} {f : α → α} {l : List α} {i : Nat} {y : α} :
    y ∈ l.modify i f → y ∈ l ∨ ∃ x, l[i]? = some x ∧ y = f x := by
  intro h
  obtain ⟨j, hj⟩ := List.mem_iff_getElem?.mp h
  rw [List.getElem?_modify] at hj
  obtain ⟨x, hx, rfl⟩ := Option.map_eq_some_iff.mp hj
  by_cases hij : i = j
  · subst hij
    exact .inr ⟨x, hx, if_pos rfl⟩
  · rw [if_neg hij]
    exact .inl (List.mem_of_getElem? hx)

/-- A session that is not authenticated gets nothing from the encrypt worker. -/
theorem routePacket_unauthenticated {calls : Nat → List WriteCall} {packet : Packet}
    {sessions : List Session} :
    ∀ y ∈ (routePacket cfg now calls packet sessions).1, y.authenticated = false →
      ∃ x ∈ sessions, y = x ∨ y = x.drainPlain now (calls x.serial) := by
  intro y hy hauth
  unfold routePacket at hy
  split at hy
  · exact ⟨y, hy, .inl rfl⟩
  · dsimp only at hy
    split at hy
    · obtain ⟨z, hz, rfl⟩ := List.mem_map.mp hy
      obtain ⟨x, hx, rfl⟩ := List.mem_map.mp hz
      rw [authenticated_of_entry (entry_drainPlain ..)] at hauth
      cases hx' : x.authenticated with
      | true =>
          rw [if_pos hx'] at hauth
          exact nomatch hx'.symm.trans hauth
      | false =>
          rw [if_neg (by simp)]
          exact ⟨x, hx, .inr rfl⟩
    · split at hy
      · split at hy
        · rename_i index hidx
          rcases mem_modify hy with hy | ⟨x, hx, rfl⟩
          · exact ⟨y, hy, .inl rfl⟩
          · -- The receiver of a unicast packet is authenticated.
            obtain ⟨x', hx', hp⟩ := Vec.lastMaxIdx_some hidx
            obtain rfl := Option.some.inj (hx'.symm.trans hx)
            rw [authenticated_of_entry (entry_drainPlain ..)] at hauth
            rw [Bool.and_eq_true] at hp
            exact nomatch hp.1.symm.trans hauth
        · exact ⟨y, hy, .inl rfl⟩
      · exact ⟨y, hy, .inl rfl⟩

end Traffic

/-! ## The gate -/

/-- A login was judged, in a step of the run, by the pair configured for the
address in the rules the worker had then. -/
def JudgedIn (cfg : ServerConfig) (rules : Rules) (tr : List Event) (x : Session) (frame : Packet)
    (credentials : Option (String × String)) (accepted : Bool) : Prop :=
  ∃ s a, LoggedBy cfg rules tr (.access (.login x.serial x.address frame credentials accepted)) s a ∧
    credentials = s.rules.logins.lookup x.address

/-- The gate, for a run that logged `tr` and stands in `s`. -/
structure Gate (cfg : ServerConfig) (rules : Rules) (tr : List Event) (s : ServerState) : Prop where
  /-- A packet is written to TUN only from an authenticated session of the list,
  from its address to a permitted destination. -/
  tunWrite : ∀ y packet, .tunWrite y packet ∈ tr →
    ∃ s₁ a, LoggedBy cfg rules tr (.tunWrite y packet) s₁ a ∧
      ∃ x ∈ s₁.sessions, x.entry = y.entry ∧ x.established = true ∧ x.authenticated = true ∧
        ∃ destination, ipv4PacketAddresses packet = some (x.address, destination) ∧
          destinationAllowed cfg destination = true
  /-- A packet of TUN is queued to authenticated sessions of the list. -/
  queued : ∀ x packet, .queued x packet .tunnel ∈ tr →
    ∃ s₁ a, LoggedBy cfg rules tr (.queued x packet .tunnel) s₁ a ∧
      x ∈ s₁.sessions ∧ x.authenticated = true
  /-- The other sessions are at most flushed when a packet of TUN is routed. -/
  unauthenticated : ∀ calls s' evs, step cfg s (.encrypt (.route calls)) = some (s', evs) →
    ∀ y ∈ s'.sessions, y.authenticated = false →
      ∃ x ∈ s.sessions, y = x ∨ y = x.drainPlain s.now (calls x.serial)
  /-- An authenticated session owed no login when it was established, or its
  first message was the configured login. -/
  authenticated : ∀ x ∈ s.sessions, x.authenticated = true →
    ∃ f e evidence, x.EstablishedIn cfg rules tr f e evidence ∧
      (evidence.rules.logins.lookup x.address = none ∨
        ∃ id password, JudgedIn cfg rules tr x
            (AUTH_LOGIN_PREFIX ++ asBytes id ++ 0 :: asBytes password) (some (id, password)) true ∧
          (receivedBy x.serial (accessLog tr)).head? =
            some (AUTH_LOGIN_PREFIX ++ asBytes id ++ 0 :: asBytes password))
  /-- At most one login is judged for a session. -/
  once : ∀ serial, (loginsOf serial (accessLog tr)).length ≤ 1

section Gate

variable {cfg : ServerConfig} {rules : Rules} {as : List Action} {tr : List Event} {s : ServerState}

/-- The pair of a `login` event is the configured one. -/
theorem TableMoves.credentials {kinds : List MoveKind} {t t' : AccessTable}
    {evs : List AccessEvent} :
    TableMoves cfg rules kinds t t' evs →
    ∀ n a frame c ok, .login n a frame c ok ∈ evs → c = rules.logins.lookup a := by
  intro hm
  induction hm with
  | refl => exact fun _ _ _ _ _ hev => absurd hev List.not_mem_nil
  | head hmove _ ih =>
      intro n a frame c ok hev
      rcases List.mem_append.mp hev with hev | hev
      · obtain ⟨k, -, hmove⟩ := hmove
        cases hmove with
        | login _ _ _ _ =>
            rcases List.mem_pair.mp hev with hev | hev
            · exact nomatch hev
            · obtain ⟨-, rfl, -, rfl, -⟩ := AccessEvent.login.inj hev
              rfl
        | drop _ => exact absurd hev List.not_mem_nil
        | admission _ _ _ _ => simp at hev
        | establish _ _ _ _ _ _ _ => simp at hev
        | read _ _ => simp at hev
      · exact ih n a frame c ok hev

/-- An accepted login is the frame of the configured pair. -/
theorem loginAccepted_eq {credentials : Option (String × String)} {frame : Packet} :
    loginAccepted credentials frame = true →
    ∃ id password, credentials = some (id, password) ∧
      frame = AUTH_LOGIN_PREFIX ++ asBytes id ++ 0 :: asBytes password := by
  intro h
  rw [loginAccepted, Option.any_eq_true] at h
  obtain ⟨⟨id, password⟩, rfl, hmatch⟩ := h
  exact ⟨id, password, rfl, eq_loginFrame_of_loginMatches hmatch⟩

theorem judged_of_run {x : Session} {frame : Packet} {credentials : Option (String × String)} :
    (server cfg rules).Run Machine.Free as tr s →
    .access (.login x.serial x.address frame credentials true) ∈ tr →
    ∃ id password, JudgedIn cfg rules tr x
        (AUTH_LOGIN_PREFIX ++ asBytes id ++ 0 :: asBytes password) (some (id, password)) true ∧
      (receivedBy x.serial (accessLog tr)).head? =
        some (AUTH_LOGIN_PREFIX ++ asBytes id ++ 0 :: asBytes password) := by
  intro hr hev
  obtain ⟨hfirst, hok⟩ := (server_lawful hr).loginOnce.first _ _ _ _ _ (mem_accessLog.mpr hev)
  obtain ⟨id, password, rfl, rfl⟩ := loginAccepted_eq hok.symm
  obtain ⟨s₁, a, s₂, evs, hlogged, -, hmem, hmoves⟩ := logged_of_run hr hev
  have hc := hmoves.credentials _ _ _ _ _ (mem_accessLog.mpr hmem)
  exact ⟨id, password, ⟨s₁, a, hlogged, hc⟩, hfirst⟩

/-- **The authentication gate**, in every run. -/
theorem authentication_gate :
    (server cfg rules).Run Machine.Free as tr s → Gate cfg rules tr s := by
  intro hr
  have hl := server_lawful hr
  refine ⟨fun y packet hev => ?_, fun x packet hev => ?_, fun calls s' evs hs => ?_,
    fun x hx hauth => ?_, hl.loginOnce.once⟩
  · obtain ⟨s₁, a, s₂, evs, hlogged, heff, hmem, -⟩ := logged_of_run hr hev
    obtain ⟨x, -, -, p, heq⟩ | ⟨x, hx, hest, hauth, z, p, destination, heq, hentry, haddr, hok⟩ :=
      heff.traffic _ hmem rfl
    · cases heq
    · obtain ⟨rfl, rfl⟩ := Event.tunWrite.inj heq
      exact ⟨s₁, a, hlogged, x, hx, hentry.symm, hest, hauth, destination, haddr, hok⟩
  · obtain ⟨s₁, a, s₂, evs, hlogged, heff, hmem, -⟩ := logged_of_run hr hev
    obtain ⟨y, hy, hauth, p, heq⟩ | ⟨y, -, -, -, z, p, d, heq, -⟩ := heff.traffic _ hmem rfl
    · obtain ⟨rfl, -, -⟩ := Event.queued.inj heq
      exact ⟨s₁, a, hlogged, hy, hauth⟩
    · cases heq
  · simp only [step, encryptStep] at hs
    split at hs
    · obtain ⟨rfl, rfl⟩ := Prod.mk.inj (Option.some.inj hs)
      exact routePacket_unauthenticated
    · cases hs
  · have hest := (hl.staged _ (entry_mem_table hx)).authenticated hauth
    obtain ⟨f, e, evidence, -, -, hin, hby⟩ := establishedIn_of_run hr hx hest
    refine ⟨f, e, evidence, hin, (hby hauth).imp_right ?_⟩
    rintro ⟨frame, credentials, hlogin⟩
    exact judged_of_run hr hlogin

/-- A client completes its handshake and logs in. -/
def Sample.login : List Action :=
  turn silent 1 false ++ turn silent 1 true ++
    [.decrypt (.drain (reads 0 (AUTH_LOGIN_PREFIX ++ asBytes "alice" ++ 0 :: asBytes "secret")))]

theorem authentication_gate_login :
    Gate Sample.config (Sample.rules (some ("alice", "secret")))
      (Sample.outcome (some ("alice", "secret")) Sample.login).2
      (Sample.outcome (some ("alice", "secret")) Sample.login).1 ∧
    (Sample.outcome (some ("alice", "secret")) Sample.login).1.sessions.countP (·.authenticated) = 1 :=
  ⟨authentication_gate (run_sample (by decide +kernel)), by decide +kernel⟩

end Gate

end AutobricksVpn
