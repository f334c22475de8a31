/-
# `AutobricksVpn.Server.Invariants` — the session list in every run

What `AutobricksVpn.Server.Refine` proves of the access table, said of the
session list itself: who stands in it (`session_table_invariant`), how many may
be pending, from where (`handshake_admission_bounds`), and how many are
established (`client_capacity`).

`max_clients` bounds the authenticated sessions and the established addresses.
It does not bound the established sessions: a session that owes a login is
established beside the one it is about to replace (`capacity_exceeded`).
-/
import AutobricksVpn.Server.Refine

namespace AutobricksVpn

/-! ## From the table to the list -/

section Lists

variable {cfg : ServerConfig} {rules : Rules} {G : ServerState → Action → Prop} {as : List Action}
  {tr : List Event} {s : ServerState}

theorem entry_mem_table {x : Session} : x ∈ s.sessions → x.entry ∈ s.table.entries :=
  fun hx => mem_tableOf.mpr ⟨x, hx, rfl⟩

theorem mem_accessLog {ev : AccessEvent} : ev ∈ accessLog tr ↔ Event.access ev ∈ tr := by
  constructor
  · intro h
    obtain ⟨e, he, hev⟩ := List.mem_filterMap.mp h
    cases e with
    | access event => rw [← Option.some.inj hev]; exact he
    | queued | tunWrite | connected | dropped | adopted | reloadReply => exact nomatch hev
  · exact fun h => List.mem_filterMap.mpr ⟨_, h, rfl⟩

/-- The evidence of an `established` event is what the worker went by. -/
theorem TableMoves.evidence {kinds : List MoveKind} {t t' : AccessTable} {evs : List AccessEvent} :
    TableMoves cfg rules kinds t t' evs →
    ∀ e evidence, .established e evidence ∈ evs → evidence.rules = rules := by
  intro hm
  induction hm with
  | refl => exact fun _ _ hev => absurd hev List.not_mem_nil
  | head hmove _ ih =>
      intro e evidence hev
      rcases List.mem_append.mp hev with hev | hev
      · obtain ⟨k, -, hmove⟩ := hmove
        cases hmove with
        | establish _ _ _ hrules _ _ _ =>
            obtain ⟨-, rfl⟩ := AccessEvent.established.inj (List.mem_singleton.mp hev)
            exact hrules
        | drop _ => exact absurd hev List.not_mem_nil
        | admission _ _ _ _ => simp at hev
        | read _ _ => simp at hev
        | login _ _ _ _ => simp at hev
      · exact ih e evidence hev

/-- The event was logged, in the course of `tr`, by the action `a` in the state `s`. -/
structure LoggedBy (cfg : ServerConfig) (rules : Rules) (tr : List Event) (ev : Event)
    (s : ServerState) (a : Action) : Prop where
  step : ∃ as₁ tr₁ s₂ evs, (server cfg rules).Run Machine.Free as₁ tr₁ s ∧
    step cfg s a = some (s₂, evs) ∧ ev ∈ evs ∧ tr₁ ++ evs <+: tr

theorem logged_of_run {ev : Event} :
    (server cfg rules).Run G as tr s → ev ∈ tr →
    ∃ s₁ a s₂ evs, LoggedBy cfg rules tr ev s₁ a ∧ Effect cfg s₁ a s₂ evs ∧ ev ∈ evs ∧
      TableMoves cfg s₁.rules a.kinds s₁.table s₂.table (accessLog evs) := by
  intro hr hev
  obtain ⟨as₁, tr₁, s₁, a, s₂, evs, hr₁, hs₁, hmem, -, hsplit⟩ := hr.free.logged ev hev
  have heff := step_cases hs₁
  exact ⟨s₁, a, s₂, evs, ⟨as₁, tr₁, s₂, evs, hr₁, hs₁, hmem, hsplit⟩, heff, hmem,
    heff.moves (server_lawful hr₁)⟩

/-- The session `x` was established, in a step of the run, by a worker whose
rules bind its address to the fingerprint `f`, with the checks passed. -/
structure Session.EstablishedIn (cfg : ServerConfig) (rules : Rules) (tr : List Event)
    (x : Session) (f : String) (e : Entry) (evidence : Evidence) : Prop where
  logged : ∃ s a, LoggedBy cfg rules tr (.access (.established e evidence)) s a ∧
    evidence.rules = s.rules
  entry : e.serial = x.serial ∧ e.peer = x.peer ∧ e.address = x.address ∧ e.fingerprint = some f
  bound : evidence.rules.bindings.lookup x.address = some f
  san : cfg.verifyClientSanIp = true → evidence.sanMatches = .ok true
  source : peerIpv4 x.peer = some evidence.sourceIp ∧ evidence.sourceAllowed = .ok true

theorem establishedIn_of_run {x : Session} :
    (server cfg rules).Run G as tr s → x ∈ s.sessions → x.established = true →
    ∃ f e evidence, x.fingerprint = some f ∧ x.establishedAt.isSome = true ∧
      x.EstablishedIn cfg rules tr f e evidence ∧
      (x.authenticated = true → evidence.rules.logins.lookup x.address = none ∨
        ∃ frame credentials,
          .access (.login x.serial x.address frame credentials true) ∈ tr) := by
  intro hr hx hest
  have hl := server_lawful hr
  obtain ⟨hfingerprint, hestablishedAt⟩ := (hl.staged _ (entry_mem_table hx)).established hest
  obtain ⟨f, hf⟩ := Option.isSome_iff_exists.mp hfingerprint
  obtain ⟨e, evidence, hby⟩ := hl.proven.entries _ (entry_mem_table hx) hest
  have hsupports := hl.proven.supported e evidence hby.mem
  have hev := mem_accessLog.mp hby.mem
  obtain ⟨s₁, a, s₂, evs, hlogged, -, hmem, hmoves⟩ := logged_of_run hr hev
  have hrules : evidence.rules = s₁.rules := hmoves.evidence e evidence (mem_accessLog.mpr hmem)
  have hfp : e.fingerprint = some f := hby.fingerprint.trans hf
  have haddr : e.address = x.address := hby.address
  refine ⟨f, e, evidence, hf, hestablishedAt,
    { logged := ⟨s₁, a, hlogged, hrules⟩
      entry := ⟨hby.serial, hby.peer, haddr, hfp⟩
      bound := ?_, san := hsupports.san, source := ?_ }, fun hauth => ?_⟩
  · obtain ⟨f', hf', hbound⟩ := hsupports.binding
    rw [haddr] at hbound
    rwa [Option.some.inj (hfp.symm.trans hf')]
  · have hpeer : e.peer = x.peer := hby.peer
    rw [← hpeer]
    exact hsupports.source
  · refine (hby.authenticated hauth).imp (fun h => ?_) fun ⟨frame, c, h⟩ => ?_
    · rw [hsupports.login, haddr] at h
      exact Option.isNone_iff_eq_none.mp h
    · exact ⟨frame, c, mem_accessLog.mp h⟩

end Lists

/-! ## A small server -/

namespace Sample

def address : Ipv4Addr := Ipv4Addr.new 10 9 1 2

def fingerprint : String := "aaaaaaaaaaaaaaaaaaaaaaaaaaaaaaaaaaaaaaaaaaaaaaaaaaaaaaaaaaaaaaaa"

/-- A server for one client, in the network 10.9.1.0/24. -/
def config : ServerConfig :=
  { maxClients := 1, maxPendingHandshakes := 16, verifyClientSanIp := true
    allowBroadcast := true, allowMulticast := false
    networkAddress := Ipv4Addr.new 10 9 1 0, networkPrefix := 24
    maxSessionLifetime := Duration.fromSecs 3600, configReloadInterval := Duration.fromSecs 30
    maxClients_pos := by decide, maxPendingHandshakes_pos := by decide }

/-- One client, with the login if one is given. -/
def rules (login : Option (String × String)) : Rules :=
  { bindings := AList.singleton address fingerprint
    logins := match login with
      | some pair => AList.singleton address pair
      | none => ∅ }

def peer (port : UInt16) : SockaddrStorage :=
  { ssFamily := AF_INET, sinPort := port, sinAddr := Ipv4Addr.new 203 0 113 7
    rest := List.replicate 120 0 }

/-- wolfSSL has nothing to read for any session. -/
def silent : Nat → DrainCall := fun _ =>
  { read := ⟨.ok .wantRead, []⟩, tun := [], inject := ⟨.ok true, []⟩ }

/-- The session `serial` reads `packet`, the others nothing. -/
def reads (serial : Nat) (packet : Packet) : Nat → DrainCall := fun n =>
  if n = serial then { silent n with read := ⟨.ok (.complete packet), []⟩ } else silent n

/-- The handshake of the datagram's session goes on, or is complete. -/
def handshake (complete : Bool) : HandshakeCall :=
  { inject := ⟨.ok true, []⟩, handshake := ⟨.ok complete, []⟩, fingerprint := .ok fingerprint
    peerCertificateHasSanIp := fun _ => .ok true
    peerCertificateAllowsSourceIp := fun _ => .ok true
    currentTimeout := Duration.fromSecs 1 }

/-- One turn of the decrypt worker, with a datagram from `port`. -/
def turn (calls : Nat → DrainCall) (port : UInt16) (complete : Bool) : List Action :=
  [.udpReceived ⟨peer port, 16, [22]⟩, .decrypt (.drain calls), .decrypt .deduplicate,
    .decrypt .adoptReload, .decrypt .takeDatagram, .decrypt (.findSession ⟨.ok (), .ok true, .ok ()⟩),
    .decrypt (.process (handshake complete))]

/-- A turn that completes the handshake of another client. -/
def turnAs (fingerprint : String) (calls : Nat → DrainCall) (port : UInt16) : List Action :=
  (turn calls port true).dropLast ++
    [.decrypt (.process { handshake true with fingerprint := .ok fingerprint })]

/-- Two peers start a handshake, then both complete it. -/
def twoPeers : List Action :=
  turn silent 1 false ++ turn silent 2 false ++ turn silent 1 true ++ turn silent 2 true

def address' : Ipv4Addr := Ipv4Addr.new 10 9 1 3

def fingerprint' : String := "bbbbbbbbbbbbbbbbbbbbbbbbbbbbbbbbbbbbbbbbbbbbbbbbbbbbbbbbbbbbbbbb"

/-- Two clients without a login. -/
def twoClients : Rules :=
  { bindings := (AList.singleton address fingerprint).insert address' fingerprint', logins := ∅ }

/-- The server with places for two. -/
def twoPlaces : ServerConfig := { config with maxClients := 2, maxClients_pos := by decide }

/-- Both clients connect, from the ports 1 and 2. -/
def bothConnect : List Action := turn silent 1 true ++ turnAs fingerprint' silent 2

/-- An empty packet from the gateway to `10.9.1.host`. -/
def toHost (host : UInt8) : Packet :=
  [0x45, 0, 0, 20, 0, 0, 0, 0, 64, 0, 0, 0, 10, 9, 1, 1, 10, 9, 1, host]

/-- An empty packet from `10.9.1.host` to the gateway. -/
def fromHost (host : UInt8) : Packet :=
  [0x45, 0, 0, 20, 0, 0, 0, 0, 64, 0, 0, 0, 10, 9, 1, host, 10, 9, 1, 1]

/-- A packet of TUN is handed to the sessions it is meant for. -/
def routed (packet : Packet) : List Action :=
  [.tunReceived packet, .encrypt .take, .encrypt (.route fun _ => [])]

/-- The session `serial` reads `packet`, which TUN takes. -/
def delivers (serial : Nat) (packet : Packet) : Nat → DrainCall := fun n =>
  { reads serial packet n with tun := [{ write := .ok packet.length, libcPoll := .ok () }] }

/-- What a run with two clients leads to. -/
def outcome₂ (as : List Action) : ServerState × List Event :=
  (server twoPlaces twoClients).outcome (fun _ _ => true) as

/-- What a run of the small server leads to. -/
def outcome (login : Option (String × String)) (as : List Action) : ServerState × List Event :=
  (server config (rules login)).outcome (fun _ _ => true) as

end Sample

theorem run_sample {login : Option (String × String)} {as : List Action}
    (h : ((server Sample.config (Sample.rules login)).exec (fun _ _ => true) as).isSome = true) :
    (server Sample.config (Sample.rules login)).Run Machine.Free as (Sample.outcome login as).2
      (Sample.outcome login as).1 :=
  Machine.run_outcome (fun _ _ _ => trivial) h

theorem run_sample₂ {as : List Action}
    (h : ((server Sample.twoPlaces Sample.twoClients).exec (fun _ _ => true) as).isSome = true) :
    (server Sample.twoPlaces Sample.twoClients).Run Machine.Free as (Sample.outcome₂ as).2
      (Sample.outcome₂ as).1 :=
  Machine.run_outcome (fun _ _ _ => trivial) h

/-! ## Who stands in the list -/

/-- The sessions, with the log of the run that led to them. -/
structure SessionTable (cfg : ServerConfig) (rules : Rules) (tr : List Event)
    (sessions : List Session) : Prop where
  peers : sessions.Pairwise fun x y => x.peer ≠ y.peer
  addresses : Uncontested sessions
  authenticated : ∀ x ∈ sessions, x.authenticated = true → x.established = true
  established : ∀ x ∈ sessions, x.established = true →
    ∃ f e evidence, x.fingerprint = some f ∧ x.establishedAt.isSome = true ∧
      x.EstablishedIn cfg rules tr f e evidence

section Table

variable {cfg : ServerConfig} {rules : Rules} {G : ServerState → Action → Prop} {as : List Action}
  {tr : List Event} {s : ServerState}

/-- No two sessions have a peer in common. -/
theorem peers_of_run :
    (server cfg rules).Run G as tr s → s.sessions.Pairwise fun x y => x.peer ≠ y.peer := by
  intro hr
  have hpeers := (server_lawful hr).distinct.peers
  rw [ServerState.table, tableOf, Multiset.map_coe, Multiset.coe_nodup, List.map_map, List.Nodup,
    List.pairwise_map] at hpeers
  exact hpeers

/-- Nor a serial. -/
theorem serials_of_run : (server cfg rules).Run G as tr s → (s.sessions.map (·.serial)).Nodup := by
  intro hr
  have hserials := (server_lawful hr).distinct.serials
  rw [ServerState.table, tableOf, Multiset.map_coe, Multiset.coe_nodup, List.map_map] at hserials
  exact hserials

theorem sessionTable_of_run :
    (server cfg rules).Run G as tr s → s.table.OneForEach →
    SessionTable cfg rules tr s.sessions := by
  intro hr hone
  have hl := server_lawful hr
  refine ⟨peers_of_run hr, ?_, ?_, ?_⟩
  · exact oneForEach_iff.mp hone
  · exact fun x hx => (hl.staged _ (entry_mem_table hx)).authenticated
  · intro x hx hest
    obtain ⟨f, e, evidence, hf, hat, hin, -⟩ := establishedIn_of_run hr hx hest
    exact ⟨f, e, evidence, hf, hat, hin⟩

/-- The actions by which the decrypt worker deals with a datagram. -/
def DecryptAction.handlesDatagram : DecryptAction → Bool
  | .findSession _ => true
  | .process _ => true
  | _ => false

/-- **The session table.**  Whenever the decrypt worker is neither between its
drain pass and its deduplication pass nor stopped, and also after it has dealt
with a datagram: no two sessions have a peer in common, no two authenticated
ones an address, an authenticated session is established, and an established
one has a fingerprint that was bound to its address, and a certificate that
passed its checks, in the step that established it. -/
theorem session_table_invariant :
    (server cfg rules).Run Machine.Free as tr s → s.decrypt ≠ .deduplicate → s.decrypt ≠ .stopped →
    SessionTable cfg rules tr s.sessions ∧
    ∀ a s' evs, a.handlesDatagram = true → step cfg s (.decrypt a) = some (s', evs) →
      SessionTable cfg rules (tr ++ evs) s'.sessions := by
  intro hr hdedup hstopped
  have hone := server_oneForEachOutside hr hdedup hstopped
  refine ⟨sessionTable_of_run hr hone, fun a s' evs ha hs => ?_⟩
  have hl := server_lawful hr
  have hnext : (server cfg rules).Run Machine.Free (as ++ [.decrypt a]) (tr ++ evs) s' :=
    hr.next trivial hs
  refine sessionTable_of_run hnext ?_
  refine ((step_cases hs).moves hl).oneForEach ?_ hl.staged hone
  cases a with
  | findSession | process => simp [Action.kinds]
  | drain | deduplicate | adoptReload | takeDatagram => exact absurd ha Bool.false_ne_true

theorem session_table_invariant_twoPeers :
    SessionTable Sample.config (Sample.rules none) (Sample.outcome none Sample.twoPeers).2
      (Sample.outcome none Sample.twoPeers).1.sessions :=
  (session_table_invariant (run_sample (by decide +kernel)) (by decide +kernel)
    (by decide +kernel)).1

/-! ## Admission -/

/-- **Admission bounds.**  In every state: at most `max_pending_handshakes`
sessions are pending, at most `MAX_PENDING_PER_IP` for one source, and none for
a source that is banned; and the step that may admit a session leaves the
established sessions as they are. -/
theorem handshake_admission_bounds :
    (server cfg rules).Run Machine.Free as tr s →
    s.sessions.countP (!·.established) ≤ cfg.maxPendingHandshakes ∧
    (∀ ip, s.sessions.countP (·.pendingFrom ip) ≤ MAX_PENDING_PER_IP) ∧
    (∀ x ∈ s.sessions, ∀ ip, x.established = false → peerIpv4 x.peer = some ip →
      ∀ now, (s.handshakeLimiter.checkBan ip now).1 = false) ∧
    ∀ call s' evs, step cfg s (.decrypt (.findSession call)) = some (s', evs) →
      (s'.sessions.filter (·.established)).Perm (s.sessions.filter (·.established)) := by
  intro hr
  have hl := server_lawful hr
  refine ⟨?_, fun ip => ?_, ?_, ?_⟩
  · rw [← pendingCount_tableOf s.sessions s.nextSerial]
    exact hl.bounded.pending
  · rw [← pendingFromCount_tableOf s.sessions s.nextSerial]
    exact hl.bounded.perIp ip
  · intro x hx ip hpend hpeer now
    have hfrom : x.entry.pendingFrom ip = true := by
      simp only [Entry.pendingFrom, Session.entry, hpend, hpeer, Bool.not_false, Bool.true_and,
        beq_self_eq_true]
    exact (server_pendingUnbanned hr _ (entry_mem_table hx) ip hfrom).checkBan now
  · intro call s' evs hs
    cases step_cases hs with
    | idle ha => exact Bool.noConfusion ha
    | removed ha => exact Bool.noConfusion ha
    | moved => exact List.Perm.refl _
    | @admission _ datagram _ _ _ _ _ hadmit _ =>
        have heff :=
          admitPeer_effect cfg s.now call datagram s.handshakeLimiter s.sessions s.nextSerial
        rw [← hadmit] at heff
        exact heff.established

namespace Sample

/-- A server with places for three handshakes. -/
def threePending : ServerConfig :=
  { twoPlaces with maxPendingHandshakes := 3, maxPendingHandshakes_pos := by decide }

def source (host : UInt8) : Ipv4Addr := Ipv4Addr.new 203 0 113 host

/-- A datagram from a port of `source host` comes to the lookup. -/
def arrives (host : UInt8) (port : UInt16) : List Action :=
  [.udpReceived ⟨{ peer port with sinAddr := source host }, 16, [22]⟩, .decrypt (.drain silent),
    .decrypt .deduplicate, .decrypt .adoptReload, .decrypt .takeDatagram]

def verified : AdmitCall := ⟨.ok (), .ok true, .ok ()⟩

/-- It is turned away. -/
def turnedAway (host : UInt8) (port : UInt16) : List Action :=
  arrives host port ++ [.decrypt (.findSession verified)]

/-- It begins a handshake, and does not finish it. -/
def begins (host : UInt8) (port : UInt16) : List Action :=
  turnedAway host port ++ [.decrypt (.process (handshake false))]

/-- One client is connected, the first source has two handshakes, a third is refused to it, and
the second source has one. -/
def crowd : List Action :=
  turn silent 1 true ++ begins 1 1 ++ begins 1 2 ++ turnedAway 1 3 ++ begins 2 1

/-- The third source and then the first one take the place of the oldest handshake, and the
first source tries on until it is banned. -/
def flood : List Action :=
  crowd ++ begins 3 1 ++ begins 1 4 ++ (List.replicate 27 (turnedAway 1 5)).flatten

def pending (as : List Action) : ServerState :=
  ((server threePending twoClients).outcome (fun _ _ => true) as).1

end Sample

theorem run_pending (as : List Action)
    (h : ((server Sample.threePending Sample.twoClients).exec (fun _ _ => true) as).isSome = true) :
    ∃ tr, (server Sample.threePending Sample.twoClients).Run Machine.Free as tr
      (Sample.pending as) :=
  ⟨_, Machine.run_outcome (fun _ _ _ => trivial) h⟩

/-- The limits are reached, a handshake makes room for the next one beside the connected
client, and the banned source has none left. -/
theorem handshake_admission_bounds_crowd :
    ((Sample.pending Sample.crowd).sessions.countP (!·.established) ≤
        Sample.threePending.maxPendingHandshakes ∧
      (Sample.pending Sample.crowd).sessions.countP (·.pendingFrom (Sample.source 1)) ≤
        MAX_PENDING_PER_IP) ∧
    (∃ s' evs, step Sample.threePending (Sample.pending (Sample.crowd ++ Sample.arrives 3 1))
        (.decrypt (.findSession Sample.verified)) = some (s', evs) ∧ evs.length = 2 ∧
      (s'.sessions.filter (·.established)).Perm
        ((Sample.pending (Sample.crowd ++ Sample.arrives 3 1)).sessions.filter (·.established))) ∧
    ((Sample.pending Sample.flood).handshakeLimiter.checkBan (Sample.source 1) 0).1 = true ∧
    ∀ x ∈ (Sample.pending Sample.flood).sessions, x.established = false →
      peerIpv4 x.peer ≠ some (Sample.source 1) := by
  obtain ⟨_, hcrowd⟩ := run_pending Sample.crowd (by decide +kernel)
  obtain ⟨_, harrives⟩ := run_pending (Sample.crowd ++ Sample.arrives 3 1) (by decide +kernel)
  obtain ⟨_, hflood⟩ := run_pending Sample.flood (by decide +kernel)
  obtain ⟨hpending, hperIp, -, -⟩ := handshake_admission_bounds hcrowd
  refine ⟨⟨hpending, hperIp _⟩, ?_, ?_⟩
  · have hany : (step Sample.threePending (Sample.pending (Sample.crowd ++ Sample.arrives 3 1))
        (.decrypt (.findSession Sample.verified))).any (fun r => r.2.length = 2) = true := by
      decide +kernel
    obtain ⟨⟨s', evs⟩, hstep, htwo⟩ := (Option.any_eq_true _ _).mp hany
    have hevicted : evs.length = 2 := of_decide_eq_true htwo
    exact ⟨s', evs, hstep, hevicted, (handshake_admission_bounds harrives).2.2.2 _ _ _ hstep⟩
  · have hbanned : ((Sample.pending Sample.flood).handshakeLimiter.checkBan
        (Sample.source 1) 0).1 = true := by decide +kernel
    refine ⟨hbanned, fun x hx hpends hpeer => ?_⟩
    have hunbanned := (handshake_admission_bounds hflood).2.2.1 x hx _ hpends hpeer 0
    exact absurd (hbanned.symm.trans hunbanned) (by decide)

/-! ## Capacity -/

/-- With a login configured, the second peer of a client is established beside
the first, although `max_clients` is 1. -/
theorem capacity_exceeded :
    ∃ as tr s, (server Sample.config (Sample.rules (some ("alice", "secret")))).Run Machine.Free as tr s ∧
      s.decrypt = .drain ∧ Sample.config.maxClients < s.sessions.countP (·.established) :=
  ⟨Sample.twoPeers, _, _, run_sample (by decide +kernel), by decide +kernel, by decide +kernel⟩

/-- **Capacity.**  The addresses with an established session number at most
`max_clients`, and so do the authenticated sessions once duplicates are gone.
The sessions of the list number at most
`max_clients + max_pending_handshakes - 1`. -/
theorem client_capacity :
    (server cfg rules).Run Machine.Free as tr s →
    ((s.sessions.filter (·.established)).map (·.address)).toFinset.card ≤ cfg.maxClients ∧
    (s.decrypt ≠ .deduplicate → s.decrypt ≠ .stopped →
      s.sessions.countP (·.authenticated) ≤ cfg.maxClients) ∧
    s.sessions.length ≤ cfg.maxClients + cfg.maxPendingHandshakes - 1 := by
  intro hr
  have hl := server_lawful hr
  have hmem : ∀ a, a ∈ s.table.establishedAddresses ↔
      a ∈ ((s.sessions.filter (·.established)).map (·.address)).toFinset := by
    intro a
    rw [AccessTable.mem_establishedAddresses, List.mem_toFinset, List.mem_map]
    constructor
    · rintro ⟨e, he, hest, rfl⟩
      obtain ⟨x, hx, rfl⟩ := mem_tableOf.mp he
      exact ⟨x, List.mem_filter.mpr ⟨hx, hest⟩, rfl⟩
    · rintro ⟨x, hx, rfl⟩
      obtain ⟨hx, hest⟩ := List.mem_filter.mp hx
      exact ⟨x.entry, entry_mem_table hx, hest, rfl⟩
  have haddresses : ((s.sessions.filter (·.established)).map (·.address)).toFinset.card ≤
      cfg.maxClients := by
    rw [← Finset.ext hmem]
    exact hl.bounded.addresses
  refine ⟨haddresses, fun hdedup hstopped => ?_, ?_⟩
  · -- Authenticated sessions have different addresses, and these are established.
    have hpair := (sessionTable_of_run hr (server_oneForEachOutside hr hdedup hstopped)).addresses
    have hnodup : ((s.sessions.filter (·.authenticated)).map (·.address)).Nodup := by
      rw [List.Nodup, List.pairwise_map, List.pairwise_filter]
      exact hpair
    calc s.sessions.countP (·.authenticated)
        = ((s.sessions.filter (·.authenticated)).map (·.address)).length := by
          rw [List.length_map, List.countP_eq_length_filter]
      _ = ((s.sessions.filter (·.authenticated)).map (·.address)).toFinset.card :=
          (List.toFinset_card_of_nodup hnodup).symm
      _ ≤ ((s.sessions.filter (·.established)).map (·.address)).toFinset.card := by
          refine Finset.card_le_card fun a ha => ?_
          rw [List.mem_toFinset, List.mem_map] at ha ⊢
          obtain ⟨x, hx, rfl⟩ := ha
          obtain ⟨hx, hauth⟩ := List.mem_filter.mp hx
          have hest := (hl.staged _ (entry_mem_table hx)).authenticated hauth
          exact ⟨x, List.mem_filter.mpr ⟨hx, hest⟩, rfl⟩
      _ ≤ cfg.maxClients := haddresses
  · have htotal := hl.bounded.total
    rwa [ServerState.table, tableOf, Multiset.coe_card, List.length_map] at htotal

theorem client_capacity_twoPeers :
    (Sample.outcome none Sample.twoPeers).1.sessions.countP (·.authenticated) ≤
      Sample.config.maxClients :=
  (client_capacity (run_sample (by decide +kernel))).2.1 (by decide +kernel) (by decide +kernel)

end Table

end AutobricksVpn
