/-
# `AutobricksVpn.Server.Life` — the life of one session

The sessions as a multiset of accounts, and the ways it changes: one session
takes a step of its own (`Change`), leaves (`Leave`), or is made.  Every action
of the server is a sequence of such shifts (`step_shifts`), and a shift touches
one session only:

    observations of a step  =  observations of its shifts, in order

So what a session keeps through its own steps holds of it in every run, and
what it leaves behind holds of its history ever after (`Shift.living`; for runs,
`Run.living` of `AutobricksVpn.Server.Shifts`).  What is proved of the messages,
the counters and the connection events of a session are instances, each a case
analysis of `Change` and `Leave`.
-/
import AutobricksVpn.Server.Account
import AutobricksVpn.Server.Answers

namespace AutobricksVpn

/-! ## Steps of one session -/

/-- The packet may be put on the queue of a client with this address. -/
def Routable (cfg : ServerConfig) (packet : Packet) (address : Ipv4Addr) : Prop :=
  ∃ destination, ipv4Destination packet = some destination ∧
    ((ipv4IsBroadcast destination cfg.networkAddress cfg.networkPrefix && cfg.allowBroadcast ||
        destination.isMulticast && cfg.allowMulticast) = true ∨
      ipv4IsBroadcast destination cfg.networkAddress cfg.networkPrefix = false ∧
        destination.isMulticast = false ∧ destination = address)

/-- One step of a session that stays, under the rules of the decrypt worker. -/
inductive Change (cfg : ServerConfig) (rules : Rules) (now : Instant) :
    Account → Account → List Observation → Prop
  | wrote {α : Account} {packets : List Packet} {queue : Queue (Packet × Instant)} :
      queue.items.Sublist α.rawTxQueue.items →
      (∀ packet ∈ packets, ∃ t, (packet, t) ∈ α.rawTxQueue.items) →
      Change cfg rules now α (α.writes now packets queue) (packets.map (.written α.entry.serial))
  | routed {α : Account} {x : Session} {packet : Packet} :
      x.entry = α.entry → α.entry.authenticated = true → Routable cfg packet α.entry.address →
      Change cfg rules now α (α.queues now packet) [.logged (.queued x packet .tunnel)]
  | read {α : Account} {packet : Packet} :
      α.entry.authenticated = true ∨ α.entry.loginAttempted = true →
      Change cfg rules now α α [.logged (.access (.received α.entry.serial packet))]
  | keepalive {α : Account} {x : Session} :
      x.entry = α.entry → α.entry.authenticated = true →
      Change cfg rules now α ((α.hears now).queues now KEEPALIVE_PACKET)
        [.logged (.access (.received α.entry.serial KEEPALIVE_PACKET)),
          .logged (.queued x KEEPALIVE_PACKET .keepalive)]
  | delivered {α : Account} {x : Session} {packet : Packet} :
      x.entry = α.entry → α.entry.authenticated = true →
      (ipv4PacketAddresses packet).isSome = true →
      Change cfg rules now α ((α.counts packet).hears now)
        [.logged (.access (.received α.entry.serial packet)), .logged (.tunWrite x packet),
          .delivered α.entry.serial packet]
  /-- The packet is counted, and TUN does not take it. -/
  | undelivered {α : Account} {x : Session} {packet : Packet} :
      x.entry = α.entry → α.entry.authenticated = true →
      (ipv4PacketAddresses packet).isSome = true →
      Change cfg rules now α (α.counts packet)
        [.logged (.access (.received α.entry.serial packet)), .logged (.tunWrite x packet)]
  | loggedIn {α : Account} {x : Session} {frame : Packet}
      {credentials : Option (String × String)} :
      α.entry.established = true → α.entry.authenticated = false →
      α.entry.loginAttempted = false → x.entry = α.entry.logIn true →
      Change cfg rules now α
        (({ α with entry := α.entry.logIn true }.hears now).queues now AUTH_OK)
        [.logged (.access (.received α.entry.serial frame)),
          .logged (.access (.login α.entry.serial α.entry.address frame credentials true)),
          .logged (.queued x AUTH_OK .auth), .logged (.connected x)]
  | loginRejected {α : Account} {x : Session} {frame : Packet}
      {credentials : Option (String × String)} :
      α.entry.established = true → α.entry.authenticated = false →
      α.entry.loginAttempted = false → x.entry = α.entry.logIn false →
      Change cfg rules now α ({ α with entry := α.entry.logIn false }.queues now AUTH_FAILED)
        [.logged (.access (.received α.entry.serial frame)),
          .logged (.access (.login α.entry.serial α.entry.address frame credentials false)),
          .logged (.queued x AUTH_FAILED .auth)]
  | established {α : Account} {x y : Session} {c : Certified} :
      α.entry.established = false →
      x.entry = α.entry.establish c.address c.fingerprint
        (rules.logins.lookup c.address).isNone now →
      y.entry = x.entry →
      Change cfg rules now α
        ({ α with entry := x.entry }.queues now (handshakeAnswer rules c.address))
        (.logged (.queued x (handshakeAnswer rules c.address) .auth) ::
          .logged (.access (.established x.entry c.evidence)) ::
          if x.entry.authenticated then [.logged (.connected y)] else [])

/-- The datagram is taken and completes the handshake with a certificate that
is accepted, the table was full before, and nobody is there to be replaced. -/
structure Refused (cfg : ServerConfig) (s : ServerState) (a : Action) (c : Certified) : Prop where
  processed : ∃ call incoming index newSession x, a = .decrypt (.process call) ∧
    s.decrypt = .process incoming index newSession ∧
    (newSession = true ∨ (injectIncoming s.now call.inject incoming x).2 = true) ∧
    Completes cfg s.rules call s.sessions index x c ∧ call.handshake.result = .ok true ∧
    ∀ y ∈ s.sessions, y.established = true → y.address = c.address → y.peer = x.peer
  full : cfg.maxClients ≤ s.sessions.countP (·.established)

/-- The last step of a session. -/
inductive Leave (cfg : ServerConfig) (s : ServerState) (a : Action) :
    Account → List Observation → Prop
  | dropped {x : Session} : Leave cfg s a x.account [.logged (.dropped x)]
  | refused {α : Account} {x y : Session} {c : Certified} :
      Refused cfg s a c → α.entry.established = false →
      x.entry = α.entry.establish c.address c.fingerprint
        (s.rules.logins.lookup c.address).isNone s.now →
      y.account = { α with entry := x.entry }.queues s.now (handshakeAnswer s.rules c.address) →
      Leave cfg s a α
        [.logged (.queued x (handshakeAnswer s.rules c.address) .auth), .logged (.dropped y)]

structure Roll where
  accounts : Multiset Account
  nextSerial : Nat

def accountsOf (sessions : List Session) : Multiset Account :=
  (sessions.map Session.account : List Account)

def ServerState.roll (s : ServerState) : Roll := ⟨accountsOf s.sessions, s.nextSerial⟩

inductive Shift (cfg : ServerConfig) (s : ServerState) (a : Action) :
    Roll → Roll → List Observation → Prop
  | change {α α' : Account} {rest : Multiset Account} {n : Nat} {log : List Observation} :
      Change cfg s.rules s.now α α' log → Shift cfg s a ⟨α ::ₘ rest, n⟩ ⟨α' ::ₘ rest, n⟩ log
  | leave {α : Account} {rest : Multiset Account} {n : Nat} {log : List Observation} :
      Leave cfg s a α log → Shift cfg s a ⟨α ::ₘ rest, n⟩ ⟨rest, n⟩ log
  | create {rest : Multiset Account} {n peerSize : Nat} {peer : SockaddrStorage} :
      Shift cfg s a ⟨rest, n⟩ ⟨(Session.create n peer peerSize s.now).account ::ₘ rest, n + 1⟩
        [.logged (.access (.created n))]
  /-- Something that is about no session. -/
  | aside {r : Roll} {log : List Observation} :
      (∀ o ∈ log, o.serial? = none) → Shift cfg s a r r log

abbrev Shifts (cfg : ServerConfig) (s : ServerState) (a : Action) :
    Roll → Roll → List Observation → Prop :=
  Machine.Moves (Shift cfg s a)

/-! ## What holds through a life -/

section Rule

variable {cfg : ServerConfig} {rules : Rules} {s : ServerState} {a : Action} {now : Instant}
  {α α' : Account} {log : List Observation} {r r' : Roll}

theorem Change.about :
    Change cfg rules now α α' log →
    α'.entry.serial = α.entry.serial ∧ ∀ o ∈ log, o.serial? = some α.entry.serial := by
  intro h
  have hserial : ∀ {x : Session} {e : Entry}, x.entry = e → x.serial = e.serial :=
    fun heq => congrArg Entry.serial heq
  cases h with
  | wrote _ _ =>
      refine ⟨rfl, fun o ho => ?_⟩
      obtain ⟨packet, -, rfl⟩ := List.mem_map.mp ho
      rfl
  | routed hx _ _ => simp [Account.queues, Observation.serial?, Event.serial?, hserial hx]
  | read _ => simp [Observation.serial?, Event.serial?]
  | keepalive hx _ =>
      simp [Account.queues, Account.hears, Observation.serial?, Event.serial?, hserial hx]
  | delivered hx _ _ =>
      simp [Account.counts, Account.hears, Observation.serial?, Event.serial?, hserial hx]
  | undelivered hx _ _ => simp [Account.counts, Observation.serial?, Event.serial?, hserial hx]
  | loggedIn _ _ _ hx =>
      have hx := hserial hx
      simp [Account.queues, Account.hears, Observation.serial?, Event.serial?, Entry.logIn, hx]
  | loginRejected _ _ _ hx =>
      have hx := hserial hx
      simp [Account.queues, Observation.serial?, Event.serial?, Entry.logIn, hx]
  | @established x y c _ hx hy =>
      have hxs : x.entry.serial = α.entry.serial := by rw [hx]; rfl
      have hys : y.serial = α.entry.serial := (hserial hy).trans hxs
      refine ⟨hxs, fun o ho => ?_⟩
      simp only [List.mem_cons] at ho
      rcases ho with rfl | rfl | ho
      · exact congrArg some hxs
      · exact congrArg some hxs
      · split at ho
        · rw [List.mem_singleton.mp ho]
          exact congrArg some hys
        · exact absurd ho List.not_mem_nil

/-- A session that takes a step of its own is not dropped by it. -/
theorem Change.not_dropped : Change cfg rules now α α' log → ∀ x, .logged (.dropped x) ∉ log := by
  intro h x
  cases h with
  | @wrote packets _ _ _ =>
      intro hx
      obtain ⟨packet, -, heq⟩ := List.mem_map.mp hx
      cases heq
  | @established y _ _ _ _ _ => cases y.entry.authenticated <;> simp
  | routed _ _ _ | read _ | keepalive _ _ | delivered _ _ _ | undelivered _ _ _ => simp
  | loggedIn _ _ _ _ | loginRejected _ _ _ _ => simp

theorem Leave.about : Leave cfg s a α log → ∀ o ∈ log, o.serial? = some α.entry.serial := by
  intro h o ho
  cases h with
  | dropped =>
      rw [List.mem_singleton.mp ho]
      rfl
  | @refused _ x y c _ _ hx hy =>
      have hxs : x.entry.serial = α.entry.serial := by rw [hx]; rfl
      have hys : y.entry.serial = α.entry.serial :=
        (congrArg (fun β : Account => β.entry.serial) hy).trans hxs
      rcases List.mem_pair.mp ho with rfl | rfl
      · exact congrArg some hxs
      · exact congrArg some hys

theorem life_append_other {n m : Nat} {tr : List Observation} :
    (∀ o ∈ log, o.serial? = some m) → n ≠ m → life n (tr ++ log) = life n tr := by
  intro h hne
  rw [life_append, life_of_other h (by simpa using hne.symm), List.append_nil]

/-- What is carried through the shifts of a run: `P` of the sessions that are
there, with their history, and `Q` of the history of every other. -/
structure Living (P : List Observation → Account → Prop) (Q : List Observation → Prop)
    (log : List Observation) (r : Roll) : Prop where
  serials : (r.accounts.map (·.entry.serial)).Nodup
  below : ∀ α ∈ r.accounts, α.entry.serial < r.nextSerial
  unborn : ∀ n, r.nextSerial ≤ n → life n log = []
  present : ∀ α ∈ r.accounts, P (life α.entry.serial log) α
  absent : ∀ n, (∀ α ∈ r.accounts, α.entry.serial ≠ n) → Q (life n log)

/-- A session's steps keep `P`, its last one leads to `Q`. -/
structure Lived (cfg : ServerConfig) (s : ServerState) (a : Action)
    (P : List Observation → Account → Prop) (Q : List Observation → Prop) : Prop where
  created : ∀ n peer peerSize,
    P [.logged (.access (.created n))] (Session.create n peer peerSize s.now).account
  change : ∀ {α α' l log}, Change cfg s.rules s.now α α' log → P l α → P (l ++ log) α'
  leave : ∀ {α l log}, Leave cfg s a α log → P l α → Q (l ++ log)

section Living

variable {P : List Observation → Account → Prop} {Q : List Observation → Prop}
  {tr : List Observation} {rest : Multiset Account} {n : Nat}

/-- The serial number of a session is that of no other. -/
theorem Living.other :
    Living P Q tr ⟨α ::ₘ rest, n⟩ → ∀ β ∈ rest, β.entry.serial ≠ α.entry.serial := by
  intro hl β hβ heq
  have hnodup := hl.serials
  rw [Multiset.map_cons, Multiset.nodup_cons] at hnodup
  exact hnodup.1 (Multiset.mem_map.mpr ⟨β, hβ, heq⟩)

/-- What is logged about a session that is there leaves the unborn unborn. -/
theorem Living.unborn_append :
    Living P Q tr ⟨α ::ₘ rest, n⟩ → (∀ o ∈ log, o.serial? = some α.entry.serial) →
    ∀ m, n ≤ m → life m (tr ++ log) = [] := by
  intro hl habout m hm
  have hlt := hl.below α (Multiset.mem_cons_self α rest)
  rw [life_append_other habout (Nat.ne_of_gt (Nat.lt_of_lt_of_le hlt hm))]
  exact hl.unborn m hm

theorem Living.change (hlived : Lived cfg s a P Q) :
    Change cfg s.rules s.now α α' log → Living P Q tr ⟨α ::ₘ rest, n⟩ →
    Living P Q (tr ++ log) ⟨α' ::ₘ rest, n⟩ := by
  intro hc hl
  obtain ⟨hserial, habout⟩ := hc.about
  have hkeep : ∀ m, m ≠ α.entry.serial → life m (tr ++ log) = life m tr := fun _ hm =>
    life_append_other habout hm
  refine ⟨?_, ?_, hl.unborn_append habout, ?_, ?_⟩
  · have hnodup := hl.serials
    rw [Multiset.map_cons] at hnodup ⊢
    rw [hserial]
    exact hnodup
  · intro β hβ
    rcases Multiset.mem_cons.mp hβ with rfl | hβ
    · rw [hserial]
      exact hl.below α (Multiset.mem_cons_self α rest)
    · exact hl.below β (Multiset.mem_cons_of_mem hβ)
  · intro β hβ
    rcases Multiset.mem_cons.mp hβ with rfl | hβ
    · rw [hserial, life_append, life_of_about habout]
      exact hlived.change hc (hl.present α (Multiset.mem_cons_self α rest))
    · rw [hkeep _ (hl.other β hβ)]
      exact hl.present β (Multiset.mem_cons_of_mem hβ)
  · intro m hm
    have hne : m ≠ α.entry.serial := by
      rw [← hserial]
      exact (hm α' (Multiset.mem_cons_self α' rest)).symm
    rw [hkeep m hne]
    refine hl.absent m fun β hβ => ?_
    rcases Multiset.mem_cons.mp hβ with rfl | hβ
    · exact hne.symm
    · exact hm β (Multiset.mem_cons_of_mem hβ)

theorem Living.leave (hlived : Lived cfg s a P Q) :
    Leave cfg s a α log → Living P Q tr ⟨α ::ₘ rest, n⟩ → Living P Q (tr ++ log) ⟨rest, n⟩ := by
  intro hleave hl
  have habout := hleave.about
  have hkeep : ∀ m, m ≠ α.entry.serial → life m (tr ++ log) = life m tr := fun _ hm =>
    life_append_other habout hm
  refine ⟨?_, fun β hβ => hl.below β (Multiset.mem_cons_of_mem hβ), hl.unborn_append habout, ?_, ?_⟩
  · have hnodup := hl.serials
    rw [Multiset.map_cons, Multiset.nodup_cons] at hnodup
    exact hnodup.2
  · intro β hβ
    rw [hkeep _ (hl.other β hβ)]
    exact hl.present β (Multiset.mem_cons_of_mem hβ)
  · intro m hm
    by_cases hne : m = α.entry.serial
    · rw [hne, life_append, life_of_about habout]
      exact hlived.leave hleave (hl.present α (Multiset.mem_cons_self α rest))
    · rw [hkeep m hne]
      refine hl.absent m fun β hβ => ?_
      rcases Multiset.mem_cons.mp hβ with rfl | hβ
      · exact fun heq => hne heq.symm
      · exact hm β hβ

theorem Living.create (hlived : Lived cfg s a P Q) (peer : SockaddrStorage) (peerSize : Nat) :
    Living P Q tr ⟨rest, n⟩ →
    Living P Q (tr ++ [.logged (.access (.created n))])
      ⟨(Session.create n peer peerSize s.now).account ::ₘ rest, n + 1⟩ := by
  intro hl
  have habout : ∀ o ∈ [Observation.logged (.access (.created n))], o.serial? = some n :=
    fun o ho => by rw [List.mem_singleton.mp ho]; rfl
  have hkeep : ∀ m, m ≠ n → life m (tr ++ [.logged (.access (.created n))]) = life m tr :=
    fun _ hm => life_append_other habout hm
  have hother : ∀ β ∈ rest, β.entry.serial ≠ n := fun β hβ => Nat.ne_of_lt (hl.below β hβ)
  refine ⟨?_, ?_, ?_, ?_, ?_⟩
  · rw [Multiset.map_cons, Multiset.nodup_cons]
    refine ⟨fun hmem => ?_, hl.serials⟩
    obtain ⟨β, hβ, heq⟩ := Multiset.mem_map.mp hmem
    exact hother β hβ heq
  · intro β hβ
    rcases Multiset.mem_cons.mp hβ with rfl | hβ
    · exact Nat.lt_succ_self n
    · exact Nat.lt_succ_of_lt (hl.below β hβ)
  · intro m hm
    rw [hkeep m (Nat.ne_of_gt hm)]
    exact hl.unborn m (Nat.le_of_lt hm)
  · intro β hβ
    rcases Multiset.mem_cons.mp hβ with rfl | hβ
    · rw [show (Session.create n peer peerSize s.now).account.entry.serial = n from rfl,
        life_append, life_of_about habout, hl.unborn n (Nat.le_refl n)]
      exact hlived.created n peer peerSize
    · rw [hkeep _ (hother β hβ)]
      exact hl.present β hβ
  · intro m hm
    have hne : m ≠ n := (hm _ (Multiset.mem_cons_self _ rest)).symm
    rw [hkeep m hne]
    exact hl.absent m fun β hβ => hm β (Multiset.mem_cons_of_mem hβ)

theorem Living.aside :
    (∀ o ∈ log, o.serial? = none) → Living P Q tr r → Living P Q (tr ++ log) r := by
  intro hnone hl
  have hkeep : ∀ m, life m (tr ++ log) = life m tr := fun m => by
    rw [life_append, life_of_other hnone (by simp), List.append_nil]
  refine ⟨hl.serials, hl.below, fun m hm => ?_, fun β hβ => ?_, fun m hm => ?_⟩
  · rw [hkeep]; exact hl.unborn m hm
  · rw [hkeep]; exact hl.present β hβ
  · rw [hkeep]; exact hl.absent m hm

theorem Shift.living :
    Shift cfg s a r r' log → Lived cfg s a P Q → Living P Q tr r → Living P Q (tr ++ log) r' := by
  intro h hlived hl
  cases h with
  | change hc => exact hl.change hlived hc
  | leave hleave => exact hl.leave hlived hleave
  | create => exact hl.create hlived _ _
  | aside hnone => exact hl.aside hnone

end Living

end Rule

end AutobricksVpn
