/-
# `AutobricksVpn.Access.Table` — who may be in the session table, and as what

What the server's session list is for, without queues, clocks and positions: a
multiset of entries, and the five ways it changes.

    drop        entries leave
    admission   an unknown peer is given a pending entry
    establish   a pending entry proves a certificate and takes its address,
                and may push out the entries it replaces
    read        an entry that is past its login hands over a message
    login       the first message of an entry that owes a login is judged

Each move says what it depends on (free places, bindings, logins) and logs
what later statements need to look back at.  The server refines this
(`AutobricksVpn.Server.Refine`); the invariants below are proved of the moves.
-/
import AutobricksVpn.Server.Session
import AutobricksVpn.Lib.Machine
import Mathlib.Data.Multiset.Filter
import Mathlib.Data.Multiset.Dedup
import Mathlib.Data.Finset.Card

namespace AutobricksVpn

/-- What the worker had in hand when it established a session. -/
structure Evidence where
  rules : Rules
  sanMatches : Except IoError Bool
  sourceIp : Ipv4Addr
  sourceAllowed : Except IoError Bool

inductive AccessEvent where
  | created (serial : Nat)
  | established (entry : Entry) (evidence : Evidence)
  | received (serial : Nat) (packet : Packet)
  | login (serial : Nat) (address : Ipv4Addr) (frame : Packet)
      (credentials : Option (String × String)) (accepted : Bool)

/-- The verdict on a login message, given the configured pair if there is one. -/
def loginAccepted (credentials : Option (String × String)) (frame : Packet) : Bool :=
  credentials.any fun expected => loginMatches frame expected.1 expected.2

structure AccessTable where
  entries : Multiset Entry
  nextSerial : Nat

namespace Entry

/-- The entry of a peer that has shown nothing but a cookie. -/
def knock (serial : Nat) (peer : SockaddrStorage) : Entry :=
  { serial := serial, peer := peer, address := Ipv4Addr.unspecified, fingerprint := none,
    established := false, authenticated := false, loginAttempted := false, establishedAt := none }

/-- The entry after its certificate was accepted for `address`. -/
def establish (e : Entry) (address : Ipv4Addr) (fingerprint : String) (authenticated : Bool)
    (now : Instant) : Entry :=
  { e with
    address := address
    fingerprint := some fingerprint
    established := true
    authenticated := authenticated
    establishedAt := some now }

def logIn (e : Entry) (accepted : Bool) : Entry :=
  { e with loginAttempted := true, authenticated := accepted }

/-- A pending entry whose peer has the IPv4 address `ip`. -/
def pendingFrom (ip : Ipv4Addr) (e : Entry) : Bool :=
  !e.established && peerIpv4 e.peer == some ip

end Entry

namespace AccessTable

/-- How many entries are established. -/
def establishedCount (t : AccessTable) : Nat := t.entries.countP (·.established)

/-- How many entries are pending. -/
def pendingCount (t : AccessTable) : Nat := t.entries.countP (!·.established)

def pendingFromCount (t : AccessTable) (ip : Ipv4Addr) : Nat := t.entries.countP (·.pendingFrom ip)

def establishedAddresses (t : AccessTable) : Finset Ipv4Addr :=
  ((t.entries.filter (·.established)).map (·.address)).toFinset

end AccessTable

inductive MoveKind where
  | drop
  | admission
  | establish
  | read
  | login
  deriving DecidableEq

/-- The evidence supports the entry: the binding, the SAN check where it is
asked for, and the source policy for the address of the peer. -/
structure Evidence.Supports (cfg : ServerConfig) (evidence : Evidence) (e : Entry) : Prop where
  binding : ∃ fingerprint, e.fingerprint = some fingerprint ∧
    evidence.rules.bindings.lookup e.address = some fingerprint
  san : cfg.verifyClientSanIp = true → evidence.sanMatches = .ok true
  source : peerIpv4 e.peer = some evidence.sourceIp ∧ evidence.sourceAllowed = .ok true
  login : e.authenticated = (evidence.rules.logins.lookup e.address).isNone

/-- One change of the table under the worker's rules. -/
inductive Move (cfg : ServerConfig) (rules : Rules) :
    MoveKind → AccessTable → AccessTable → List AccessEvent → Prop
  | drop {t : AccessTable} {kept : Multiset Entry} :
      kept ≤ t.entries → Move cfg rules .drop t ⟨kept, t.nextSerial⟩ []
  | admission {t : AccessTable} {peer : SockaddrStorage} :
      (∀ e ∈ t.entries, e.peer ≠ peer) →
      t.establishedCount < cfg.maxClients →
      (∀ ip, peerIpv4 peer = some ip → t.pendingFromCount ip < MAX_PENDING_PER_IP) →
      t.pendingCount < cfg.maxPendingHandshakes →
      Move cfg rules .admission t ⟨Entry.knock t.nextSerial peer ::ₘ t.entries, t.nextSerial + 1⟩
        [.created t.nextSerial]
  | establish {t : AccessTable} {e : Entry} {rest kept : Multiset Entry} {address : Ipv4Addr}
      {fingerprint : String} {authenticated : Bool} {now : Instant} {evidence : Evidence} :
      t.entries = e ::ₘ rest → e.established = false → kept ≤ rest →
      evidence.rules = rules →
      evidence.Supports cfg (e.establish address fingerprint authenticated now) →
      (authenticated = true → ∀ x ∈ kept, x.established = true → x.address ≠ address) →
      (t.establishedCount < cfg.maxClients ∨ address ∈ t.establishedAddresses) →
      Move cfg rules .establish t
        ⟨e.establish address fingerprint authenticated now ::ₘ kept, t.nextSerial⟩
        [.established (e.establish address fingerprint authenticated now) evidence]
  | read {t : AccessTable} {e : Entry} {packet : Packet} :
      e ∈ t.entries → (e.authenticated = true ∨ e.loginAttempted = true) →
      Move cfg rules .read t t [.received e.serial packet]
  | login {t : AccessTable} {e : Entry} {rest : Multiset Entry} {frame : Packet} :
      t.entries = e ::ₘ rest → e.established = true → e.authenticated = false →
      e.loginAttempted = false →
      Move cfg rules .login t
        ⟨e.logIn (loginAccepted (rules.logins.lookup e.address) frame) ::ₘ rest, t.nextSerial⟩
        [.received e.serial frame,
          .login e.serial e.address frame (rules.logins.lookup e.address)
            (loginAccepted (rules.logins.lookup e.address) frame)]

section Invariants

variable {cfg : ServerConfig} {rules : Rules} {k : MoveKind} {t t' : AccessTable}
  {tr evs : List AccessEvent}

/-! ## Serials and peers -/

/-- No two entries have the same serial or the same peer, and serials are
handed out in order. -/
structure AccessTable.Distinct (t : AccessTable) : Prop where
  serials : (t.entries.map (·.serial)).Nodup
  below : ∀ e ∈ t.entries, e.serial < t.nextSerial
  peers : (t.entries.map (·.peer)).Nodup

theorem AccessTable.Distinct.of_le (h : t.Distinct) {kept : Multiset Entry} (hk : kept ≤ t.entries) :
    AccessTable.Distinct ⟨kept, t.nextSerial⟩ :=
  ⟨Multiset.nodup_of_le (Multiset.map_le_map hk) h.serials,
    fun e he => h.below e (Multiset.mem_of_le hk he),
    Multiset.nodup_of_le (Multiset.map_le_map hk) h.peers⟩

/-- Replacing an entry by one with the same serial and peer. -/
theorem AccessTable.Distinct.replace {e e' : Entry} {rest kept : Multiset Entry} (h : t.Distinct)
    (ht : t.entries = e ::ₘ rest) (hk : kept ≤ rest) (hs : e'.serial = e.serial)
    (hp : e'.peer = e.peer) : AccessTable.Distinct ⟨e' ::ₘ kept, t.nextSerial⟩ := by
  have hle : e ::ₘ kept ≤ t.entries := by rw [ht]; exact Multiset.cons_le_cons e hk
  obtain ⟨hserials, hbelow, hpeers⟩ := h.of_le hle
  refine ⟨?_, ?_, ?_⟩
  · simpa only [Multiset.map_cons, hs] using hserials
  · intro x hx
    rcases Multiset.mem_cons.mp hx with rfl | hx
    · rw [hs]; exact hbelow e (Multiset.mem_cons_self e kept)
    · exact hbelow x (Multiset.mem_cons_of_mem hx)
  · simpa only [Multiset.map_cons, hp] using hpeers

theorem Move.distinct (h : Move cfg rules k t t' evs) (hd : t.Distinct) : t'.Distinct := by
  cases h with
  | drop hk => exact hd.of_le hk
  | admission hpeer _ _ _ =>
      refine ⟨?_, ?_, ?_⟩
      · simp only [Multiset.map_cons, Multiset.nodup_cons, Multiset.mem_map, not_exists, not_and]
        exact ⟨fun e he heq => Nat.lt_irrefl _ (heq ▸ hd.below e he), hd.serials⟩
      · intro e he
        rcases Multiset.mem_cons.mp he with rfl | he
        · exact Nat.lt_succ_self _
        · exact Nat.lt_succ_of_lt (hd.below e he)
      · simp only [Multiset.map_cons, Multiset.nodup_cons, Multiset.mem_map, not_exists, not_and]
        exact ⟨fun e he heq => hpeer e he heq, hd.peers⟩
  | establish ht _ hk _ _ _ _ => exact hd.replace ht hk rfl rfl
  | read _ _ => exact hd
  | login ht _ _ _ => exact hd.replace ht le_rfl rfl rfl

/-- The serial names the entry. -/
theorem AccessTable.Distinct.eq_of_serial (h : t.Distinct) {e x : Entry} {rest : Multiset Entry}
    (ht : t.entries = e ::ₘ rest) (hx : x ∈ rest) : x.serial ≠ e.serial := by
  have := h.serials
  rw [ht, Multiset.map_cons, Multiset.nodup_cons] at this
  exact fun heq => this.1 (heq ▸ Multiset.mem_map_of_mem _ hx)

/-! ## The places -/

/-- The bounds the table keeps at all times: pending entries in all and per
source, addresses that are established, and entries in all. -/
structure AccessTable.Bounded (cfg : ServerConfig) (t : AccessTable) : Prop where
  pending : t.pendingCount ≤ cfg.maxPendingHandshakes
  perIp : ∀ ip, t.pendingFromCount ip ≤ MAX_PENDING_PER_IP
  addresses : t.establishedAddresses.card ≤ cfg.maxClients
  total : t.entries.card ≤ cfg.maxClients + cfg.maxPendingHandshakes - 1

theorem AccessTable.establishedCount_add_pendingCount (t : AccessTable) :
    t.establishedCount + t.pendingCount = t.entries.card := by
  have := Multiset.card_eq_countP_add_countP (fun e : Entry => e.established = true) t.entries
  simp only [AccessTable.establishedCount, AccessTable.pendingCount, this, Bool.not_eq_true,
    Bool.not_eq_eq_eq_not, Bool.not_true]

theorem AccessTable.card_establishedAddresses_le (t : AccessTable) :
    t.establishedAddresses.card ≤ t.establishedCount := by
  refine (Multiset.toFinset_card_le _).trans ?_
  rw [Multiset.card_map, AccessTable.establishedCount, Multiset.countP_eq_card_filter]

theorem AccessTable.mem_establishedAddresses {a : Ipv4Addr} :
    a ∈ t.establishedAddresses ↔ ∃ e ∈ t.entries, e.established = true ∧ e.address = a := by
  simp [AccessTable.establishedAddresses, and_assoc]

theorem AccessTable.establishedAddresses_mono {kept : Multiset Entry} (hk : kept ≤ t.entries) (n : Nat) :
    AccessTable.establishedAddresses ⟨kept, n⟩ ⊆ t.establishedAddresses :=
  Multiset.toFinset_subset.mpr
    (Multiset.subset_of_le (Multiset.map_le_map (Multiset.filter_le_filter _ hk)))

theorem AccessTable.Bounded.of_le (h : t.Bounded cfg) {kept : Multiset Entry}
    (hk : kept ≤ t.entries) : AccessTable.Bounded cfg ⟨kept, t.nextSerial⟩ :=
  ⟨(Multiset.countP_le_of_le _ hk).trans h.pending,
    fun ip => (Multiset.countP_le_of_le _ hk).trans (h.perIp ip),
    (Finset.card_le_card (AccessTable.establishedAddresses_mono hk _)).trans h.addresses,
    (Multiset.card_le_card hk).trans h.total⟩

theorem AccessTable.Bounded.admission {peer : SockaddrStorage} (h : t.Bounded cfg)
    (hcap : t.establishedCount < cfg.maxClients)
    (hip : ∀ ip, peerIpv4 peer = some ip → t.pendingFromCount ip < MAX_PENDING_PER_IP)
    (hpend : t.pendingCount < cfg.maxPendingHandshakes) :
    AccessTable.Bounded cfg ⟨Entry.knock t.nextSerial peer ::ₘ t.entries, t.nextSerial + 1⟩ := by
  refine ⟨?_, fun ip => ?_, ?_, ?_⟩
  · simp only [AccessTable.pendingCount] at hpend ⊢
    rw [Multiset.countP_cons_of_pos _ (by rfl)]
    exact hpend
  · by_cases hpeer : peerIpv4 peer = some ip
    · have := hip ip hpeer
      simp only [AccessTable.pendingFromCount] at this ⊢
      rw [Multiset.countP_cons_of_pos _ (by simpa [Entry.pendingFrom, Entry.knock] using hpeer)]
      exact this
    · have := h.perIp ip
      simp only [AccessTable.pendingFromCount] at this ⊢
      rwa [Multiset.countP_cons_of_neg _ (by simpa [Entry.pendingFrom, Entry.knock] using hpeer)]
  · simpa [AccessTable.establishedAddresses, Entry.knock] using h.addresses
  · have htotal := t.establishedCount_add_pendingCount
    simp only [Multiset.card_cons]
    omega

theorem AccessTable.Bounded.establish {e e' : Entry} {rest kept : Multiset Entry}
    (h : t.Bounded cfg) (ht : t.entries = e ::ₘ rest) (hk : kept ≤ rest)
    (he' : e'.established = true)
    (hcap : t.establishedCount < cfg.maxClients ∨ e'.address ∈ t.establishedAddresses) :
    AccessTable.Bounded cfg ⟨e' ::ₘ kept, t.nextSerial⟩ := by
  have hle : kept ≤ t.entries := by rw [ht]; exact hk.trans (Multiset.le_cons_self rest e)
  have hrest := h.of_le hle
  refine ⟨?_, fun ip => ?_, ?_, ?_⟩
  · simpa [AccessTable.pendingCount, Multiset.countP_cons, he'] using hrest.pending
  · simpa [AccessTable.pendingFromCount, Entry.pendingFrom, Multiset.countP_cons, he'] using
      hrest.perIp ip
  · have hsub : AccessTable.establishedAddresses ⟨e' ::ₘ kept, t.nextSerial⟩ ⊆
        insert e'.address t.establishedAddresses := by
      intro a ha
      obtain ⟨x, hx, hest, rfl⟩ := AccessTable.mem_establishedAddresses.mp ha
      rcases Multiset.mem_cons.mp hx with rfl | hx
      · exact Finset.mem_insert_self _ _
      · refine Finset.mem_insert_of_mem (AccessTable.mem_establishedAddresses.mpr ⟨x, ?_, hest, rfl⟩)
        rw [ht]
        exact Multiset.mem_cons_of_mem (Multiset.mem_of_le hk hx)
    rcases hcap with hlt | hmem
    · calc (AccessTable.establishedAddresses ⟨e' ::ₘ kept, t.nextSerial⟩).card
            ≤ (insert e'.address t.establishedAddresses).card := Finset.card_le_card hsub
        _ ≤ t.establishedAddresses.card + 1 := Finset.card_insert_le _ _
        _ ≤ t.establishedCount + 1 := Nat.succ_le_succ t.card_establishedAddresses_le
        _ ≤ cfg.maxClients := hlt
    · rw [Finset.insert_eq_self.mpr hmem] at hsub
      exact (Finset.card_le_card hsub).trans h.addresses
  · have := h.total
    rw [ht, Multiset.card_cons] at this
    rw [Multiset.card_cons]
    exact (Nat.succ_le_succ (Multiset.card_le_card hk)).trans this

theorem Move.bounded (h : Move cfg rules k t t' evs) (hb : t.Bounded cfg) : t'.Bounded cfg := by
  cases h with
  | drop hk => exact hb.of_le hk
  | admission _ hcap hip hpend => exact hb.admission hcap hip hpend
  | establish ht _ hk _ _ _ hcap => exact hb.establish ht hk rfl hcap
  | read _ _ => exact hb
  | @login _ e rest _ ht he _ _ =>
      refine hb.establish ht le_rfl he (.inr ?_)
      exact AccessTable.mem_establishedAddresses.mpr
        ⟨e, by rw [ht]; exact Multiset.mem_cons_self e rest, he, rfl⟩

/-! ## Stages, and one authenticated entry for each address -/

/-- Authenticated and attempted entries are established, and an established
entry has its fingerprint and its time. -/
structure Entry.Staged (e : Entry) : Prop where
  authenticated : e.authenticated = true → e.established = true
  attempted : e.loginAttempted = true → e.established = true
  established : e.established = true → e.fingerprint.isSome = true ∧ e.establishedAt.isSome = true

def AccessTable.Staged (t : AccessTable) : Prop := ∀ e ∈ t.entries, e.Staged

theorem Move.staged (h : Move cfg rules k t t' evs) (hs : t.Staged) : t'.Staged := by
  cases h with
  | drop hk => exact fun e he => hs e (Multiset.mem_of_le hk he)
  | admission _ _ _ _ =>
      intro e he
      rcases Multiset.mem_cons.mp he with rfl | he
      · exact ⟨nofun, nofun, nofun⟩
      · exact hs e he
  | establish ht _ hk _ _ _ _ =>
      intro x hx
      rcases Multiset.mem_cons.mp hx with rfl | hx
      · exact ⟨fun _ => rfl, fun _ => rfl, fun _ => ⟨rfl, rfl⟩⟩
      · exact hs x (by rw [ht]; exact Multiset.mem_cons_of_mem (Multiset.mem_of_le hk hx))
  | read _ _ => exact hs
  | @login _ e rest _ ht he _ _ =>
      have hmem : e ∈ t.entries := by rw [ht]; exact Multiset.mem_cons_self e rest
      intro x hx
      rcases Multiset.mem_cons.mp hx with rfl | hx
      · exact ⟨fun _ => he, fun _ => he, (hs e hmem).established⟩
      · exact hs x (by rw [ht]; exact Multiset.mem_cons_of_mem hx)

/-- At most one authenticated entry for each address. -/
def AccessTable.OneForEach (t : AccessTable) : Prop :=
  ((t.entries.filter (·.authenticated)).map (·.address)).Nodup

/-- Every move but a login keeps it. -/
theorem Move.oneForEach (h : Move cfg rules k t t' evs) (hk : k ≠ .login) (hs : t.Staged)
    (ho : t.OneForEach) : t'.OneForEach := by
  have hsub : ∀ {kept : Multiset Entry} {n : Nat}, kept ≤ t.entries →
      AccessTable.OneForEach ⟨kept, n⟩ := fun hle =>
    Multiset.nodup_of_le (Multiset.map_le_map (Multiset.filter_le_filter _ hle)) ho
  cases h with
  | drop hle => exact hsub hle
  | admission _ _ _ _ => simpa [AccessTable.OneForEach, Entry.knock] using ho
  | @establish _ e rest kept _ _ authenticated _ _ ht _ hle _ _ hout _ =>
      have hle' : kept ≤ t.entries := by rw [ht]; exact hle.trans (Multiset.le_cons_self rest e)
      have hkept := hsub (n := t.nextSerial) hle'
      cases authenticated with
      | false => simpa [AccessTable.OneForEach, Entry.establish] using hkept
      | true =>
          rw [AccessTable.OneForEach, Multiset.filter_cons_of_pos _ (by rfl), Multiset.map_cons,
            Multiset.nodup_cons]
          refine ⟨fun hmem => ?_, hkept⟩
          obtain ⟨x, hx, haddr⟩ := Multiset.mem_map.mp hmem
          obtain ⟨hx, hauth⟩ := Multiset.mem_filter.mp hx
          exact hout rfl x hx ((hs x (Multiset.mem_of_le hle' hx)).authenticated hauth) haddr
  | read _ _ => exact ho
  | login _ _ _ _ => exact absurd rfl hk

/-! ## Where entries come from -/

/-- Only an admission makes a pending entry. -/
theorem Move.pending_mem (h : Move cfg rules k t t' evs) (hk : k ≠ .admission) :
    ∀ e ∈ t'.entries, e.established = false → e ∈ t.entries := by
  cases h with
  | drop hle => exact fun e he _ => Multiset.mem_of_le hle he
  | admission _ _ _ _ => exact absurd rfl hk
  | @establish _ e rest kept _ _ _ _ _ ht _ hle _ _ _ _ =>
      intro x hx hpend
      rcases Multiset.mem_cons.mp hx with rfl | hx
      · exact nomatch hpend
      · rw [ht]
        exact Multiset.mem_cons_of_mem (Multiset.mem_of_le hle hx)
  | read _ _ => exact fun _ he _ => he
  | @login _ e rest _ ht hest _ _ =>
      intro x hx hpend
      rcases Multiset.mem_cons.mp hx with rfl | hx
      · exact nomatch hest.symm.trans hpend
      · rw [ht]
        exact Multiset.mem_cons_of_mem hx

/-- Only an establishment or a login changes what is established. -/
theorem Move.established_mem (h : Move cfg rules k t t' evs) (he : k ≠ .establish)
    (hl : k ≠ .login) : ∀ e ∈ t'.entries, e.established = true → e ∈ t.entries := by
  cases h with
  | drop hle => exact fun e he _ => Multiset.mem_of_le hle he
  | admission _ _ _ _ =>
      intro e he hest
      rcases Multiset.mem_cons.mp he with rfl | he
      · exact nomatch hest
      · exact he
  | establish _ _ _ _ _ _ _ => exact absurd rfl he
  | read _ _ => exact fun _ he _ => he
  | login _ _ _ _ => exact absurd rfl hl

end Invariants

end AutobricksVpn
