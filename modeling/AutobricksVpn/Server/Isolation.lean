/-
# `AutobricksVpn.Server.Isolation` — who is given a packet from TUN

What one turn of the encrypt worker does with a packet, session by session
(`Deliveries`): it is pushed at most once to a session, and besides that
sessions are only drained.  Who receives it is decided by the destination
(`recipient`): nobody, the authenticated sessions, or one of them with that
address.

A packet stays on the queue of a session while the list around it changes, and
the address of a session is written only while the session is pending, with an
empty queue.  So in every run a unicast packet lies on the queue of a session
with its address or nowhere (`Change.addressed`), and the destinations that are
served are the ones that the decrypt worker lets clients send to
(`outbound_isolation`).
-/
import AutobricksVpn.Server.Shifts

namespace AutobricksVpn

/-! ## One packet -/

section Kinds

variable (cfg : ServerConfig) (destination : Ipv4Addr)

def isBroadcast : Bool := ipv4IsBroadcast destination cfg.networkAddress cfg.networkPrefix

/-- Broadcast or multicast of a kind that is allowed. -/
def isAllowedWide : Bool :=
  isBroadcast cfg destination && cfg.allowBroadcast || destination.isMulticast && cfg.allowMulticast

def isUnicast : Bool := !isBroadcast cfg destination && !destination.isMulticast

end Kinds

/-- The session at the index is given the packet. -/
def recipient (cfg : ServerConfig) (packet : Packet) (sessions : List Session) (index : Nat) : Bool :=
  match ipv4Destination packet with
  | none => false
  | some destination =>
      if isAllowedWide cfg destination then sessions[index]?.any (·.authenticated)
      else isUnicast cfg destination && unicastIndex destination sessions == some index

/-- A session that is given the packet, or is not. -/
def Session.given (now : Instant) (packet : Packet) (receives : Bool) (x : Session) : Session :=
  if receives then x.queueSessionPlain now packet else x

/-- The packet is pushed once to the sessions that receive it and to no other;
besides that sessions are only drained. -/
structure Deliveries (now : Instant) (calls : Nat → List WriteCall) (packet : Packet)
    (sessions : List Session) (receives : Nat → Bool) (r : List Session × List Event) : Prop where
  length : r.1.length = sessions.length
  pushed : ∀ (i : Nat) (x : Session), sessions[i]? = some x →
    r.1[i]? = some (x.given now packet (receives i)) ∨
      r.1[i]? = some ((x.given now packet (receives i)).drainPlain now (calls x.serial))
  logged : r.2 = ((sessions.zipIdx.filter fun x => receives x.2).map Prod.fst).map fun x =>
    .queued x packet .tunnel

section Routing

variable {cfg : ServerConfig} {now : Instant} {calls : Nat → List WriteCall} {packet : Packet}
  {sessions : List Session} {destination : Ipv4Addr}

/-- Nobody receives the packet. -/
theorem Deliveries.nobody {receives : Nat → Bool} :
    (∀ i, receives i = false) → Deliveries now calls packet sessions receives (sessions, []) := by
  intro h
  refine ⟨rfl, fun i x hx => .inl ?_, ?_⟩
  · rw [h i]
    exact hx
  · rw [List.filter_eq_nil_iff.mpr fun x _ => by simp [h x.2]]
    rfl

theorem unicastIndex_some {index : Nat} :
    unicastIndex destination sessions = some index →
    ∃ x, sessions[index]? = some x ∧ x.authenticated = true ∧ x.address = destination := by
  intro h
  obtain ⟨x, hx, hp⟩ := Vec.lastMaxIdx_some h
  simp only [Bool.and_eq_true, beq_iff_eq] at hp
  exact ⟨x, hx, hp⟩

theorem unicastIndex_none :
    unicastIndex destination sessions = none →
    ∀ x ∈ sessions, x.authenticated = true → x.address ≠ destination := by
  intro h x hx hauth haddr
  have hp := Vec.lastMaxIdx_none h x hx
  simp only [hauth, haddr, Bool.true_and, beq_self_eq_true] at hp
  exact absurd hp (by decide)

theorem routePacket_of_destination (h : ipv4Destination packet = some destination) :
    routePacket cfg now calls packet sessions =
      if isAllowedWide cfg destination then
        (flushPending now calls
            (sessions.map fun x => if x.authenticated then x.queueSessionPlain now packet else x),
          (sessions.filter (·.authenticated)).map fun x => .queued x packet .tunnel)
      else if isUnicast cfg destination then
        match unicastIndex destination sessions with
        | some index =>
            (sessions.modify index fun x =>
                (x.queueSessionPlain now packet).drainPlain now (calls x.serial),
              sessions[index]?.toList.map fun x => .queued x packet .tunnel)
        | none => (sessions, [])
      else (sessions, []) := by
  rw [routePacket, h]
  rfl

theorem routePacket_deliveries :
    Deliveries now calls packet sessions (recipient cfg packet sessions)
      (routePacket cfg now calls packet sessions) := by
  cases hdestination : ipv4Destination packet with
  | none =>
      rw [routePacket, hdestination]
      exact .nobody fun i => by rw [recipient, hdestination]
  | some destination =>
      rw [routePacket_of_destination hdestination]
      have hrecipient : ∀ i, recipient cfg packet sessions i =
          if isAllowedWide cfg destination then sessions[i]?.any (·.authenticated)
          else isUnicast cfg destination && unicastIndex destination sessions == some i := by
        intro i
        rw [recipient, hdestination]
      by_cases hwide : isAllowedWide cfg destination = true
      · rw [if_pos hwide]
        have hgiven : ∀ i x, sessions[i]? = some x →
            recipient cfg packet sessions i = x.authenticated := by
          intro i x hx
          rw [hrecipient, if_pos hwide, hx]
          rfl
        refine ⟨by rw [flushPending, List.length_map, List.length_map], fun i x hx => .inr ?_, ?_⟩
        · rw [flushPending, List.getElem?_map, List.getElem?_map, hx, hgiven i x hx]
          cases hauth : x.authenticated <;> simp [Session.given, hauth, Session.queueSessionPlain]
        · rw [Vec.filter_zipIdx hgiven]
      · rw [if_neg hwide]
        simp only [if_neg hwide] at hrecipient
        by_cases hunicast : isUnicast cfg destination = true
        · rw [if_pos hunicast]
          simp only [hunicast, Bool.true_and] at hrecipient
          cases hindex : unicastIndex destination sessions with
          | none => exact .nobody fun i => by rw [hrecipient, hindex]; rfl
          | some index =>
              have hgiven : ∀ i, recipient cfg packet sessions i = (i == index) := by
                intro i
                rw [hrecipient, hindex]
                simp [eq_comm]
              refine ⟨by rw [List.length_modify], fun i x hx => ?_, ?_⟩
              · dsimp only
                rw [List.getElem?_modify, hx, hgiven]
                by_cases hi : index = i
                · subst hi
                  exact .inr (by simp [Session.given, Session.queueSessionPlain])
                · exact .inl (by simp [Session.given, hi, Ne.symm hi])
              · simp only [hgiven]
                rw [Vec.filter_zipIdx_eq]
        · rw [if_neg hunicast]
          exact .nobody fun i => by rw [hrecipient, eq_false_of_ne_true hunicast]; rfl

/-- Whom a packet is for, kind by kind. -/
structure MeantFor (cfg : ServerConfig) (packet : Packet) (sessions : List Session)
    (receives : Nat → Bool) : Prop where
  rejected : ipv4Destination packet = none → ∀ i, receives i = false
  wide : ∀ destination, ipv4Destination packet = some destination →
    isAllowedWide cfg destination = true →
    ∀ i (x : Session), sessions[i]? = some x → receives i = x.authenticated
  refused : ∀ destination, ipv4Destination packet = some destination →
    isAllowedWide cfg destination = false → isUnicast cfg destination = false →
    ∀ i, receives i = false
  unicast : ∀ destination, ipv4Destination packet = some destination →
    isUnicast cfg destination = true →
    (∃ x ∈ sessions, x.authenticated = true ∧ x.address = destination) →
    ∃ i x, sessions[i]? = some x ∧ x.authenticated = true ∧ x.address = destination ∧
      ∀ j, receives j = true ↔ j = i
  absent : ∀ destination, ipv4Destination packet = some destination →
    isUnicast cfg destination = true →
    (∀ x ∈ sessions, x.authenticated = true → x.address ≠ destination) → ∀ i, receives i = false

theorem not_wide_of_unicast : isUnicast cfg destination = true → isAllowedWide cfg destination = false := by
  intro h
  simp only [isUnicast, Bool.and_eq_true, Bool.not_eq_true'] at h
  simp only [isAllowedWide, h.1, h.2, Bool.false_and, Bool.or_self]

theorem recipient_meantFor : MeantFor cfg packet sessions (recipient cfg packet sessions) := by
  refine ⟨?_, ?_, ?_, ?_, ?_⟩
  · intro hnone i
    rw [recipient, hnone]
  · intro destination hdestination hwide i x hx
    simp only [recipient, hdestination, if_pos hwide, hx, Option.any_some]
  · intro destination hdestination hwide hunicast i
    simp [recipient, hdestination, hwide, hunicast]
  · rintro destination hdestination hunicast ⟨y, hy, hauth, haddr⟩
    cases hindex : unicastIndex destination sessions with
    | none => exact absurd haddr (unicastIndex_none hindex y hy hauth)
    | some index =>
        obtain ⟨x, hx, hp⟩ := unicastIndex_some hindex
        refine ⟨index, x, hx, hp.1, hp.2, fun j => ?_⟩
        simp only [recipient, hdestination, not_wide_of_unicast hunicast, hunicast, hindex,
          Bool.false_eq_true, if_false, Bool.true_and, beq_iff_eq, Option.some.injEq]
        exact eq_comm
  · intro destination hdestination hunicast hnobody i
    cases hindex : unicastIndex destination sessions with
    | none =>
        simp [recipient, hdestination, not_wide_of_unicast hunicast, hindex]
    | some index =>
        obtain ⟨x, hx, hauth, haddr⟩ := unicastIndex_some hindex
        exact absurd haddr (hnobody x (List.mem_of_getElem? hx) hauth)

/-- The encrypt worker serves the destinations that clients may send to. -/
theorem destinationAllowed_iff :
    ipv4Destination packet = some destination →
    (destinationAllowed cfg destination = true ↔
      ∃ sessions, (routePacket cfg now calls packet sessions).2 ≠ []) := by
  intro hdestination
  have hallowed : destinationAllowed cfg destination =
      (isUnicast cfg destination || isAllowedWide cfg destination) := by
    rw [destinationAllowed, isUnicast, isAllowedWide, isBroadcast, Bool.or_assoc]
  rw [hallowed]
  constructor
  · intro h
    -- One authenticated session with the address is enough.
    refine ⟨[{ Session.create 0 ⟨AF_INET, 0, destination, []⟩ 0 now with
      authenticated := true, address := destination }], ?_⟩
    rw [routePacket_of_destination hdestination]
    by_cases hwide : isAllowedWide cfg destination = true
    · rw [if_pos hwide]
      simp
    · rw [if_neg hwide]
      have hunicast : isUnicast cfg destination = true := by
        rw [eq_false_of_ne_true hwide, Bool.or_false] at h
        exact h
      rw [if_pos hunicast]
      simp [unicastIndex, Vec.lastMaxIdx]
  · rintro ⟨sessions, hne⟩
    rw [routePacket_of_destination hdestination] at hne
    by_cases hwide : isAllowedWide cfg destination = true
    · rw [hwide, Bool.or_true]
    · rw [if_neg hwide] at hne
      by_cases hunicast : isUnicast cfg destination = true
      · rw [hunicast, Bool.true_or]
      · rw [if_neg hunicast] at hne
        exact absurd rfl hne

end Routing

/-! ## Every run -/

/-- The unicast packets of the queue are for the address of the session, and
there are none before it has one. -/
structure Addressed (cfg : ServerConfig) (α : Account) : Prop where
  pending : α.entry.established = false →
    α.entry.authenticated = false ∧ α.rawTxQueue.items = []
  addressed : ∀ m ∈ α.rawTxQueue.items, ∀ destination, ipv4Destination m.1 = some destination →
    isUnicast cfg destination = true → destination = α.entry.address

section Runs

variable {cfg : ServerConfig} {rules : Rules} {now : Instant} {s : ServerState} {a : Action}
  {as : List Action} {tr : List Event} {α α' : Account} {log : List Observation} {packet : Packet}

/-- A message that is not a packet of the tunnel may be queued to an
established session. -/
theorem Addressed.queues {t : Instant} {e : Entry} :
    Addressed cfg α → ipv4Destination packet = none → e.established = true →
    α.entry.established = false ∨ e.address = α.entry.address →
    Addressed cfg (({ α with entry := e, lastActivity := t } : Account).queues now packet) := by
  intro h hnone hest haddr
  refine ⟨fun hpend => absurd (hest.symm.trans hpend) Bool.noConfusion, fun m hm => ?_⟩
  intro destination hdestination hunicast
  rcases pushIgnore_items hm with hm | rfl
  · rcases haddr with hpend | haddr
    · have hm' : m ∈ α.rawTxQueue.items := hm
      rw [(h.pending hpend).2] at hm'
      exact absurd hm' List.not_mem_nil
    · exact (h.addressed m hm destination hdestination hunicast).trans haddr.symm
  · rw [hnone] at hdestination
    cases hdestination

theorem Addressed.established_of_authenticated :
    Addressed cfg α → α.entry.authenticated = true → α.entry.established = true := by
  intro h hauth
  by_contra hpend
  have hno := (h.pending (eq_false_of_ne_true hpend)).1
  exact absurd (hauth.symm.trans hno) Bool.noConfusion

theorem handshakeAnswer_destination (rules : Rules) (address : Ipv4Addr) :
    ipv4Destination (handshakeAnswer rules address) = none := by
  unfold handshakeAnswer
  split <;> decide

theorem Change.addressed :
    Change cfg rules now α α' log → Addressed cfg α → Addressed cfg α' := by
  intro hc h
  cases hc with
  | @wrote _ queue hsub _ =>
      refine ⟨fun hpend => ?_, fun m hm => h.addressed m (hsub.subset hm)⟩
      obtain ⟨hauth, hempty⟩ := h.pending hpend
      exact ⟨hauth, List.sublist_nil.mp (hempty ▸ hsub)⟩
  | routed _ hauth hroutable =>
      have hest := h.established_of_authenticated hauth
      refine ⟨fun hpend => absurd (hest.symm.trans hpend) Bool.noConfusion, fun m hm => ?_⟩
      rcases pushIgnore_items hm with hm | rfl
      · exact h.addressed m hm
      · intro destination hdestination hunicast
        obtain ⟨d, hd, hroute⟩ := hroutable
        obtain rfl := Option.some.inj (hd.symm.trans hdestination)
        rcases hroute with hwide | ⟨-, -, haddr⟩
        · exact absurd (hwide.symm.trans (not_wide_of_unicast hunicast)) Bool.noConfusion
        · exact haddr
  | read _ => exact h
  | keepalive _ hauth =>
      exact h.queues (by decide) (h.established_of_authenticated hauth) (.inr rfl)
  | delivered _ _ _ | undelivered _ _ _ => exact ⟨h.pending, h.addressed⟩
  | loggedIn hest _ _ _ => exact h.queues (by decide) hest (.inr rfl)
  | loginRejected hest _ _ _ => exact h.queues (by decide) hest (.inr rfl)
  | @established x _ c hpend hx _ =>
      refine h.queues (handshakeAnswer_destination rules c.address) ?_ (.inl hpend)
      rw [hx]
      rfl

theorem lived_addressed : Lived cfg s a (fun _ α => Addressed cfg α) fun _ => True where
  created _ _ _ := ⟨fun _ => ⟨rfl, rfl⟩, fun _ hm => absurd hm List.not_mem_nil⟩
  change hc h := hc.addressed h
  leave _ _ := trivial

/-- **Isolation.**  A packet from TUN is given to those it is meant for, once,
for every list of sessions; in every run the unicast packets on the queue of a
session are for its address; and the destinations that are served are the ones
that clients may send to. -/
theorem outbound_isolation :
    (∀ now calls packet sessions, ∃ receives,
      Deliveries now calls packet sessions receives (routePacket cfg now calls packet sessions) ∧
        MeantFor cfg packet sessions receives) ∧
    ((server cfg rules).Run Machine.Free as tr s →
      ∀ x ∈ s.sessions, ∀ m ∈ x.rawTxQueue.items, ∀ destination,
        ipv4Destination m.1 = some destination → isUnicast cfg destination = true →
          destination = x.address) ∧
    ∀ now calls packet destination, ipv4Destination packet = some destination →
      (destinationAllowed cfg destination = true ↔
        ∃ sessions, (routePacket cfg now calls packet sessions).2 ≠ []) := by
  refine ⟨fun now calls packet sessions => ⟨_, routePacket_deliveries, recipient_meantFor⟩, ?_, ?_⟩
  · intro hr x hx
    obtain ⟨log, hlog, -⟩ := observed_of_run hr
    exact ((Run.living hlog (fun _ _ _ => lived_addressed) trivial).session hx).addressed
  · exact fun _ _ _ _ h => destinationAllowed_iff h

namespace Sample

/-- Both clients connect; packets for either, for nobody and for all come from TUN. -/
def waiting : List Action :=
  bothConnect ++ routed (toHost 3) ++ routed (toHost 2) ++ routed (toHost 9) ++
    routed (toHost 255)

end Sample

theorem outbound_isolation_waiting :
    (Sample.outcome₂ Sample.waiting).1.sessions.map
        (fun x => (x.address, x.rawTxQueue.items.map Prod.fst)) =
      [(Sample.address, [AUTH_OK, Sample.toHost 2, Sample.toHost 255]),
        (Sample.address', [AUTH_OK, Sample.toHost 3, Sample.toHost 255])] ∧
      ∀ x ∈ (Sample.outcome₂ Sample.waiting).1.sessions, ∀ m ∈ x.rawTxQueue.items,
        ∀ destination, ipv4Destination m.1 = some destination →
          isUnicast Sample.twoPlaces destination = true → destination = x.address :=
  ⟨by decide +kernel, outbound_isolation.2.1 (run_sample₂ (by decide +kernel))⟩

end Runs

end AutobricksVpn
