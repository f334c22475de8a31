/-
# `AutobricksVpn.Server.Usage` — the counters of a session

What `bytes_tx`, `packets_tx`, `bytes_rx` and `packets_rx` count, in terms of
the life of the session.  A session writes packets of the tunnel and control
frames (`Tally.queued`), and counts both; it counts a received packet before
TUN is asked to take it.  So

    packets_tx  =  packets written + control frames written
    packets_rx  =  packets offered to TUN

up to saturation (`Tally`), and the counters are those of the tunnel traffic
exactly when no control frame was written and TUN took what it was offered, or
a counter is at its limit anyway (`usage_counts_traffic_iff`).
-/
import AutobricksVpn.Server.Shifts

namespace AutobricksVpn

/-! ## Saturating sums -/

/-- The greatest value of a counter. -/
def COUNTER_MAX : Nat := UInt64.size - 1

theorem saturatingAdd_eq (a b : Nat) : saturatingAdd a b = min (a + b) COUNTER_MAX := rfl

/-- Adding up step by step is adding up the whole, for every measure of lists. -/
theorem foldl_saturatingAdd {α : Type} (f : α → Nat) (total : List α → Nat) (hnil : total [] = 0)
    (hcons : ∀ x l, total (x :: l) = f x + total l) :
    ∀ (l : List α) (n : Nat), l.foldl (fun n x => saturatingAdd n (f x)) (min n COUNTER_MAX) =
      min (n + total l) COUNTER_MAX := by
  intro l
  induction l with
  | nil => exact fun n => by rw [hnil]; rfl
  | cons x l ih =>
      intro n
      have hstep : saturatingAdd (min n COUNTER_MAX) (f x) = min (n + f x) COUNTER_MAX := by
        rw [saturatingAdd_eq]
        omega
      rw [List.foldl_cons, hstep, ih, hcons, Nat.add_assoc]

/-! ## What a life shows -/

def Observation.written? : Observation → Option Packet
  | .written _ packet => some packet
  | _ => none

def Observation.offered? : Observation → Option Packet
  | .logged (.tunWrite _ packet) => some packet
  | _ => none

def Observation.delivered? : Observation → Option Packet
  | .delivered _ packet => some packet
  | _ => none

/-- The control messages of the server. -/
def controlFrames : List Packet := [AUTH_REQUIRED, AUTH_OK, AUTH_FAILED, KEEPALIVE_PACKET]

/-- A packet of the tunnel. -/
def isTunnelPacket (packet : Packet) : Bool := (ipv4PacketAddresses packet).isSome

/-- The messages that were completely written. -/
def written (log : List Observation) : List Packet := log.filterMap Observation.written?

/-- The packets of the tunnel among them. -/
def tunnelWritten (log : List Observation) : List Packet := (written log).filter isTunnelPacket

/-- The control frames among them. -/
def controlWritten (log : List Observation) : List Packet :=
  (written log).filter fun packet => controlFrames.contains packet

/-- The packets of the client that were offered to TUN, and those it took. -/
def offered (log : List Observation) : List Packet := log.filterMap Observation.offered?

def delivered (log : List Observation) : List Packet := log.filterMap Observation.delivered?

/-- How much a list of packets is, as the counters of 64 bits say it. -/
structure Usage where
  packets : Nat
  bytes : Nat
  deriving DecidableEq

def usageOf (packets : List Packet) : Usage :=
  { packets := min packets.length COUNTER_MAX
    bytes := min packets.flatten.length COUNTER_MAX }

/-- The counters a session reports. -/
def Session.sentUsage (x : Session) : Usage := { packets := x.packetsTx, bytes := x.bytesTx }
def Session.receivedUsage (x : Session) : Usage := { packets := x.packetsRx, bytes := x.bytesRx }

/-- The counters are those of the tunnel traffic. -/
structure CountsTraffic (log : List Observation) (x : Session) : Prop where
  sent : x.sentUsage = usageOf (tunnelWritten log)
  received : x.receivedUsage = usageOf (delivered log)

/-! ## The tally -/

/-- A message that the server queues. -/
def Sendable (packet : Packet) : Prop := packet ∈ controlFrames ∨ isTunnelPacket packet = true

/-- What the counters of an account count. -/
structure Tally (log : List Observation) (α : Account) : Prop where
  sent : (⟨α.packetsTx, α.bytesTx⟩ : Usage) = usageOf (written log)
  received : (⟨α.packetsRx, α.bytesRx⟩ : Usage) = usageOf (offered log)
  queued : ∀ m ∈ α.rawTxQueue.items, Sendable m.1
  sendable : ∀ packet ∈ written log, Sendable packet
  tunnel : ∀ packet ∈ offered log, isTunnelPacket packet = true
  taken : (delivered log).Sublist (offered log)

/-- Nothing is written, offered or taken. -/
structure Uncounted (log : List Observation) : Prop where
  written : written log = []
  offered : offered log = []
  delivered : delivered log = []

section Tallies

variable {cfg : ServerConfig} {rules : Rules} {now : Instant} {s : ServerState} {a : Action}
  {α α' : Account} {l log : List Observation} {packet : Packet}

theorem written_append : written (l ++ log) = written l ++ written log := List.filterMap_append

theorem offered_append : offered (l ++ log) = offered l ++ offered log := List.filterMap_append

theorem delivered_append : delivered (l ++ log) = delivered l ++ delivered log :=
  List.filterMap_append

theorem usageOf_append (packets packets' : List Packet) :
    usageOf (packets ++ packets') =
      { packets := packets'.foldl (fun n _ => saturatingAdd n 1) (usageOf packets).packets
        bytes := packets'.foldl (fun n packet => saturatingAdd n packet.length)
          (usageOf packets).bytes } := by
  have hpackets := foldl_saturatingAdd (fun _ : Packet => 1) List.length rfl
    (fun x l => List.length_cons.trans (Nat.add_comm _ _)) packets' packets.length
  have hbytes := foldl_saturatingAdd List.length (fun l : List Packet => l.flatten.length) rfl
    (fun x l => by rw [List.flatten_cons, List.length_append]) packets' packets.flatten.length
  unfold usageOf
  dsimp only
  rw [hpackets, hbytes, List.length_append, List.flatten_append, List.length_append]

theorem Tally.uncounted :
    Tally l α → Uncounted log → α'.packetsTx = α.packetsTx → α'.bytesTx = α.bytesTx →
    α'.packetsRx = α.packetsRx → α'.bytesRx = α.bytesRx →
    (∀ m ∈ α'.rawTxQueue.items, Sendable m.1) → Tally (l ++ log) α' := by
  intro h hnone hpt hbt hpr hbr hqueued
  have hwritten : written (l ++ log) = written l := by
    rw [written_append, hnone.written, List.append_nil]
  have hoffered : offered (l ++ log) = offered l := by
    rw [offered_append, hnone.offered, List.append_nil]
  have hdelivered : delivered (l ++ log) = delivered l := by
    rw [delivered_append, hnone.delivered, List.append_nil]
  refine ⟨?_, ?_, hqueued, ?_, ?_, ?_⟩
  · rw [hpt, hbt, hwritten]
    exact h.sent
  · rw [hpr, hbr, hoffered]
    exact h.received
  · rw [hwritten]
    exact h.sendable
  · rw [hoffered]
    exact h.tunnel
  · rw [hoffered, hdelivered]
    exact h.taken

/-- A message that may be sent is queued. -/
theorem Tally.queues {e : Entry} {t : Instant} :
    Tally l α → Uncounted log → Sendable packet →
    Tally (l ++ log)
      (({ α with entry := e, lastActivity := t } : Account).queues now packet) := by
  intro h hnone hpacket
  refine h.uncounted hnone rfl rfl rfl rfl fun m hm => ?_
  rcases pushIgnore_items hm with hm | rfl
  · exact h.queued m hm
  · exact hpacket

/-- Messages of the queue are written. -/
theorem Tally.writes {packets : List Packet} {queue : Queue (Packet × Instant)} :
    Tally l α → queue.items ⊆ α.rawTxQueue.items →
    (∀ packet ∈ packets, ∃ t, (packet, t) ∈ α.rawTxQueue.items) → written log = packets →
    offered log = [] → delivered log = [] → Tally (l ++ log) (α.writes now packets queue) := by
  intro h hsub hmem hwritten hoffered hdelivered
  have hsent := h.sent
  refine ⟨?_, ?_, fun m hm => h.queued m (hsub hm), ?_, ?_, ?_⟩
  · rw [written_append, hwritten, usageOf_append, ← hsent]
    rfl
  · rw [offered_append, hoffered, List.append_nil]
    exact h.received
  · intro packet hpacket
    rw [written_append, hwritten] at hpacket
    rcases List.mem_append.mp hpacket with hpacket | hpacket
    · exact h.sendable packet hpacket
    · obtain ⟨t, ht⟩ := hmem packet hpacket
      exact h.queued _ ht
  · rw [offered_append, hoffered, List.append_nil]
    exact h.tunnel
  · rw [offered_append, delivered_append, hoffered, hdelivered, List.append_nil, List.append_nil]
    exact h.taken

/-- A packet is counted and offered to TUN, which takes it or not. -/
theorem Tally.counts {t : Instant} :
    Tally l α → isTunnelPacket packet = true → written log = [] → offered log = [packet] →
    (delivered log).Sublist [packet] →
    Tally (l ++ log) ({ α.counts packet with lastActivity := t } : Account) := by
  intro h hpacket hwritten hoffered hdelivered
  have hreceived := h.received
  refine ⟨?_, ?_, h.queued, ?_, ?_, ?_⟩
  · rw [written_append, hwritten, List.append_nil]
    exact h.sent
  · rw [offered_append, hoffered, usageOf_append, ← hreceived]
    rfl
  · rw [written_append, hwritten, List.append_nil]
    exact h.sendable
  · intro p hp
    rw [offered_append, hoffered] at hp
    rcases List.mem_append.mp hp with hp | hp
    · exact h.tunnel p hp
    · rw [List.mem_singleton.mp hp]
      exact hpacket
  · rw [offered_append, delivered_append, hoffered]
    exact h.taken.append hdelivered

theorem handshakeAnswer_sendable (rules : Rules) (address : Ipv4Addr) :
    Sendable (handshakeAnswer rules address) := by
  unfold handshakeAnswer
  split
  · exact .inl (by simp [controlFrames])
  · exact .inl (by simp [controlFrames])

theorem written_map (packets : List Packet) (n : Nat) :
    written (packets.map (.written n)) = packets ∧ offered (packets.map (.written n)) = [] ∧
      delivered (packets.map (.written n)) = [] := by
  refine ⟨?_, ?_, ?_⟩
  · rw [written, List.filterMap_map]
    exact List.filterMap_some
  · refine List.filterMap_eq_nil_iff.mpr fun o ho => ?_
    obtain ⟨packet, -, rfl⟩ := List.mem_map.mp ho
    rfl
  · refine List.filterMap_eq_nil_iff.mpr fun o ho => ?_
    obtain ⟨packet, -, rfl⟩ := List.mem_map.mp ho
    rfl

theorem Change.tally : Change cfg rules now α α' log → Tally l α → Tally (l ++ log) α' := by
  intro hc h
  cases hc with
  | @wrote packets queue hsub hmem =>
      obtain ⟨hwritten, hoffered, hdelivered⟩ := written_map packets α.entry.serial
      exact h.writes hsub.subset hmem hwritten hoffered hdelivered
  | routed _ _ hroutable =>
      obtain ⟨destination, hdestination, -⟩ := hroutable
      obtain ⟨source, haddresses⟩ := ipv4Destination_some hdestination
      refine h.queues ⟨rfl, rfl, rfl⟩ (.inr ?_)
      rw [isTunnelPacket, haddresses]
      rfl
  | read _ => exact h.uncounted ⟨rfl, rfl, rfl⟩ rfl rfl rfl rfl h.queued
  | keepalive _ _ => exact h.queues ⟨rfl, rfl, rfl⟩ (.inl (by simp [controlFrames]))
  | delivered _ _ hsome => exact h.counts hsome rfl rfl (List.Sublist.refl _)
  | undelivered _ _ hsome => exact h.counts hsome rfl rfl (List.nil_sublist _)
  | loggedIn _ _ _ _ => exact h.queues ⟨rfl, rfl, rfl⟩ (.inl (by simp [controlFrames]))
  | loginRejected _ _ _ _ => exact h.queues ⟨rfl, rfl, rfl⟩ (.inl (by simp [controlFrames]))
  | @established x y c _ _ _ =>
      refine h.queues ?_ (handshakeAnswer_sendable rules c.address)
      cases x.entry.authenticated <;> exact ⟨rfl, rfl, rfl⟩

/-- A session that is dropped reports the counters it had. -/
theorem Leave.tally :
    Leave cfg s a α log → Tally l α → (∀ x, .logged (.dropped x) ∉ l) →
    ∀ x, .logged (.dropped x) ∈ l ++ log → Tally (l ++ log) x.account := by
  intro hleave h hstays x hx
  rcases List.mem_append.mp hx with hx | hx
  · exact absurd hx (hstays x)
  · cases hleave with
    | dropped =>
        cases List.mem_singleton.mp hx
        exact h.uncounted ⟨rfl, rfl, rfl⟩ rfl rfl rfl rfl h.queued
    | @refused _ y z c _ _ _ hz =>
        rcases List.mem_pair.mp hx with heq | heq
        · cases heq
        · cases heq
          rw [hz]
          exact h.queues ⟨rfl, rfl, rfl⟩ (handshakeAnswer_sendable s.rules c.address)

theorem lived_tally :
    Lived cfg s a (fun l α => Tally l α ∧ ∀ x, .logged (.dropped x) ∉ l)
      (fun l => ∀ x, .logged (.dropped x) ∈ l → Tally l x.account) := by
  refine ⟨fun n peer peerSize => ⟨⟨rfl, rfl, ?_, ?_, ?_, List.Sublist.refl _⟩, ?_⟩, ?_, ?_⟩
  · exact fun _ hm => absurd hm List.not_mem_nil
  · exact fun _ hm => absurd hm List.not_mem_nil
  · exact fun _ hm => absurd hm List.not_mem_nil
  · intro x hx
    cases List.mem_singleton.mp hx
  · intro α α' l log hc h
    refine ⟨hc.tally h.1, fun x hx => ?_⟩
    rcases List.mem_append.mp hx with hx | hx
    · exact h.2 x hx
    · exact hc.not_dropped x hx
  · intro α l log hleave h
    exact hleave.tally h.1 h.2

end Tallies

/-! ## When the counters are those of the traffic -/

section Traffic

variable {packets packets' : List Packet} {log : List Observation} {x : Session}

theorem usageOf_perm : packets.Perm packets' → usageOf packets = usageOf packets' := by
  intro h
  rw [usageOf, usageOf, h.length_eq, h.flatten.length_eq]

theorem length_le_bytes : (∀ p ∈ packets, p ≠ []) → packets.length ≤ packets.flatten.length := by
  induction packets with
  | nil => exact fun _ => Nat.le_refl _
  | cons p packets ih =>
      intro h
      have hp := List.length_pos_of_ne_nil (h p List.mem_cons_self)
      have hrest := ih fun q hq => h q (List.mem_cons_of_mem p hq)
      rw [List.length_cons, List.flatten_cons, List.length_append]
      omega

/-- More packets are more usage, unless the counter is at its limit. -/
theorem usageOf_append_eq_iff :
    (∀ p ∈ packets, p ≠ []) →
    (usageOf (packets ++ packets') = usageOf packets ↔
      packets' = [] ∨ COUNTER_MAX ≤ packets.length) := by
  intro hne
  have hbytes := length_le_bytes hne
  constructor
  · intro h
    have hpackets := congrArg Usage.packets h
    simp only [usageOf, List.length_append] at hpackets
    by_cases hfull : COUNTER_MAX ≤ packets.length
    · exact .inr hfull
    · refine .inl (List.length_eq_zero_iff.mp ?_)
      omega
  · rintro (rfl | hfull)
    · rw [List.append_nil]
    · simp only [usageOf, List.length_append, List.flatten_append, Usage.mk.injEq]
      omega

theorem ne_nil_of_isTunnelPacket {packet : Packet} : isTunnelPacket packet = true → packet ≠ [] := by
  rintro h rfl
  exact absurd h (by decide)

theorem controlWritten_eq (h : ∀ packet ∈ written log, Sendable packet) :
    controlWritten log = (written log).filter fun packet => !isTunnelPacket packet := by
  refine List.filter_congr fun packet hp => ?_
  have hcontrol : ∀ frame ∈ controlFrames, isTunnelPacket frame = false := by decide
  rcases h packet hp with hmem | htunnel
  · rw [hcontrol packet hmem]
    exact List.contains_iff_mem.mpr hmem
  · have hnot : packet ∉ controlFrames := fun hmem =>
      absurd (htunnel.symm.trans (hcontrol packet hmem)) (by decide)
    rw [htunnel]
    exact eq_false_of_ne_true fun hmem => hnot (List.contains_iff_mem.mp hmem)

theorem Tally.counts_iff :
    Tally log x.account →
    (CountsTraffic log x ↔
      (controlWritten log = [] ∨ COUNTER_MAX ≤ (tunnelWritten log).length) ∧
      (offered log = delivered log ∨ COUNTER_MAX ≤ (delivered log).length)) := by
  intro h
  have hsplit : (tunnelWritten log ++ controlWritten log).Perm (written log) := by
    rw [controlWritten_eq h.sendable]
    exact List.filter_append_perm _ _
  have hsent : x.sentUsage = usageOf (tunnelWritten log ++ controlWritten log) := by
    rw [usageOf_perm hsplit]
    exact h.sent
  obtain ⟨refused, hrefused⟩ := h.taken.exists_perm_append
  have hreceived : x.receivedUsage = usageOf (delivered log ++ refused) := by
    rw [← usageOf_perm hrefused]
    exact h.received
  have htunnel : ∀ p ∈ tunnelWritten log, p ≠ [] := fun p hp =>
    ne_nil_of_isTunnelPacket (List.mem_filter.mp hp).2
  have hdelivered : ∀ p ∈ delivered log, p ≠ [] := fun p hp =>
    ne_nil_of_isTunnelPacket (h.tunnel p (h.taken.subset hp))
  have hall : refused = [] ↔ offered log = delivered log := by
    constructor
    · rintro rfl
      rw [List.append_nil] at hrefused
      exact (h.taken.eq_of_length hrefused.length_eq.symm).symm
    · intro heq
      have hlength := hrefused.length_eq
      rw [heq, List.length_append] at hlength
      exact List.length_eq_zero_iff.mp (by omega)
  rw [← usageOf_append_eq_iff htunnel, ← hall, ← usageOf_append_eq_iff hdelivered, ← hsent,
    ← hreceived]
  exact ⟨fun hcounts => ⟨hcounts.sent, hcounts.received⟩, fun hboth => ⟨hboth.1, hboth.2⟩⟩

end Traffic

section Runs

variable {cfg : ServerConfig} {rules : Rules} {as : List Action} {log : List Observation}
  {s : ServerState}

/-- **Usage.**  Whenever a session is dropped, in the run or at its end, its
counters are those of the tunnel traffic exactly when none of its control
frames was written and TUN took every packet of it, up to saturation. -/
theorem usage_counts_traffic_iff :
    (observedServer cfg rules).Run Machine.Free as log s →
    ∀ x, .logged (.dropped x) ∈ log ∨ x ∈ s.sessions →
    (CountsTraffic (life x.serial log) x ↔
      (controlWritten (life x.serial log) = [] ∨
        COUNTER_MAX ≤ (tunnelWritten (life x.serial log)).length) ∧
      (offered (life x.serial log) = delivered (life x.serial log) ∨
        COUNTER_MAX ≤ (delivered (life x.serial log)).length)) := by
  intro hr x hx
  have hliving := Run.living hr (fun _ _ _ => lived_tally) fun _ hmem => absurd hmem List.not_mem_nil
  rcases hx with hx | hx
  · have hmem : .logged (.dropped x) ∈ life x.serial log :=
      List.mem_filter.mpr ⟨hx, beq_self_eq_true _⟩
    by_cases hn : ∃ y ∈ s.sessions, y.serial = x.serial
    · obtain ⟨y, hy, hserial⟩ := hn
      have hstays := (hliving.session hy).2
      rw [hserial] at hstays
      exact absurd hmem (hstays x)
    · exact (hliving.gone (fun y hy heq => hn ⟨y, hy, heq⟩) x hmem).counts_iff
  · exact (hliving.session hx).1.counts_iff

end Runs

/-! ## `AUTH_OK` is counted -/

namespace Sample

/-- What a run of the small server shows. -/
def observed (as : List Action) : ServerState × List Observation :=
  (observedServer config (rules none)).outcome (fun _ _ => true) as

/-- A client without a login connects, is sent `AUTH_OK`, and is disconnected. -/
def shortVisit : List Action :=
  turn silent 1 true ++
    [.encrypt (.flush fun _ => [⟨.ok (.complete AUTH_OK.length), []⟩]),
      .control (.pass [.disconnect address] fun _ => ⟨⟨.ok (), []⟩, 0⟩)]

/-- A client connects and sends two packets, and a packet for it waits behind `AUTH_OK`. -/
def visit : List Action :=
  turn silent 1 true ++ turn silent 1 false ++ turn (delivers 0 (fromHost 2)) 1 false ++
    turn (delivers 0 (fromHost 2)) 1 false ++ routed (toHost 2)

/-- It is disconnected before anything is written to it. -/
def unwritten : List Action :=
  visit ++ [.control (.pass [.disconnect address] fun _ => ⟨⟨.ok (), []⟩, 0⟩)]

/-- Both messages are written to it first. -/
def longVisit : List Action :=
  visit ++ [.encrypt (.flush fun _ =>
      [⟨.ok (.complete AUTH_OK.length), []⟩, ⟨.ok (.complete (toHost 2).length), []⟩]),
    .control (.pass [.disconnect address] fun _ => ⟨⟨.ok (), []⟩, 0⟩)]

/-- The sessions that were dropped. -/
def departed (log : List Observation) : List Session :=
  log.filterMap fun o => match o with
    | .logged (.dropped x) => some x
    | _ => none

end Sample

theorem run_observed {as : List Action} :
    ((observedServer Sample.config (Sample.rules none)).exec (fun _ _ => true) as).isSome = true →
    (observedServer Sample.config (Sample.rules none)).Run Machine.Free as (Sample.observed as).2
      (Sample.observed as).1 :=
  Machine.run_outcome fun _ _ _ => trivial

theorem mem_departed {log : List Observation} {x : Session} :
    x ∈ Sample.departed log → .logged (.dropped x) ∈ log := by
  intro hx
  obtain ⟨o, ho, heq⟩ := List.mem_filterMap.mp hx
  split at heq
  · rwa [← Option.some.inj heq]
  · cases heq

/-- What the runs show of the session that is dropped. -/
theorem exists_departed (as : List Action) (P : List Observation → Session → Bool)
    (h : (Sample.departed (Sample.observed as).2).any
      (fun x => P (life x.serial (Sample.observed as).2) x) = true) :
    ∃ x, .logged (.dropped x) ∈ (Sample.observed as).2 ∧
      P (life x.serial (Sample.observed as).2) x = true := by
  obtain ⟨x, hx, hP⟩ := List.any_eq_true.mp h
  exact ⟨x, mem_departed hx, hP⟩

/-- Two packets delivered and nothing written are counted as they are; with a packet
written behind `AUTH_OK` the counters are those of two packets. -/
theorem usage_counts_traffic_iff_turn :
    (∃ x, .logged (.dropped x) ∈ (Sample.observed Sample.unwritten).2 ∧
      delivered (life x.serial (Sample.observed Sample.unwritten).2) =
        [Sample.fromHost 2, Sample.fromHost 2] ∧
      CountsTraffic (life x.serial (Sample.observed Sample.unwritten).2) x) ∧
    ∃ x, .logged (.dropped x) ∈ (Sample.observed Sample.longVisit).2 ∧
      tunnelWritten (life x.serial (Sample.observed Sample.longVisit).2) = [Sample.toHost 2] ∧
      ¬ CountsTraffic (life x.serial (Sample.observed Sample.longVisit).2) x := by
  constructor
  · obtain ⟨x, hx, hdecide⟩ := exists_departed Sample.unwritten
      (fun log _ => decide (delivered log = [Sample.fromHost 2, Sample.fromHost 2] ∧
        controlWritten log = [] ∧ offered log = delivered log)) (by decide +kernel)
    obtain ⟨hdelivered, hcontrol, htaken⟩ := of_decide_eq_true hdecide
    exact ⟨x, hx, hdelivered, (usage_counts_traffic_iff (run_observed (by decide +kernel)) x
      (.inl hx)).mpr ⟨.inl hcontrol, .inl htaken⟩⟩
  · obtain ⟨x, hx, hdecide⟩ := exists_departed Sample.longVisit
      (fun log _ => decide (tunnelWritten log = [Sample.toHost 2] ∧
        controlWritten log = [AUTH_OK])) (by decide +kernel)
    obtain ⟨htunnel, hcontrol⟩ := of_decide_eq_true hdecide
    refine ⟨x, hx, htunnel, fun hcounts => ?_⟩
    have hexact := ((usage_counts_traffic_iff (run_observed (by decide +kernel)) x
      (.inl hx)).mp hcounts).1
    rw [hcontrol, htunnel] at hexact
    rcases hexact with hnone | hfull
    · cases hnone
    · exact absurd hfull (by decide)

/-- The only message written to the client is `AUTH_OK`, and its session
reports one packet of 13 bytes. -/
theorem auth_ok_is_counted :
    ∃ as log s, (observedServer Sample.config (Sample.rules none)).Run Machine.Free as log s ∧
      ∃ x, .logged (.dropped x) ∈ log ∧ written (life x.serial log) = [AUTH_OK] ∧
        x.sentUsage = ⟨1, 13⟩ ∧ ¬ CountsTraffic (life x.serial log) x := by
  refine ⟨Sample.shortVisit, _, _, run_observed (by decide +kernel), ?_⟩
  obtain ⟨x, hx, hdecide⟩ := exists_departed Sample.shortVisit
    (fun log x => decide (written log = [AUTH_OK] ∧ x.sentUsage = ⟨1, 13⟩)) (by decide +kernel)
  obtain ⟨hwritten, husage⟩ := of_decide_eq_true hdecide
  refine ⟨x, hx, hwritten, husage, fun hcounts => ?_⟩
  have hsent := hcounts.sent
  rw [husage, tunnelWritten, hwritten] at hsent
  exact absurd hsent (by decide +kernel)

end AutobricksVpn
