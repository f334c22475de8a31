/-
# `AutobricksVpn.Server.Deliverable` — what a binding is good for

`validate_client_bindings` lets a client have any address of the network but the
server's.  The encrypt worker takes some of them for something else: the last
address of the network for a broadcast (from a prefix of 31 bits on downwards),
255.255.255.255 as well, and the addresses of 224.0.0.0/4 for a multicast.  A
client with one of these is never sent anything, or with everybody else.

`IsHost` says that an address is none of these, bit by bit.  Such a binding is
deliverable whatever the switches, and no other (`binding_deliverable`).
-/
import AutobricksVpn.Config.Bindings
import AutobricksVpn.Server.Invariants
import AutobricksVpn.Server.Isolation

namespace AutobricksVpn

/-! ## Hosts -/

/-- All bits from `start` on are set. -/
def OnesFrom (start : Nat) (address : Ipv4Addr) : Prop :=
  ∀ i, start ≤ i → i < 32 → address.getMsbD i = true

/-- An address of a network that is the address of a host. -/
structure IsHost (prefixLen : Nat) (address : Ipv4Addr) : Prop where
  notLimited : ¬ OnesFrom 0 address
  notDirected : prefixLen < 32 → ¬ OnesFrom prefixLen address
  notMulticast : ¬ (224 ≤ (address >>> 24).toNat ∧ (address >>> 24).toNat ≤ 239)

section Kinds

variable {address network : Ipv4Addr} {prefixLen : Nat}

theorem eq_broadcast_iff : address = Ipv4Addr.broadcast ↔ OnesFrom 0 address := by
  constructor
  · rintro rfl i - hi
    rw [Ipv4Addr.broadcast, BitVec.getMsbD_allOnes]
    exact decide_eq_true hi
  · intro h
    refine BitVec.eq_of_getMsbD_eq fun i hi => ?_
    rw [h i (Nat.zero_le i) hi, Ipv4Addr.broadcast, BitVec.getMsbD_allOnes]
    exact (decide_eq_true hi).symm

/-- Within the network, the last address is the one whose host bits are set. -/
theorem eq_last_iff (h : prefixLen ≤ 32) :
    SamePrefix prefixLen address network → network &&& prefixMask prefixLen = network →
    (address = network ||| ~~~ prefixMask prefixLen ↔ OnesFrom prefixLen address) := by
  intro hsame hnetwork
  have hlast : ∀ i < 32, (network ||| ~~~ prefixMask prefixLen).getMsbD i =
      (network.getMsbD i || !decide (i < prefixLen)) := by
    intro i hi
    rw [BitVec.getMsbD_or, BitVec.getMsbD_not, getMsbD_prefixMask h, decide_eq_true hi, Bool.true_and]
  constructor
  · rintro heq i hle hi
    rw [heq, hlast i hi, decide_eq_false (Nat.not_lt.mpr hle)]
    exact Bool.or_true _
  · intro hones
    refine BitVec.eq_of_getMsbD_eq fun i hi => ?_
    rw [hlast i hi]
    by_cases hlt : i < prefixLen
    · rw [hsame i hlt, decide_eq_true hlt]
      exact (Bool.or_false _).symm
    · rw [hones i (Nat.not_lt.mp hlt) hi, decide_eq_false hlt]
      exact (Bool.or_true _).symm

theorem ipv4IsBroadcast_iff (h : prefixLen ≤ 32) :
    SamePrefix prefixLen address network → network &&& prefixMask prefixLen = network →
    (ipv4IsBroadcast address network prefixLen = true ↔
      OnesFrom 0 address ∨ prefixLen < 32 ∧ OnesFrom prefixLen address) := by
  intro hsame hnetwork
  unfold ipv4IsBroadcast
  by_cases hall : address = Ipv4Addr.broadcast
  · rw [if_pos hall]
    exact iff_of_true rfl (.inl (eq_broadcast_iff.mp hall))
  · rw [if_neg hall, ← eq_broadcast_iff, or_iff_right hall]
    by_cases hlong : 32 ≤ prefixLen
    · rw [if_pos hlong]
      exact iff_of_false Bool.false_ne_true fun hdirected => absurd hdirected.1 (Nat.not_lt.mpr hlong)
    · rw [if_neg hlong, beq_iff_eq, eq_last_iff h hsame hnetwork]
      exact (and_iff_right (Nat.not_le.mp hlong)).symm

/-- The classification of the encrypt worker, for an address of the network. -/
theorem isHost_iff (h : prefixLen ≤ 32) :
    SamePrefix prefixLen address network → network &&& prefixMask prefixLen = network →
    (ipv4IsBroadcast address network prefixLen = false ∧ address.isMulticast = false ↔
      IsHost prefixLen address) := by
  intro hsame hnetwork
  have hmulticast : address.isMulticast = false ↔
      ¬ (224 ≤ (address >>> 24).toNat ∧ (address >>> 24).toNat ≤ 239) := by
    rw [← Bool.not_eq_true, Ipv4Addr.isMulticast, Bool.and_eq_true, decide_eq_true_eq,
      decide_eq_true_eq]
  rw [← Bool.not_eq_true, ipv4IsBroadcast_iff h hsame hnetwork, hmulticast, not_or, not_and]
  exact ⟨fun h => ⟨h.1.1, h.1.2, h.2⟩, fun h => ⟨⟨h.notLimited, h.notDirected⟩, h.notMulticast⟩⟩

end Kinds

/-! ## Deliveries -/

/-- While a client with the address is connected, a packet for it is pushed to
its session and to no other. -/
def Delivers (cfg : ServerConfig) (address : Ipv4Addr) : Prop :=
  ∀ (now : Instant) (calls : Nat → List WriteCall) (packet : Packet) (sessions : List Session),
    ipv4Destination packet = some address →
    (∃ x ∈ sessions, x.authenticated = true ∧ x.address = address) →
    ∃ i x, sessions[i]? = some x ∧ x.authenticated = true ∧ x.address = address ∧
      Deliveries now calls packet sessions (· == i) (routePacket cfg now calls packet sessions)

theorem delivers_of_unicast {cfg : ServerConfig} {address : Ipv4Addr} :
    isUnicast cfg address = true → Delivers cfg address := by
  intro hunicast now calls packet sessions hdestination hconnected
  obtain ⟨i, x, hx, hauth, haddr, hall⟩ :=
    (@recipient_meantFor cfg packet sessions).unicast address hdestination hunicast hconnected
  refine ⟨i, x, hx, hauth, haddr, ?_⟩
  have hreceives : recipient cfg packet sessions = (· == i) := by
    funext j
    exact Bool.eq_iff_iff.mpr ((hall j).trans beq_iff_eq.symm)
  rw [← hreceives]
  exact routePacket_deliveries

/-- A header without data, to the address. -/
def packetTo (address : Ipv4Addr) : Packet :=
  [0x45, 0, 0, 20, 0, 0, 0, 0, 64, 0, 0, 0, 192, 0, 2, 1,
    address.octet 24, address.octet 16, address.octet 8, address.octet 0]

theorem ipv4Destination_packetTo (address : Ipv4Addr) :
    ipv4Destination (packetTo address) = some address := by
  have haddresses : ipv4PacketAddresses (packetTo address) = some (Ipv4Addr.new 192 0 2 1,
      Ipv4Addr.new (address.octet 24) (address.octet 16) (address.octet 8) (address.octet 0)) := by
    simp [ipv4PacketAddresses, packetTo, byteAt, u16FromBeBytes]
    decide
  rw [ipv4Destination, haddresses, new_octets]
  rfl

/-- What is neither unicast nor allowed goes to nobody. -/
theorem not_delivers_of_refused {cfg : ServerConfig} {address : Ipv4Addr} :
    isAllowedWide cfg address = false → isUnicast cfg address = false → ¬ Delivers cfg address := by
  intro hwide hunicast h
  let connected : Session :=
    { Session.create 0 ⟨AF_INET, 0, 0, []⟩ 16 0 with address := address, authenticated := true }
  obtain ⟨i, x, hx, -, -, hdeliveries⟩ := h 0 (fun _ => []) (packetTo address) [connected]
    (ipv4Destination_packetTo address) ⟨connected, List.mem_singleton_self _, rfl, rfl⟩
  have hnothing : (routePacket cfg 0 (fun _ => []) (packetTo address) [connected]).2 = [] := by
    rw [routePacket_of_destination (ipv4Destination_packetTo address), hwide, hunicast]
    rfl
  have hlogged := hdeliveries.logged
  have hzero : i = 0 := by
    have hlt : i < 1 := (List.getElem?_eq_some_iff.mp hx).1
    exact Nat.lt_one_iff.mp hlt
  rw [hnothing, hzero] at hlogged
  cases hlogged

/-! ## Bindings -/

/-- The switches do not matter. -/
def ServerConfig.withSwitches (cfg : ServerConfig) (network : Ipv4Addr) (prefixLen : Nat)
    (allowBroadcast allowMulticast : Bool) : ServerConfig :=
  { cfg with
    networkAddress := network, networkPrefix := prefixLen
    allowBroadcast := allowBroadcast, allowMulticast := allowMulticast }

/-- **Deliverable bindings.**  An address that was accepted is taken for the
address of a host just when it is one, and packets for it reach its client,
whatever the switches, in just these cases. -/
theorem binding_deliverable {entries : List (Text × Text)} {serverAddress : Ipv4Addr}
    {networkText : Text} {bindings : AList fun _ : Ipv4Addr => String} {network : Ipv4Addr}
    {prefixLen : Nat} (cfg : ServerConfig) :
    validateClientBindings entries serverAddress networkText = .ok bindings →
    parseIpv4Cidr networkText = .ok (network, prefixLen) → ∀ address ∈ bindings,
    ((ipv4IsBroadcast address network prefixLen = false ∧ address.isMulticast = false) ∧
        (∀ allowBroadcast allowMulticast,
          Delivers (cfg.withSwitches network prefixLen allowBroadcast allowMulticast) address) ↔
      IsHost prefixLen address) ∧
    ((∀ allowBroadcast allowMulticast,
        Delivers (cfg.withSwitches network prefixLen allowBroadcast allowMulticast) address) ↔
      IsHost prefixLen address) := by
  intro hvalid hparse address haddress
  have hcidr := parseIpv4Cidr_ok.mp hparse
  obtain ⟨network', prefixLen', bs, hcidr', haccepted, hresult⟩ := validateClientBindings_ok.mp hvalid
  have hnetwork := (parseIpv4Cidr_ok.mpr hcidr).symm.trans (parseIpv4Cidr_ok.mpr hcidr')
  obtain ⟨rfl, rfl⟩ := Prod.mk.inj (Except.ok.inj hnetwork)
  have hinside : SamePrefix prefixLen address network := by
    obtain ⟨f, hf⟩ := Option.isSome_iff_exists.mp (AList.lookup_isSome.mpr haddress)
    have hmem := (lookup_of_entries hresult address f).mp hf
    exact (ipv4InCidr_iff hcidr.bound hcidr.canonical).mp (haccepted.inside _ hmem)
  have hkind := isHost_iff hcidr.bound hinside hcidr.canonical
  have hunicast : ∀ allowBroadcast allowMulticast,
      isUnicast (cfg.withSwitches network prefixLen allowBroadcast allowMulticast) address = true ↔
        IsHost prefixLen address := by
    intro allowBroadcast allowMulticast
    rw [← hkind, isUnicast, Bool.and_eq_true, Bool.not_eq_true', Bool.not_eq_true']
    rfl
  have hdelivers : (∀ allowBroadcast allowMulticast,
      Delivers (cfg.withSwitches network prefixLen allowBroadcast allowMulticast) address) ↔
        IsHost prefixLen address := by
    constructor
    · intro h
      by_contra hnot
      -- With both switches off nobody is served.
      refine not_delivers_of_refused ?_ ?_ (h false false)
      · rw [isAllowedWide]
        exact Bool.or_eq_false_iff.mpr ⟨Bool.and_false _, Bool.and_false _⟩
      · exact eq_false_of_ne_true fun htrue => hnot ((hunicast false false).mp htrue)
    · exact fun h _ _ => delivers_of_unicast ((hunicast _ _).mpr h)
  exact ⟨(and_congr hkind hdelivers).trans (and_self_iff), hdelivers⟩

/-! ## The last address of a network -/

namespace Sample

def networkText : Text := "10.9.1.0/24".toList

/-- One client, bound to the address. -/
def entriesFor (address : String) : List (Text × Text) := [(address.toList, fingerprint.toList)]

def bindingsFor (address : String) : Except IoError (AList fun _ : Ipv4Addr => String) :=
  validateClientBindings (entriesFor address) (Ipv4Addr.new 10 9 1 1) networkText

/-- The section is accepted, and has the address. -/
def binds (text : String) (address : Ipv4Addr) : Bool :=
  match bindingsFor text with
  | .ok bindings => (bindings.lookup address).isSome
  | .error _ => false

end Sample

theorem exists_of_binds {text : String} {address : Ipv4Addr} :
    Sample.binds text address = true →
    ∃ bindings, Sample.bindingsFor text = .ok bindings ∧ address ∈ bindings := by
  intro h
  unfold Sample.binds at h
  split at h
  · rename_i bindings hbindings
    exact ⟨bindings, hbindings, AList.lookup_isSome.mp h⟩
  · cases h

theorem binding_deliverable_host :
    ∃ bindings, Sample.bindingsFor "10.9.1.2" = .ok bindings ∧ Sample.address ∈ bindings ∧
      ∀ allowBroadcast allowMulticast, Delivers
        (Sample.config.withSwitches (Ipv4Addr.new 10 9 1 0) 24 allowBroadcast allowMulticast)
        Sample.address := by
  have hbinds : Sample.binds "10.9.1.2" Sample.address = true := by decide +kernel
  obtain ⟨bindings, hbindings, haddress⟩ := exists_of_binds hbinds
  have hnetwork : parseIpv4Cidr Sample.networkText = .ok (Ipv4Addr.new 10 9 1 0, 24) := by
    decide +kernel
  refine ⟨bindings, hbindings, haddress,
    (binding_deliverable Sample.config hbindings hnetwork _ haddress).2.mpr ⟨?_, fun _ => ?_, ?_⟩⟩
  · exact fun h => absurd (h 0 (by decide) (by decide)) (by decide)
  · exact fun h => absurd (h 24 (by decide) (by decide)) (by decide)
  · decide

/-- A client may be bound to 10.9.1.255, and is sent nothing then. -/
theorem broadcast_binding_accepted :
    ∃ bindings, Sample.bindingsFor "10.9.1.255" = .ok bindings ∧
      Ipv4Addr.new 10 9 1 255 ∈ bindings ∧
      ipv4IsBroadcast (Ipv4Addr.new 10 9 1 255) (Ipv4Addr.new 10 9 1 0) 24 = true ∧
      ¬ Delivers (Sample.config.withSwitches (Ipv4Addr.new 10 9 1 0) 24 false false)
        (Ipv4Addr.new 10 9 1 255) := by
  have hbinds : Sample.binds "10.9.1.255" (Ipv4Addr.new 10 9 1 255) = true := by decide +kernel
  obtain ⟨bindings, hbindings, haddress⟩ := exists_of_binds hbinds
  exact ⟨bindings, hbindings, haddress, by decide, not_delivers_of_refused (by decide) (by decide)⟩

end AutobricksVpn
