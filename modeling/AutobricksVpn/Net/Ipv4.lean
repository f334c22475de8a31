/-
# `AutobricksVpn.Net.Ipv4` — addresses, packets and socket addresses

What the server looks at in a tunnelled packet (`ipv4_packet_addresses` and
the destination of it), which destinations are not unicast
(`ipv4_is_broadcast`, `is_multicast`), and what it looks at in a peer
(`same_peer`, `peer_ipv4`).

A packet is read only when version, header length and total length agree with
the bytes at hand:

    20 ≤ 4·IHL ≤ total length = |packet|        (`ipv4PacketAddresses_some`)
-/

namespace AutobricksVpn

abbrev Packet := List UInt8

abbrev Ipv4Addr := BitVec 32

/-- A point of the monotonic clock and a span of it, in nanoseconds. -/
abbrev Instant := Nat

abbrev Duration := Nat

def Duration.fromSecs (seconds : Nat) : Duration := seconds * 1000000000

/-- `Duration::MAX`: `u64::MAX` seconds, and all the nanoseconds. -/
def Duration.MAX : Duration := Duration.fromSecs 18446744073709551615 + 999999999

/-- The last point of the clock: its seconds are an `i64`. -/
def INSTANT_MAX : Instant := Duration.fromSecs 9223372036854775807 + 999999999

/-- `Instant + Duration`, which panics when the clock has no such point. -/
def instantAdd (now : Instant) (duration : Duration) : Option Instant :=
  if now + duration ≤ INSTANT_MAX then some (now + duration) else none

namespace Ipv4Addr

/-- `Ipv4Addr::new`, most significant octet first. -/
def new (a b c d : UInt8) : Ipv4Addr :=
  a.toBitVec ++ b.toBitVec ++ c.toBitVec ++ d.toBitVec

/-- `Ipv4Addr::UNSPECIFIED`. -/
def unspecified : Ipv4Addr := 0

/-- `Ipv4Addr::BROADCAST`. -/
def broadcast : Ipv4Addr := BitVec.allOnes 32

/-- `is_multicast`: the first octet is 224 to 239. -/
def isMulticast (address : Ipv4Addr) : Bool :=
  224 ≤ (address >>> 24).toNat && (address >>> 24).toNat ≤ 239

end Ipv4Addr

/-- Eight bits of an address. -/
def Ipv4Addr.octet (address : Ipv4Addr) (shift : Nat) : UInt8 :=
  UInt8.ofBitVec (address.extractLsb' shift 8)

theorem new_octets (address : Ipv4Addr) :
    Ipv4Addr.new (address.octet 24) (address.octet 16) (address.octet 8) (address.octet 0) = address := by
  unfold Ipv4Addr.new Ipv4Addr.octet
  dsimp only
  rw [BitVec.extractLsb'_append_extractLsb'_eq_extractLsb' (by rfl),
    BitVec.extractLsb'_append_extractLsb'_eq_extractLsb' (by rfl),
    BitVec.extractLsb'_append_extractLsb'_eq_extractLsb' (by rfl)]
  exact BitVec.extractLsb'_eq_self

/-- `u16::from_be_bytes`. -/
def u16FromBeBytes (hi lo : UInt8) : Nat := hi.toNat * 256 + lo.toNat

/-- Byte `i` of a packet; every use is guarded by a length check, as in the source. -/
def byteAt (packet : Packet) (i : Nat) : UInt8 := packet.getD i 0

/-- Source and destination, when the header describes exactly the bytes at hand. -/
def ipv4PacketAddresses (packet : Packet) : Option (Ipv4Addr × Ipv4Addr) :=
  if packet.length < 20 ∨ byteAt packet 0 >>> 4 ≠ 4 then none
  else
    let headerLength := (byteAt packet 0 &&& 0x0f).toNat * 4
    if headerLength < 20 ∨ packet.length < headerLength then none
    else
      let totalLength := u16FromBeBytes (byteAt packet 2) (byteAt packet 3)
      if totalLength < headerLength ∨ totalLength ≠ packet.length then none
      else
        some
          (Ipv4Addr.new (byteAt packet 12) (byteAt packet 13) (byteAt packet 14) (byteAt packet 15),
           Ipv4Addr.new (byteAt packet 16) (byteAt packet 17) (byteAt packet 18) (byteAt packet 19))

def ipv4Destination (packet : Packet) : Option Ipv4Addr :=
  (ipv4PacketAddresses packet).map (·.2)

/-- `u32::MAX << (32 - prefix)`, with 0 for the empty mask. -/
def prefixMask (prefixLen : Nat) : Ipv4Addr :=
  if prefixLen = 0 then 0 else BitVec.allOnes 32 <<< (32 - prefixLen)

def ipv4IsBroadcast (address network : Ipv4Addr) (prefixLen : Nat) : Bool :=
  if address = Ipv4Addr.broadcast then true
  else if 32 ≤ prefixLen then false
  else address == (network ||| ~~~ prefixMask prefixLen)

/-- What an accepted packet looks like: its lengths agree with its bytes. -/
theorem ipv4PacketAddresses_some {packet : Packet} {source destination : Ipv4Addr}
    (h : ipv4PacketAddresses packet = some (source, destination)) :
    20 ≤ packet.length ∧ byteAt packet 0 >>> 4 = 4 ∧
    20 ≤ (byteAt packet 0 &&& 0x0f).toNat * 4 ∧
    (byteAt packet 0 &&& 0x0f).toNat * 4 ≤ packet.length ∧
    u16FromBeBytes (byteAt packet 2) (byteAt packet 3) = packet.length := by
  unfold ipv4PacketAddresses at h
  split at h
  · exact nomatch h
  · rename_i h₁
    dsimp only at h
    split at h
    · exact nomatch h
    · rename_i h₂
      split at h
      · exact nomatch h
      · rename_i h₃
        simp only [not_or, Nat.not_lt, ne_eq, Decidable.not_not] at h₁ h₂ h₃
        exact ⟨h₁.1, h₁.2, h₂.1, h₂.2, h₃.2⟩

theorem ipv4Destination_some {packet : Packet} {destination : Ipv4Addr}
    (h : ipv4Destination packet = some destination) :
    ∃ source, ipv4PacketAddresses packet = some (source, destination) := by
  unfold ipv4Destination at h
  rcases hp : ipv4PacketAddresses packet with _ | ⟨source, d⟩ <;> rw [hp] at h
  · exact nomatch h
  · exact ⟨source, by rw [← Option.some.inj h]⟩

/-! ## Peers -/

/-- `libc::sockaddr_storage`: the fields of `sockaddr_in` and the bytes behind
them, all of which `memcmp` compares. -/
structure SockaddrStorage where
  ssFamily : UInt16
  sinPort : UInt16
  sinAddr : Ipv4Addr
  rest : List UInt8
  deriving DecidableEq

/-- `libc::AF_INET`. -/
def AF_INET : UInt16 := 2

/-- `same_peer`: `memcmp` over the whole structure. -/
def samePeer (a b : SockaddrStorage) : Bool := a == b

def peerIpv4 (peer : SockaddrStorage) : Option Ipv4Addr :=
  if peer.ssFamily ≠ AF_INET then none else some peer.sinAddr

theorem samePeer_iff {a b : SockaddrStorage} : samePeer a b = true ↔ a = b := beq_iff_eq

end AutobricksVpn
