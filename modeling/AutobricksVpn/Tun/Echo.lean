/-
# `AutobricksVpn.Tun.Echo` — the server answers a ping to itself

`local_echo_reply` and `internet_checksum` of `src/server/tun_read.rs`, which the
reader thread calls on macOS.  Header length, total length and fragment field
come from the sender, so every index is a partial operation here, and so is
addition in 32 bits: what would stop the thread is a `Panic`.

The checksum is `OnesComplement.complement` of the sum of the 16-bit words
(`internetChecksum_eq`), as long as that sum stays below 2³²; 65535 bytes are far
from that.
-/
import AutobricksVpn.Net.Ipv4
import AutobricksVpn.Lib.OnesComplement

namespace AutobricksVpn

/-- How the code can stop. -/
inductive Panic where
  | indexOutOfBounds
  | rangeOutOfBounds
  | lengthMismatch
  | addOverflow
  deriving DecidableEq

/-! ## Operations that can panic -/

namespace Panic

/-- `packet[i]`. -/
def index (packet : Packet) (i : Nat) : Except Panic UInt8 :=
  if i < packet.length then .ok (byteAt packet i) else .error .indexOutOfBounds

/-- `packet[a..b]`. -/
def slice (packet : Packet) (a b : Nat) : Except Panic Packet :=
  if a ≤ b ∧ b ≤ packet.length then .ok ((packet.take b).drop a) else .error .rangeOutOfBounds

/-- `packet[i] = byte`. -/
def store (packet : Packet) (i : Nat) (byte : UInt8) : Except Panic Packet :=
  if i < packet.length then .ok (packet.set i byte) else .error .indexOutOfBounds

/-- `packet[a..b].copy_from_slice(bytes)`. -/
def storeSlice (packet : Packet) (a b : Nat) (bytes : Packet) : Except Panic Packet :=
  if ¬ (a ≤ b ∧ b ≤ packet.length) then .error .rangeOutOfBounds
  else if bytes.length ≠ b - a then .error .lengthMismatch
  else .ok (packet.take a ++ bytes ++ packet.drop b)

/-- `packet[a..b].fill(byte)`. -/
def fill (packet : Packet) (a b : Nat) (byte : UInt8) : Except Panic Packet :=
  storeSlice packet a b (List.replicate (b - a) byte)

/-- `u32::MAX`. -/
def U32_MAX : Nat := 0xffffffff

/-- Addition in `u32`. -/
def addU32 (a b : Nat) : Except Panic Nat :=
  if U32_MAX < a + b then .error .addOverflow else .ok (a + b)

end Panic

open Panic

/-! ## The checksum -/

/-- The loop over `data.chunks(2)`. -/
def sumChunks : List UInt8 → Nat → Except Panic Nat
  | [], sum => .ok sum
  | [hi], sum => addU32 sum (hi.toNat <<< 8 ||| 0)
  | hi :: lo :: rest, sum => do
      let sum ← addU32 sum (hi.toNat <<< 8 ||| lo.toNat)
      sumChunks rest sum

theorem foldCarries_lt {sum : Nat} (h : sum >>> 16 ≠ 0) :
    (sum &&& 0xffff) + (sum >>> 16) < sum := by
  rw [Nat.shiftRight_eq_div_pow] at h ⊢
  rw [show (0xffff : Nat) = 2 ^ 16 - 1 from rfl, Nat.and_two_pow_sub_one_eq_mod]
  exact OnesComplement.carry_lt (by decide) (Nat.le_of_not_lt fun hlt => h (Nat.div_eq_of_lt hlt))

/-- `while sum >> 16 != 0`. -/
def foldCarries (sum : Nat) : Except Panic Nat :=
  if _h : sum >>> 16 = 0 then .ok sum
  else if U32_MAX < (sum &&& 0xffff) + (sum >>> 16) then .error .addOverflow
  else foldCarries ((sum &&& 0xffff) + (sum >>> 16))
termination_by sum
decreasing_by exact foldCarries_lt _h

def internetChecksum (data : List UInt8) : Except Panic UInt16 := do
  let sum ← sumChunks data 0
  let sum ← foldCarries sum
  return ~~~ UInt16.ofNat sum

/-- The sum of the 16-bit words, with a zero byte behind an odd number of bytes. -/
def wordSum : List UInt8 → Nat
  | [] => 0
  | [hi] => u16FromBeBytes hi 0
  | hi :: lo :: rest => u16FromBeBytes hi lo + wordSum rest

theorem shiftLeft_or (hi lo : UInt8) : hi.toNat <<< 8 ||| lo.toNat = u16FromBeBytes hi lo := by
  rw [← Nat.shiftLeft_add_eq_or_of_lt lo.toNat_lt, Nat.shiftLeft_eq]
  rfl

theorem u16FromBeBytes_le (hi lo : UInt8) : u16FromBeBytes hi lo ≤ 0xffff := by
  have hhi := hi.toNat_lt
  have hlo := lo.toNat_lt
  unfold u16FromBeBytes
  omega

theorem wordSum_le (data : List UInt8) : wordSum data ≤ 0xffff * ((data.length + 1) / 2) := by
  fun_induction wordSum data with
  | case1 => exact Nat.zero_le _
  | case2 hi =>
    simpa [wordSum] using u16FromBeBytes_le hi 0
  | case3 hi lo rest ih =>
    have hword := u16FromBeBytes_le hi lo
    rw [show ((hi :: lo :: rest).length + 1) / 2 = (rest.length + 1) / 2 + 1 by
      simp only [List.length_cons]; omega]
    omega

theorem addU32_eq {a b : Nat} (h : a + b ≤ U32_MAX) : addU32 a b = .ok (a + b) :=
  if_neg (Nat.not_lt.mpr h)

theorem sumChunks_eq {data : List UInt8} {sum : Nat} (h : sum + wordSum data ≤ U32_MAX) :
    sumChunks data sum = .ok (sum + wordSum data) := by
  fun_induction sumChunks data sum with
  | case1 sum => rfl
  | case2 hi sum =>
    have hword : hi.toNat <<< 8 ||| 0 = wordSum [hi] := shiftLeft_or hi 0
    rw [hword]
    exact addU32_eq h
  | case3 hi lo rest sum ih =>
    rw [wordSum, ← Nat.add_assoc] at h
    rw [shiftLeft_or, addU32_eq (by omega), wordSum, ← Nat.add_assoc]
    exact ih _ h

theorem foldCarries_eq {sum : Nat} (h : sum ≤ U32_MAX) :
    foldCarries sum = .ok (OnesComplement.endAround 0x10000 sum) := by
  fun_induction foldCarries sum with
  | case1 sum hfits =>
    rw [Nat.shiftRight_eq_div_pow] at hfits
    rw [OnesComplement.endAround_of_lt ((Nat.div_eq_zero_iff_lt (by decide)).mp hfits)]
  | case2 sum hcarry hoverflow =>
    have := foldCarries_lt hcarry
    omega
  | case3 sum hcarry hsum ih =>
    rw [ih (Nat.not_lt.mp hsum)]
    rw [Nat.shiftRight_eq_div_pow] at hcarry ⊢
    rw [show (0xffff : Nat) = 2 ^ 16 - 1 from rfl, Nat.and_two_pow_sub_one_eq_mod]
    have hle : 0x10000 ≤ sum := Nat.le_of_not_lt fun hlt => hcarry (Nat.div_eq_of_lt hlt)
    exact congrArg _ (OnesComplement.endAround_of_le (by decide) hle).symm

theorem internetChecksum_eq {data : List UInt8} (h : wordSum data ≤ U32_MAX) :
    internetChecksum data =
      .ok (UInt16.ofNat (OnesComplement.complement 0x10000 (wordSum data))) := by
  have hsum : sumChunks data 0 = .ok (wordSum data) := by
    rw [sumChunks_eq (by rwa [Nat.zero_add]), Nat.zero_add]
  have hcompl : ~~~ UInt16.ofNat (OnesComplement.endAround 0x10000 (wordSum data)) =
      UInt16.ofNat (OnesComplement.complement 0x10000 (wordSum data)) := by
    have hlt : OnesComplement.endAround 0x10000 (wordSum data) < 0x10000 :=
      OnesComplement.endAround_lt (by decide) _
    rw [← UInt16.toNat_inj, UInt16.toNat_not, UInt16.toNat_ofNat_of_lt' hlt,
      UInt16.toNat_ofNat_of_lt' (OnesComplement.complement_lt (by decide) _)]
    rfl
  show (sumChunks data 0).bind _ = _
  rw [hsum]
  show (foldCarries (wordSum data)).bind _ = _
  rw [foldCarries_eq h]
  exact congrArg _ hcompl

/-- Where the checksum is zero the words add up to zero in one's complement, and not all of
them are zero. -/
theorem wordSum_of_internetChecksum {data : List UInt8} (hlen : data.length < 0x10000)
    (h : internetChecksum data = .ok 0) : 0 < wordSum data ∧ 0xffff ∣ wordSum data := by
  have hsum := wordSum_le data
  rw [internetChecksum_eq (by unfold U32_MAX; omega)] at h
  have hlt : OnesComplement.complement 0x10000 (wordSum data) < 0x10000 :=
    OnesComplement.complement_lt (by decide) _
  have hzero : OnesComplement.complement 0x10000 (wordSum data) = 0 := by
    rw [← UInt16.toNat_ofNat_of_lt' hlt, Except.ok.inj h]
    rfl
  have htop : OnesComplement.endAround 0x10000 (wordSum data) = 0xffff := by
    have hdigit := OnesComplement.endAround_lt (b := 0x10000) (by decide) (wordSum data)
    unfold OnesComplement.complement at hzero
    omega
  constructor
  · refine Nat.pos_of_ne_zero fun hnone => ?_
    rw [hnone, OnesComplement.endAround_of_lt (by decide)] at htop
    cases htop
  · have hmod := OnesComplement.endAround_modEq (b := 0x10000) (by decide) (wordSum data)
    rw [htop] at hmod
    exact (Nat.modEq_zero_iff_dvd).mp (hmod.symm.trans rfl)

/-! ## The reply -/

/-- `Ipv4Addr::octets`. -/
def Ipv4Addr.octets (address : Ipv4Addr) : List UInt8 :=
  [address.octet 24, address.octet 16, address.octet 8, address.octet 0]

/-- `u16::to_be_bytes`. -/
def u16ToBeBytes (x : UInt16) : List UInt8 := [UInt8.ofNat (x.toNat / 256), UInt8.ofNat x.toNat]

theorem u16FromBeBytes_toBeBytes (x : UInt16) :
    u16FromBeBytes (UInt8.ofNat (x.toNat / 256)) (UInt8.ofNat x.toNat) = x.toNat := by
  have hlt := x.toNat_lt
  rw [u16FromBeBytes, UInt8.toNat_ofNat_of_lt' (by rw [UInt8.size]; omega), UInt8.toNat_ofNat']
  omega

/-- **A checksum checks.**  Where the two checksum bytes were zero, the sum of
the words with the checksum in them has the checksum zero. -/
theorem internetChecksum_insert {a b : UInt8} {rest : List UInt8} (h : rest.length < 0x10000) :
    ∃ checksum, internetChecksum (a :: b :: 0 :: 0 :: rest) = .ok checksum ∧
      internetChecksum (a :: b :: (u16ToBeBytes checksum ++ rest)) = .ok 0 := by
  have hrest := wordSum_le rest
  have hword := u16FromBeBytes_le a b
  have hsum : wordSum (a :: b :: 0 :: 0 :: rest) = u16FromBeBytes a b + wordSum rest :=
    congrArg _ (Nat.zero_add _)
  refine ⟨_, internetChecksum_eq (by rw [hsum]; unfold U32_MAX; omega), ?_⟩
  rw [hsum]
  generalize hn : u16FromBeBytes a b + wordSum rest = n
  have hlt : OnesComplement.complement 0x10000 n < 0x10000 :=
    OnesComplement.complement_lt (by decide) n
  have hinsert : wordSum (a :: b ::
      (u16ToBeBytes (UInt16.ofNat (OnesComplement.complement 0x10000 n)) ++ rest)) =
      n + OnesComplement.complement 0x10000 n := by
    show u16FromBeBytes a b + (u16FromBeBytes _ _ + wordSum rest) = _
    rw [u16FromBeBytes_toBeBytes, UInt16.toNat_ofNat_of_lt' hlt]
    omega
  rw [internetChecksum_eq (by rw [hinsert]; unfold U32_MAX; omega), hinsert,
    OnesComplement.complement_add_self (by decide)]
  rfl

def localEchoReply (packet : Packet) (address : Ipv4Addr) : Except Panic (Option Packet) := do
  if packet.length < 28 then return none
  if (← index packet 0) >>> 4 ≠ 4 then return none
  if (← index packet 9) ≠ 1 then return none
  let headerLen := ((← index packet 0) &&& 0x0f).toNat * 4
  let totalLen := u16FromBeBytes (← index packet 2) (← index packet 3)
  if headerLen < 20 ∨ totalLen < headerLen + 8 ∨ packet.length < totalLen then return none
  if u16FromBeBytes (← index packet 6) (← index packet 7) &&& 0x3fff ≠ 0 then return none
  let selfAddress := address.octets
  if (← slice packet 12 16) ≠ selfAddress then return none
  if (← slice packet 16 20) ≠ selfAddress then return none
  if (← index packet headerLen) ≠ 8 then return none
  if (← index packet (headerLen + 1)) ≠ 0 then return none
  let reply ← slice packet 0 totalLen
  let reply ← store reply headerLen 0
  let reply ← fill reply (headerLen + 2) (headerLen + 4) 0
  let checksum ← internetChecksum (← slice reply headerLen reply.length)
  let reply ← storeSlice reply (headerLen + 2) (headerLen + 4) (u16ToBeBytes checksum)
  return some reply

/-! ## Where no index is out of bounds -/

theorem index_eq {packet : Packet} {i : Nat} (h : i < packet.length) :
    index packet i = .ok (byteAt packet i) := if_pos h

theorem slice_four {packet : Packet} {a : Nat} (h : a + 4 ≤ packet.length) :
    slice packet a (a + 4) =
      .ok [byteAt packet a, byteAt packet (a + 1), byteAt packet (a + 2), byteAt packet (a + 3)] := by
  have hbyte {i : Nat} (hi : i < packet.length) : packet[i] = byteAt packet i := by
    rw [byteAt, List.getD_eq_getElem?_getD, List.getElem?_eq_getElem hi, Option.getD_some]
  rw [slice, if_pos ⟨by omega, h⟩, List.drop_take, Nat.add_sub_cancel_left,
    List.drop_eq_getElem_cons (by omega), List.drop_eq_getElem_cons (by omega),
    List.drop_eq_getElem_cons (by omega), List.drop_eq_getElem_cons (by omega),
    hbyte, hbyte, hbyte, hbyte]
  rfl

theorem slice_append (front rest : Packet) :
    slice (front ++ rest) front.length (front ++ rest).length = .ok rest := by
  rw [slice, if_pos ⟨by rw [List.length_append]; omega, Nat.le_refl _⟩, List.take_length,
    List.drop_left]

theorem store_append (front rest : Packet) (old new : UInt8) :
    store (front ++ old :: rest) front.length new = .ok (front ++ new :: rest) := by
  rw [store, if_pos (by rw [List.length_append, List.length_cons]; omega), List.set_append_right _ _
    (Nat.le_refl _), Nat.sub_self, List.set_cons_zero]

/-- The two bytes of the checksum. -/
theorem storeSlice_append (front rest : Packet) (a b c d hi lo : UInt8) :
    storeSlice (front ++ a :: b :: c :: d :: rest) (front.length + 2) (front.length + 4) [hi, lo] =
      .ok (front ++ a :: b :: hi :: lo :: rest) := by
  have hbounds : front.length + 2 ≤ front.length + 4 ∧
      front.length + 4 ≤ (front ++ a :: b :: c :: d :: rest).length := by
    simp only [List.length_append, List.length_cons]
    omega
  rw [storeSlice, if_neg (not_not_intro hbounds), if_neg (by rw [Nat.add_sub_add_left]; simp),
    List.take_length_add_append, List.drop_length_add_append]
  simp

theorem fill_append (front rest : Packet) (a b c d : UInt8) :
    fill (front ++ a :: b :: c :: d :: rest) (front.length + 2) (front.length + 4) 0 =
      .ok (front ++ a :: b :: 0 :: 0 :: rest) := by
  rw [fill, Nat.add_sub_add_left]
  exact storeSlice_append front rest a b c d 0 0

/-! ## What is answered, and what the answer is -/

def headerLength (packet : Packet) : Nat := (byteAt packet 0 &&& 0x0f).toNat * 4

def totalLength (packet : Packet) : Nat := u16FromBeBytes (byteAt packet 2) (byteAt packet 3)

/-- Flags and fragment offset. -/
def fragmentField (packet : Packet) : Nat := u16FromBeBytes (byteAt packet 6) (byteAt packet 7)

/-- An echo request from the address to itself, in one piece. -/
structure IsLocalEchoRequest (packet : Packet) (address : Ipv4Addr) : Prop where
  version : byteAt packet 0 >>> 4 = 4
  header : 20 ≤ headerLength packet
  icmp : headerLength packet + 8 ≤ totalLength packet
  inBuffer : totalLength packet ≤ packet.length
  lastFragment : (fragmentField packet).testBit 13 = false
  firstFragment : fragmentField packet % 2 ^ 13 = 0
  protocol : byteAt packet 9 = 1
  source : Ipv4Addr.new (byteAt packet 12) (byteAt packet 13) (byteAt packet 14)
    (byteAt packet 15) = address
  destination : Ipv4Addr.new (byteAt packet 16) (byteAt packet 17) (byteAt packet 18)
    (byteAt packet 19) = address
  icmpType : byteAt packet (headerLength packet) = 8
  icmpCode : byteAt packet (headerLength packet + 1) = 0

/-- The packet up to its total length, with another type and another checksum,
and a checksum that checks: the code says so, and so does the sum of the words. -/
structure IsEchoReply (packet reply : Packet) : Prop where
  length : reply.length = totalLength packet
  kept : ∀ i < totalLength packet, i ≠ headerLength packet → i ≠ headerLength packet + 2 →
    i ≠ headerLength packet + 3 → reply[i]? = packet[i]?
  icmpType : reply[headerLength packet]? = some 0
  checksum : internetChecksum (reply.drop (headerLength packet)) = .ok 0
  words : 0 < wordSum (reply.drop (headerLength packet)) ∧
    0xffff ∣ wordSum (reply.drop (headerLength packet))

/-- It returns, and what it returns has the property. -/
def Answers (P : Packet → Prop) (x : Except Panic (Option Packet)) : Prop :=
  ∃ result, x = .ok result ∧ ∀ reply, result = some reply → P reply

namespace Answers

variable {P : Packet → Prop}

theorem refuse {c : Prop} [Decidable c] {x : Except Panic (Option Packet)}
    (h : ¬ c → Answers P x) : Answers P (if c then pure none else x) := by
  by_cases hc : c
  · exact ⟨none, if_pos hc, nofun⟩
  · rw [if_neg hc]
    exact h hc

theorem bind {α : Type} {x : Except Panic α} {v : α} {f : α → Except Panic (Option Packet)}
    (hx : x = .ok v) (h : Answers P (f v)) : Answers P (x >>= f) := by
  rw [hx]
  exact h

end Answers

theorem address_of_octets {address : Ipv4Addr} {a b c d : UInt8}
    (h : ¬ [a, b, c, d] ≠ address.octets) : Ipv4Addr.new a b c d = address := by
  cases not_not.mp h
  exact new_octets address

/-- The mask `0x3fff` leaves the flag for more fragments and the offset. -/
theorem whole_of_mask {x : Nat} (h : ¬ x &&& 0x3fff ≠ 0) :
    x.testBit 13 = false ∧ x % 2 ^ 13 = 0 := by
  have hmod : x % 2 ^ 14 = 0 := by
    rw [← Nat.and_two_pow_sub_one_eq_mod]
    exact not_not.mp h
  constructor
  · rw [Nat.testBit_eq_decide_div_mod_eq]
    simp only [decide_eq_false_iff_not]
    omega
  · omega

/-- The ICMP part, with the four bytes that the reply looks at. -/
theorem body_eq {packet : Packet} {h t : Nat} (hicmp : h + 8 ≤ t) (ht : t ≤ packet.length) :
    ∃ a b c d rest, packet.take t = packet.take h ++ a :: b :: c :: d :: rest ∧
      (packet.take h).length = h ∧ rest.length < t := by
  have hlen : ((packet.take t).drop h).length = t - h := by
    rw [List.length_drop, List.length_take, Nat.min_eq_left ht]
  have hsplit := List.take_append_drop h (packet.take t)
  rw [List.take_take, Nat.min_eq_left (by omega)] at hsplit
  rcases hdrop : (packet.take t).drop h with _ | ⟨a, _ | ⟨b, _ | ⟨c, _ | ⟨d, rest⟩⟩⟩⟩ <;>
    rw [hdrop] at hlen hsplit <;> simp only [List.length_cons, List.length_nil] at hlen
  · omega
  · omega
  · omega
  · omega
  · exact ⟨a, b, c, d, rest, hsplit.symm,
      by rw [List.length_take]; omega, by omega⟩

/-- Type and checksum are the only bytes in which the two differ. -/
theorem getElem?_reply {front rest : Packet} {a b c d x hi lo : UInt8} {i : Nat}
    (htype : i ≠ front.length) (hhi : i ≠ front.length + 2) (hlo : i ≠ front.length + 3) :
    (front ++ x :: b :: hi :: lo :: rest)[i]? = (front ++ a :: b :: c :: d :: rest)[i]? := by
  by_cases h : i < front.length
  · rw [List.getElem?_append_left h, List.getElem?_append_left h]
  rw [List.getElem?_append_right (by omega), List.getElem?_append_right (by omega)]
  rcases hj : i - front.length with _ | _ | _ | _ | j
  · omega
  · rfl
  · omega
  · omega
  · rfl

/-- **The echo reply.**  Whatever the packet, `local_echo_reply` returns; and it
answers nothing but an echo request of the server to itself, with the request in
which type and checksum are replaced. -/
theorem localEchoReply_wellFormed (packet : Packet) (address : Ipv4Addr) :
    Answers (fun reply => IsLocalEchoRequest packet address ∧ IsEchoReply packet reply)
      (localEchoReply packet address) := by
  unfold localEchoReply
  refine .refuse fun hlen => ?_
  rw [Nat.not_lt] at hlen
  refine .bind (index_eq (by omega)) (.refuse fun hversion => ?_)
  refine .bind (index_eq (by omega)) (.refuse fun hprotocol => ?_)
  refine .bind (index_eq (by omega)) (.bind (index_eq (by omega)) (.bind (index_eq (by omega)) ?_))
  show Answers _ (if headerLength packet < 20 ∨ totalLength packet < headerLength packet + 8 ∨
    packet.length < totalLength packet then _ else _)
  refine .refuse fun hlengths => ?_
  simp only [not_or, Nat.not_lt] at hlengths
  obtain ⟨hheader, hicmp, hbuffer⟩ := hlengths
  refine .bind (index_eq (by omega)) (.bind (index_eq (by omega)) (.refuse fun hfragment => ?_))
  refine .bind (slice_four (by omega)) (.refuse fun hsource => ?_)
  refine .bind (slice_four (by omega)) (.refuse fun hdestination => ?_)
  refine .bind (index_eq (show headerLength packet < packet.length by omega))
    (.refuse fun htype => ?_)
  refine .bind (index_eq (show headerLength packet + 1 < packet.length by omega))
    (.refuse fun hcode => ?_)
  have hfragment := whole_of_mask hfragment
  have hrequest : IsLocalEchoRequest packet address :=
    ⟨not_not.mp hversion, hheader, hicmp, hbuffer, hfragment.1, hfragment.2,
      not_not.mp hprotocol, address_of_octets hsource, address_of_octets hdestination,
      not_not.mp htype, not_not.mp hcode⟩
  -- the request is `front ++ a :: b :: c :: d :: rest`; every step below is on that list
  obtain ⟨a, b, c, d, rest, hbody, hfront, hrest⟩ := body_eq hicmp hbuffer
  have htotal : totalLength packet < 0x10000 :=
    Nat.lt_succ_of_le (u16FromBeBytes_le (byteAt packet 2) (byteAt packet 3))
  obtain ⟨checksum, hchecksum, hchecks⟩ :=
    internetChecksum_insert (a := 0) (b := b) (hrest.trans htotal)
  have hslice : slice packet 0 (totalLength packet) = .ok (packet.take (totalLength packet)) :=
    if_pos ⟨Nat.zero_le _, hbuffer⟩
  generalize packet.take (headerLength packet) = front at hbody hfront
  have hstore := store_append front (b :: c :: d :: rest) a 0
  have hfill := fill_append front rest 0 b c d
  have hicmpPart := slice_append front (0 :: b :: 0 :: 0 :: rest)
  have hinsert := storeSlice_append front rest 0 b 0 0 (UInt8.ofNat (checksum.toNat / 256))
    (UInt8.ofNat checksum.toNat)
  rw [hfront] at hstore hfill hicmpPart hinsert
  refine .bind (hslice.trans (congrArg _ hbody)) (.bind hstore (.bind hfill ?_))
  refine .bind hicmpPart (.bind hchecksum (.bind hinsert ?_))
  refine ⟨_, rfl, fun reply hreply => ⟨hrequest, ?_⟩⟩
  obtain rfl := Option.some.inj hreply
  have hlength := congrArg List.length hbody
  rw [List.length_take, Nat.min_eq_left hbuffer] at hlength
  have hlength' : (front ++ 0 :: b :: UInt8.ofNat (checksum.toNat / 256) ::
      UInt8.ofNat checksum.toNat :: rest).length = totalLength packet := by
    simpa only [List.length_append, List.length_cons] using hlength.symm
  refine ⟨hlength', fun i hi htype hhi hlo => ?_, ?_, ?_, ?_⟩
  · rw [← hfront] at htype hhi hlo
    rw [getElem?_reply htype hhi hlo, ← hbody, List.getElem?_take_of_lt hi]
  · rw [← hfront, List.getElem?_append_right (Nat.le_refl _), Nat.sub_self]
    rfl
  · rw [← hfront, List.drop_left]
    exact hchecks
  · rw [← hfront, List.drop_left]
    refine wordSum_of_internetChecksum ?_ hchecks
    rw [List.length_append] at hlength'
    exact (Nat.le_add_left _ _).trans_lt (hlength'.trans_lt htotal)

end AutobricksVpn
