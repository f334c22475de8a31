/-
# `AutobricksVpn.Net.Auth` — the control messages inside a session

The byte strings that the two ends exchange next to tunnelled packets: the
keepalive and the four login messages.  `loginMatches` is the server's test of
a login message; what it accepts is one frame only,

    AUTH_LOGIN_PREFIX ++ id ++ [0] ++ password      (`eq_loginFrame_of_loginMatches`)

(which it does accept when the id has no zero byte, `loginMatches_loginFrame`)
and none of these strings is a packet that `ipv4PacketAddresses` accepts.
-/
import AutobricksVpn.Net.Ipv4
import Mathlib.Data.List.Basic

namespace AutobricksVpn

/-- `as_bytes`: the UTF-8 bytes of a string. -/
def asBytes (s : String) : List UInt8 := s.toUTF8.data.toList

def KEEPALIVE_PACKET : Packet := [0]
def AUTH_REQUIRED : Packet := 0xff :: asBytes "AVPN_AUTH_REQUIRED"
def AUTH_OK : Packet := 0xff :: asBytes "AVPN_AUTH_OK"
def AUTH_FAILED : Packet := 0xff :: asBytes "AVPN_AUTH_FAILED"
def AUTH_LOGIN_PREFIX : Packet := 0xff :: asBytes "AVPN_AUTH_LOGIN" ++ [0]

def isKeepalivePacket (packet : Packet) : Bool := packet == KEEPALIVE_PACKET

/-- `strip_prefix` of a byte slice. -/
def stripPrefix (packet start : Packet) : Option Packet :=
  if start.isPrefixOf packet then some (packet.drop start.length) else none

/-- The two sides of the first zero byte. -/
def splitAtZero (body : Packet) : Option (Packet × Packet) :=
  (body.findIdx? (· == 0)).map fun index => (body.take index, body.drop (index + 1))

def loginMatches (packet : Packet) (id password : String) : Bool :=
  ((stripPrefix packet AUTH_LOGIN_PREFIX).bind splitAtZero).any
    fun actual => actual.1 == asBytes id && actual.2 == asBytes password

/-- The frame `authenticate` builds out of an id and a password. -/
def loginFrame (id password : List UInt8) : Packet := AUTH_LOGIN_PREFIX ++ id ++ 0 :: password

theorem append_of_stripPrefix {packet start body : Packet} (h : stripPrefix packet start = some body) :
    packet = start ++ body := by
  unfold stripPrefix at h
  split at h
  · rename_i hp
    obtain ⟨rest, rfl⟩ := List.isPrefixOf_iff_prefix.mp hp
    rw [← Option.some.inj h, List.drop_left]
  · exact nomatch h

theorem append_of_splitAtZero {body before after : Packet}
    (h : splitAtZero body = some (before, after)) : body = before ++ 0 :: after := by
  unfold splitAtZero at h
  cases hi : body.findIdx? (· == 0) with
  | none => simp [hi] at h
  | some index =>
      obtain ⟨hlt, hzero, -⟩ := List.findIdx?_eq_some_iff_getElem.mp hi
      simp only [hi, Option.map_some, Option.some.injEq, Prod.mk.injEq] at h
      obtain ⟨rfl, rfl⟩ := h
      have h0 : body[index] = 0 := by simpa using hzero
      rw [← h0, List.getElem_cons_drop, List.take_append_drop]

/-- The server accepts no other message than the frame of the configured pair. -/
theorem eq_loginFrame_of_loginMatches {packet : Packet} {id password : String}
    (h : loginMatches packet id password = true) :
    packet = loginFrame (asBytes id) (asBytes password) := by
  unfold loginMatches at h
  cases hs : stripPrefix packet AUTH_LOGIN_PREFIX with
  | none => simp [hs] at h
  | some body =>
      cases hz : splitAtZero body with
      | none => simp [hs, hz] at h
      | some parts =>
          obtain ⟨before, after⟩ := parts
          simp only [hs, Option.bind_some, hz, Option.any_some, Bool.and_eq_true, beq_iff_eq] at h
          obtain ⟨rfl, rfl⟩ := h
          rw [append_of_stripPrefix hs, append_of_splitAtZero hz, loginFrame, List.append_assoc]

theorem splitAtZero_append {before : Packet} (h : 0 ∉ before) (after : Packet) :
    splitAtZero (before ++ 0 :: after) = some (before, after) := by
  have hi : (before ++ 0 :: after).findIdx? (· == 0) = some before.length := by
    rw [List.findIdx?_append, List.findIdx?_eq_none_iff.mpr]
    · simp [List.findIdx?_cons]
    · intro b hb
      exact beq_eq_false_iff_ne.mpr fun heq => h (heq ▸ hb)
  simp [splitAtZero, hi]

/-- A frame whose id has no zero byte is taken apart where it was put together,
whatever the password holds. -/
theorem loginMatches_loginFrame_iff {id password : List UInt8} (h : 0 ∉ id)
    {id' password' : String} :
    loginMatches (loginFrame id password) id' password' = true ↔
      id = asBytes id' ∧ password = asBytes password' := by
  have hstrip : stripPrefix (loginFrame id password) AUTH_LOGIN_PREFIX =
      some (id ++ 0 :: password) := by
    unfold stripPrefix
    rw [loginFrame, List.append_assoc, if_pos (List.isPrefixOf_iff_prefix.mpr
      (List.prefix_append _ _)), List.drop_left]
  unfold loginMatches
  rw [hstrip, Option.bind_some, splitAtZero_append h, Option.any_some, Bool.and_eq_true,
    beq_iff_eq, beq_iff_eq]

/-- It accepts that frame, if the id has no zero byte. -/
theorem loginMatches_loginFrame {id password : String} (h : 0 ∉ asBytes id) :
    loginMatches (loginFrame (asBytes id) (asBytes password)) id password = true :=
  (loginMatches_loginFrame_iff h).mpr ⟨rfl, rfl⟩

/-- Strings with the same bytes are the same. -/
theorem asBytes_inj {s t : String} : asBytes s = asBytes t ↔ s = t := by
  constructor
  · intro h
    have hdata : s.toUTF8.data = t.toUTF8.data := Array.toList_inj.mp h
    exact String.toByteArray_inj.mp (ByteArray.ext hdata)
  · exact congrArg asBytes

/-- A message that starts with a zero or a 0xff byte is no IPv4 packet. -/
theorem ipv4PacketAddresses_of_head {b : UInt8} (hb : b >>> 4 ≠ 4) (rest : Packet) :
    ipv4PacketAddresses (b :: rest) = none := by
  unfold ipv4PacketAddresses
  rw [if_pos (.inr hb)]

end AutobricksVpn
