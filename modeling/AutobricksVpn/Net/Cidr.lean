/-
# `AutobricksVpn.Net.Cidr` — networks as bits

The mask of a prefix keeps the bits before it and clears those behind it
(`getMsbD_prefixMask`), so an address is in a network when the two agree in the
bits of the prefix (`ipv4InCidr_iff`).  The mask is a shift by less than 32
places; for a longer prefix the subtraction or the shift would overflow
(`checkedMask_eq`).
-/
import AutobricksVpn.Config.Clients

namespace AutobricksVpn

theorem getMsbD_prefixMask {prefixLen : Nat} (h : prefixLen ≤ 32) (i : Nat) :
    (prefixMask prefixLen).getMsbD i = decide (i < prefixLen) := by
  unfold prefixMask
  split
  · rename_i hzero
    simp [hzero]
  · rename_i hpos
    rw [BitVec.getMsbD_shiftLeft, BitVec.getMsbD_allOnes]
    exact decide_eq_decide.mpr (by omega)

/-- The agreement of two addresses in the bits of a prefix. -/
def SamePrefix (prefixLen : Nat) (a b : Ipv4Addr) : Prop :=
  ∀ i < prefixLen, a.getMsbD i = b.getMsbD i

theorem ipv4InCidr_iff {address network : Ipv4Addr} {prefixLen : Nat} (h : prefixLen ≤ 32) :
    network &&& prefixMask prefixLen = network →
    (ipv4InCidr address network prefixLen = true ↔ SamePrefix prefixLen address network) := by
  intro hnetwork
  rw [ipv4InCidr, beq_iff_eq]
  constructor
  · intro heq i hi
    have hbit := congrArg (fun x : Ipv4Addr => x.getMsbD i) heq
    rw [BitVec.getMsbD_and, getMsbD_prefixMask h, decide_eq_true hi, Bool.and_true] at hbit
    exact hbit
  · intro hsame
    refine BitVec.eq_of_getMsbD_eq fun i _ => ?_
    rw [BitVec.getMsbD_and, getMsbD_prefixMask h]
    by_cases hi : i < prefixLen
    · rw [decide_eq_true hi, Bool.and_true]
      exact hsame i hi
    · have hbit := congrArg (fun x : Ipv4Addr => x.getMsbD i) hnetwork
      rw [BitVec.getMsbD_and, getMsbD_prefixMask h, decide_eq_false hi, Bool.and_false] at hbit
      rw [decide_eq_false hi, Bool.and_false]
      exact hbit

/-! ## The shift -/

/-- The mask as it is computed on machine integers: `none` for a subtraction
below zero or a shift by 32 places or more. -/
def checkedMask (prefixLen : Nat) : Option Ipv4Addr :=
  if prefixLen = 0 then some 0
  else if 32 < prefixLen then none
  else if 32 ≤ 32 - prefixLen then none
  else some (BitVec.allOnes 32 <<< (32 - prefixLen))

theorem checkedMask_eq {prefixLen : Nat} :
    checkedMask prefixLen = some (prefixMask prefixLen) ↔ prefixLen ≤ 32 := by
  unfold checkedMask prefixMask
  split
  · rename_i hzero
    exact iff_of_true rfl (hzero ▸ Nat.zero_le 32)
  · rename_i hpos
    split
    · rename_i hlong
      exact iff_of_false (fun h => by cases h) (Nat.not_le.mpr hlong)
    · rename_i hshort
      rw [if_neg (by omega)]
      exact iff_of_true rfl (Nat.not_lt.mp hshort)

/-! ## The notation -/

/-- What `parse_ipv4_cidr` accepts. -/
structure Cidr (value : Text) (network : Ipv4Addr) (prefixLen : Nat) : Prop where
  spelt : ∃ address length, Text.splitOnce '/' value = some (address, length) ∧
    Text.parseIpv4 address = some network ∧ Text.parseU8 length = some prefixLen
  bound : prefixLen ≤ 32
  canonical : network &&& prefixMask prefixLen = network

theorem parseIpv4Cidr_ok {value : Text} {network : Ipv4Addr} {prefixLen : Nat} :
    parseIpv4Cidr value = .ok (network, prefixLen) ↔ Cidr value network prefixLen := by
  unfold parseIpv4Cidr
  constructor
  · intro h
    split at h
    · cases h
    · rename_i address length hsplit
      split at h
      · cases h
      · rename_i parsed hparsed
        split at h
        · cases h
        · rename_i len hlen
          split at h
          · cases h
          · rename_i hhost
            obtain ⟨rfl, rfl⟩ := Prod.mk.inj (Except.ok.inj h)
            obtain ⟨hu8, hle⟩ := Option.filter_eq_some_iff.mp hlen
            exact ⟨⟨address, length, hsplit, hparsed, hu8⟩, of_decide_eq_true hle,
              Decidable.not_not.mp hhost⟩
  · rintro ⟨⟨address, length, hsplit, hparsed, hu8⟩, hle, hhost⟩
    have hlen : (Text.parseU8 length).filter (· ≤ 32) = some prefixLen :=
      Option.filter_eq_some_iff.mpr ⟨hu8, decide_eq_true hle⟩
    rw [hsplit]
    dsimp only
    rw [hparsed]
    dsimp only
    rw [hlen]
    exact if_neg (not_not_intro hhost)

end AutobricksVpn
