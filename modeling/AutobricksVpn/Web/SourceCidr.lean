/-
# `AutobricksVpn.Web.SourceCidr` — the source policy that the console writes

`validateAllowedSourceCidr` and `clientCertificateExtensions` of
`web/src/client-issuer.js`, next to the server's `parse_ipv4_cidr` and
`certificate_source_policy_allows`.  The console computes with numbers and
signed shifts what the server computes with 32 bits; what it accepts it writes
in the one spelling without leading zeros (`SourceCidr.text`), which the server
reads as the same network (`SourceCidr.spelt`).

The server reads some texts besides: a prefix with a sign or with zeros before
it (`CanonicalCidr`).
-/
import AutobricksVpn.Net.SourcePolicy
import AutobricksVpn.Web.JsNumber

namespace AutobricksVpn

namespace Web

open JsNumber (unsigned shiftLeft bitAnd)

/-- What the pattern matches: four numbers and the length of the prefix. -/
structure SourceCidr where
  octets : List Nat
  prefixLen : Nat
  deriving DecidableEq

namespace SourceCidr

def address (cidr : SourceCidr) : Int :=
  cidr.octets.foldl (fun (result : Int) (octet : Nat) => unsigned (result * 256 + octet)) 0

def mask (cidr : SourceCidr) : Int :=
  if cidr.prefixLen = 0 then 0 else unsigned (shiftLeft 0xffffffff (32 - cidr.prefixLen))

def text (cidr : SourceCidr) : Text :=
  ['.'].intercalate (cidr.octets.map JsNumber.text) ++ '/' :: JsNumber.text cidr.prefixLen

end SourceCidr

/-- `\d{1,2}`. -/
def isPrefixText (length : Text) : Bool :=
  !length.isEmpty && length.length ≤ 2 && length.all (·.isDigit)

/-- `/^(\d{1,3})\.(\d{1,3})\.(\d{1,3})\.(\d{1,3})\/(\d{1,2})$/`, with `Number` of
the groups. -/
def matchCidr (text : Text) : Option SourceCidr :=
  match Text.splitOnce '/' text with
  | none => none
  | some (start, length) =>
      let parts := start.splitOn '.'
      if parts.length = 4 ∧ parts.all isOctetText = true ∧ isPrefixText length = true then
        some ⟨parts.map fun part => (Text.parseDigits part).getD 0, (Text.parseDigits length).getD 0⟩
      else none

/-- `bad`, with its defaults. -/
def bad (message : String) : WebError := ⟨message, some 400, some "invalid_request"⟩

def validateAllowedSourceCidr (value : Text) : Except WebError (Option Text) :=
  let text := JsText.trim value
  if text = [] then .ok none
  else
    match matchCidr text with
    | none => .error (bad "허용 접속 IP 대역은 IPv4 CIDR 형식으로 입력하세요.")
    | some cidr =>
        if cidr.octets.any (255 < ·) ∨ 32 < cidr.prefixLen then
          .error (bad "허용 접속 IP 대역은 IPv4 CIDR 형식으로 입력하세요.")
        else if unsigned (bitAnd cidr.address cidr.mask) ≠ cidr.address then
          .error (bad "허용 접속 IP 대역에는 host bit가 없는 네트워크 주소를 입력하세요.")
        else .ok (some cidr.text)

/-- The name that stands behind `URI.1=`. -/
def policyUri (cidr : Text) : Text := "urn:autobricks:allowed-source-cidr:".toList ++ cidr

def clientNames (vpnAddress : Text) (allowedSourceCidr : Option Text) : List Text :=
  ("IP.1=".toList ++ vpnAddress) ::
    match allowedSourceCidr with
    | none | some [] => []
    | some cidr => ["URI.1=".toList ++ policyUri cidr]

def clientCertificateExtensions (vpnAddress : Text) (allowedSourceCidr : Option Text) : Text :=
  "basicConstraints=critical,CA:FALSE\n".toList ++
    "keyUsage=critical,digitalSignature,keyEncipherment\n".toList ++
    "extendedKeyUsage=clientAuth\n".toList ++ "subjectAltName=@client_names\n".toList ++
    "subjectKeyIdentifier=hash\n".toList ++ "authorityKeyIdentifier=keyid,issuer\n".toList ++
    "\n[client_names]\n".toList ++
    ['\n'].intercalate (clientNames vpnAddress allowedSourceCidr) ++ ['\n']

/-! ## The same network -/

namespace SourceCidr

section Network

variable {i j k l prefixLen : Nat}

theorem foldl_unsigned (octets : List Nat) : ∀ x : BitVec 32,
    octets.foldl (fun (result : Int) (octet : Nat) => unsigned (result * 256 + octet)) (x.toNat : Int) =
      ((octets.foldl (fun number part => number * 256 + BitVec.ofNat 32 part) x).toNat : Int) := by
  induction octets with
  | nil => intro x; rfl
  | cons octet octets ih =>
      intro x
      rw [List.foldl_cons, JsNumber.unsigned_octet, ih]
      rfl

/-- The number of the four octets. -/
theorem address_eq (hi : i ≤ 255) (hj : j ≤ 255) (hk : k ≤ 255) (hl : l ≤ 255) :
    (⟨[i, j, k, l], prefixLen⟩ : SourceCidr).address =
      ((Ipv4Addr.new (UInt8.ofNat i) (UInt8.ofNat j) (UInt8.ofNat k) (UInt8.ofNat l)).toNat : Int) := by
  rw [← number_eq hi hj hk hl]
  exact foldl_unsigned [i, j, k, l] 0

theorem mask_eq {cidr : SourceCidr} (h : cidr.prefixLen ≤ 32) :
    cidr.mask = ((prefixMask cidr.prefixLen).toNat : Int) := by
  unfold mask prefixMask
  split
  · rfl
  · rename_i hpos
    have hplaces : (32 - cidr.prefixLen : Int) = ((32 - cidr.prefixLen : Nat) : Int) :=
      (Int.natCast_sub h).symm
    have hones : (0xffffffff : Int) = ((BitVec.allOnes 32).toNat : Int) := rfl
    rw [hplaces, hones, JsNumber.unsigned_shiftLeft _ (by omega)]

/-- The test for host bits is the server's. -/
theorem hostBits_iff {cidr : SourceCidr} {network : Ipv4Addr}
    (haddress : cidr.address = (network.toNat : Int)) (h : cidr.prefixLen ≤ 32) :
    unsigned (bitAnd cidr.address cidr.mask) = cidr.address ↔
      network &&& prefixMask cidr.prefixLen = network := by
  rw [haddress, mask_eq h, JsNumber.unsigned_bitAnd, Int.natCast_inj, BitVec.toNat_inj]

/-- The server reads what the console writes. -/
theorem spelt (hi : i ≤ 255) (hj : j ≤ 255) (hk : k ≤ 255) (hl : l ≤ 255) (h : prefixLen ≤ 32) :
    ∃ start, Text.splitOnce '/' (⟨[i, j, k, l], prefixLen⟩ : SourceCidr).text =
        some (start, JsNumber.text prefixLen) ∧
      start = ['.'].intercalate ([i, j, k, l].map JsNumber.text) ∧
      Text.parseIpv4 start =
        some (Ipv4Addr.new (UInt8.ofNat i) (UInt8.ofNat j) (UInt8.ofNat k) (UInt8.ofNat l)) ∧
      Text.parseU8 (JsNumber.text prefixLen) = some prefixLen := by
  have hdot : ∀ part ∈ [i, j, k, l].map JsNumber.text, '.' ∉ part := by
    intro part hpart hmem
    obtain ⟨n, -, rfl⟩ := List.mem_map.mp hpart
    exact absurd (JsNumber.isDigit_of_mem_text hmem) (by decide)
  have hsplit : (['.'].intercalate ([i, j, k, l].map JsNumber.text)).splitOn '.' =
      [JsNumber.text i, JsNumber.text j, JsNumber.text k, JsNumber.text l] :=
    List.splitOn_intercalate '.' hdot (List.cons_ne_nil _ _)
  have hnumber : ipv4Number (['.'].intercalate ([i, j, k, l].map JsNumber.text)) =
      some (Ipv4Addr.new (UInt8.ofNat i) (UInt8.ofNat j) (UInt8.ofNat k) (UInt8.ofNat l)) :=
    ipv4Number_some.mpr ⟨_, _, _, _, i, j, k, l, hsplit, JsNumber.octet_text hi,
      JsNumber.octet_text hj, JsNumber.octet_text hk, JsNumber.octet_text hl, rfl⟩
  refine ⟨_, ?_, rfl, ?_, ?_⟩
  · refine Text.splitOnce_some.mpr ⟨rfl, fun hslash => ?_⟩
    rcases mem_of_ipv4Number hnumber '/' hslash with h | h
    · exact absurd h (by decide)
    · exact absurd h (by decide)
  · refine parseIpv4_iff.mpr ⟨hnumber, ?_⟩
    unfold Canonical
    rw [hsplit]
    simp only [List.forall_mem_cons, List.not_mem_nil, false_implies, implies_true, and_true]
    exact ⟨JsNumber.not_leadingZero_text i, JsNumber.not_leadingZero_text j,
      JsNumber.not_leadingZero_text k, JsNumber.not_leadingZero_text l⟩
  · have hplus : (JsNumber.text prefixLen).head? ≠ some '+' := fun heq =>
      absurd (JsNumber.isDigit_of_mem_text (List.mem_of_mem_head? heq)) (by decide)
    unfold Text.parseU8
    dsimp only
    rw [if_neg hplus, JsNumber.parseDigits_text]
    exact Option.filter_eq_some_iff.mpr ⟨rfl, decide_eq_true (by omega)⟩

end Network

end SourceCidr

/-! ## What is accepted -/

section Accepted

variable {v start length : Text} {cidr : SourceCidr} {network : Ipv4Addr} {prefixLen : Nat}

theorem matchCidr_some (h : matchCidr v = some cidr) :
    ∃ start length i j k l, Text.splitOnce '/' v = some (start, length) ∧
      isPrefixText length = true ∧ (Text.parseDigits length).getD 0 = cidr.prefixLen ∧
      cidr = ⟨[i, j, k, l], cidr.prefixLen⟩ := by
  unfold matchCidr at h
  split at h
  · cases h
  · rename_i start length hsplit
    dsimp only at h
    split at h
    · rename_i hparts
      obtain rfl := Option.some.inj h
      obtain ⟨hlength, -, hprefix⟩ := hparts
      rcases hstart : start.splitOn '.' with _ | ⟨a, _ | ⟨b, _ | ⟨c, _ | ⟨d, _ | ⟨e, rest⟩⟩⟩⟩⟩ <;>
        rw [hstart] at hlength
      · cases hlength
      · cases hlength
      · cases hlength
      · cases hlength
      · exact ⟨start, length, _, _, _, _, hsplit, hprefix, rfl, rfl⟩
      · cases hlength
    · cases h

/-- What the console accepts is the network that it computed, written out. -/
theorem validateAllowedSourceCidr_some {c : Text}
    (h : validateAllowedSourceCidr v = .ok (some c)) :
    ∃ cidr i j k l, matchCidr (JsText.trim v) = some cidr ∧ cidr = ⟨[i, j, k, l], cidr.prefixLen⟩ ∧
      i ≤ 255 ∧ j ≤ 255 ∧ k ≤ 255 ∧ l ≤ 255 ∧ cidr.prefixLen ≤ 32 ∧
      unsigned (bitAnd cidr.address cidr.mask) = cidr.address ∧ c = cidr.text := by
  unfold validateAllowedSourceCidr at h
  dsimp only at h
  split at h
  · cases h
  · split at h
    · cases h
    · rename_i cidr hmatch
      split at h
      · cases h
      · rename_i hsmall
        split at h
        · cases h
        · rename_i hhost
          obtain ⟨start, length, i, j, k, l, -, -, -, heq⟩ := matchCidr_some hmatch
          rw [not_or, Nat.not_lt, heq] at hsmall
          simp only [List.any_cons, List.any_nil, Bool.or_eq_true, decide_eq_true_eq,
            Bool.false_eq_true, or_false, not_or, Nat.not_lt] at hsmall
          obtain ⟨⟨hi, hj, hk, hl⟩, hprefix⟩ := hsmall
          exact ⟨cidr, i, j, k, l, hmatch, heq, hi, hj, hk, hl, hprefix, not_not.mp hhost,
            (Option.some.inj (Except.ok.inj h)).symm⟩

/-- The server accepts it as the same network. -/
theorem cidr_of_validate {c : Text} (h : validateAllowedSourceCidr v = .ok (some c)) :
    ∃ cidr network, matchCidr (JsText.trim v) = some cidr ∧
      cidr.address = (network.toNat : Int) ∧ Cidr c network cidr.prefixLen := by
  obtain ⟨cidr, i, j, k, l, hmatch, heq, hi, hj, hk, hl, hprefix, hhost, rfl⟩ :=
    validateAllowedSourceCidr_some h
  have haddress := @SourceCidr.address_eq _ _ _ _ cidr.prefixLen hi hj hk hl
  rw [← heq] at haddress
  obtain ⟨start, hsplit, -, hparse, hlength⟩ := SourceCidr.spelt hi hj hk hl hprefix
  rw [← heq] at hsplit
  exact ⟨cidr, _, hmatch, haddress, ⟨start, _, hsplit, hparse, hlength⟩, hprefix,
    (SourceCidr.hostBits_iff haddress hprefix).mp hhost⟩

/-- There is one spelling of a network without leading zeros and signs. -/
def CanonicalCidr (value : Text) : Prop :=
  ∃ start length, Text.splitOnce '/' value = some (start, length) ∧ Canonical start ∧
    ¬ LeadingZero length ∧ length.head? ≠ some '+'

/-- A prefix without sign and leading zeros is its number written out. -/
theorem length_eq_text (h : Text.parseU8 length = some prefixLen) :
    ¬ LeadingZero length → length.head? ≠ some '+' → length = JsNumber.text prefixLen := by
  intro hzero hplus
  unfold Text.parseU8 at h
  dsimp only at h
  rw [if_neg hplus] at h
  obtain ⟨hdigits, -⟩ := Option.filter_eq_some_iff.mp h
  obtain ⟨hne, hall⟩ := digits_of_parseDigits hdigits
  have hall' : ∀ x ∈ JsNumber.text prefixLen, x.isDigit = true :=
    fun _ hx => JsNumber.isDigit_of_mem_text hx
  have hvalue : decimal length = decimal (JsNumber.text prefixLen) := by
    have htext := JsNumber.parseDigits_text prefixLen
    rw [parseDigits_of_digits (JsNumber.text_ne_nil _) hall'] at htext
    rw [parseDigits_of_digits hne hall] at hdigits
    exact Option.some.inj (hdigits.trans htext.symm)
  refine eq_of_decimal hall hall' (Nat.le_antisymm ?_ ?_) hvalue
  · exact length_le_of_decimal (JsNumber.text_ne_nil _) hall' hall hzero hvalue.symm
  · exact length_le_of_decimal hne hall hall' (JsNumber.not_leadingZero_text _) hvalue

theorem isPrefixText_text (h : prefixLen ≤ 32) : isPrefixText (JsNumber.text prefixLen) = true := by
  unfold isPrefixText
  rw [Bool.and_eq_true, Bool.and_eq_true, Bool.not_eq_true', List.isEmpty_eq_false_iff,
    decide_eq_true_eq, List.all_eq_true]
  exact ⟨⟨JsNumber.text_ne_nil _, (JsNumber.length_text_le (by decide)).mpr (by omega)⟩,
    fun _ hc => JsNumber.isDigit_of_mem_text hc⟩

/-- What the server accepts in its canonical spelling is matched and written as it is. -/
theorem matchCidr_of_cidr (h : Cidr v network prefixLen) (hcanonical : CanonicalCidr v) :
    ∃ i j k l, i ≤ 255 ∧ j ≤ 255 ∧ k ≤ 255 ∧ l ≤ 255 ∧
      network = Ipv4Addr.new (UInt8.ofNat i) (UInt8.ofNat j) (UInt8.ofNat k) (UInt8.ofNat l) ∧
      matchCidr v = some ⟨[i, j, k, l], prefixLen⟩ ∧
      (⟨[i, j, k, l], prefixLen⟩ : SourceCidr).text = v := by
  obtain ⟨start, length, hsplit, hstart, hlength⟩ := h.spelt
  obtain ⟨start', length', hsplit', hdots, hzero, hplus⟩ := hcanonical
  obtain ⟨rfl, rfl⟩ := Prod.mk.inj (Option.some.inj (hsplit.symm.trans hsplit'))
  obtain ⟨a, b, c, d, i, j, k, l, hparts, ha, hb, hc, hd, hnetwork⟩ :=
    ipv4Number_some.mp (parseIpv4_iff.mp hstart).1
  obtain ⟨hta, hna, hi⟩ := octet_some.mp ha
  obtain ⟨htb, hnb, hj⟩ := octet_some.mp hb
  obtain ⟨htc, hnc, hk⟩ := octet_some.mp hc
  obtain ⟨htd, hnd, hl⟩ := octet_some.mp hd
  have hlast := length_eq_text hlength hzero hplus
  refine ⟨i, j, k, l, hi, hj, hk, hl, hnetwork, ?_, ?_⟩
  · unfold matchCidr
    rw [hsplit]
    dsimp only
    rw [hparts, hlast, if_pos ⟨rfl, by simp only [List.all_cons, List.all_nil, hta, htb, htc, htd,
      Bool.and_self], isPrefixText_text h.bound⟩, JsNumber.parseDigits_text]
    simp only [List.map_cons, List.map_nil, hna, hnb, hnc, hnd, Option.getD_some]
  · unfold Canonical at hdots
    rw [hparts] at hdots
    simp only [List.forall_mem_cons, List.not_mem_nil, false_implies, implies_true, and_true]
      at hdots
    have htext : ∀ {part : Text} {n : Nat}, octet part = some n → ¬ LeadingZero part →
        JsNumber.text n = part := fun hpart hnone =>
      eq_of_octet (JsNumber.octet_text (octet_some.mp hpart).2.2) hpart
        (JsNumber.not_leadingZero_text _) hnone
    have hjoined : ['.'].intercalate ([i, j, k, l].map JsNumber.text) = start := by
      rw [← intercalate_parts start, hparts, List.map_cons, List.map_cons, List.map_cons,
        List.map_cons, List.map_nil, htext ha hdots.1, htext hb hdots.2.1, htext hc hdots.2.2.1,
        htext hd hdots.2.2.2]
    rw [SourceCidr.text, hjoined, ← hlast]
    exact (Text.splitOnce_some.mp hsplit).1.symm

/-- It has no white space. -/
theorem trim_of_cidr (h : Cidr v network prefixLen) : v ≠ [] ∧ JsText.trim v = v := by
  obtain ⟨start, length, hsplit, hstart, hlength⟩ := h.spelt
  have hv := (Text.splitOnce_some.mp hsplit).1
  have hne : v ≠ [] := by
    rw [hv]
    exact List.append_ne_nil_of_right_ne_nil _ (List.cons_ne_nil _ _)
  have hdigit : ∀ x : Char, x.isDigit = true → JsText.isSpace x = false := by
    intro x hx
    have hbounds := digit_bounds hx
    unfold JsText.isSpace JsText.isSpaceCode
    simp only [Bool.or_eq_false_iff, Bool.and_eq_false_iff, decide_eq_false_iff_not,
      beq_eq_false_iff_ne]
    omega
  have hlengthChars : ∀ x ∈ length, x.isDigit = true ∨ x = '+' := by
    unfold Text.parseU8 at hlength
    dsimp only at hlength
    have hall := (digits_of_parseDigits (Option.filter_eq_some_iff.mp hlength).1).2
    split at hall
    · rename_i hplus
      intro x hx
      rw [List.eq_cons_of_mem_head? hplus] at hx
      rcases List.mem_cons.mp hx with rfl | hx
      · exact .inr rfl
      · exact .inl (hall x hx)
    · exact fun x hx => .inl (hall x hx)
  have hspace : ∀ x ∈ v, JsText.isSpace x = false := by
    intro x hx
    rw [hv] at hx
    rcases List.mem_append.mp hx with hx | hx
    · rcases mem_of_ipv4Number (parseIpv4_iff.mp hstart).1 x hx with hx | rfl
      · exact hdigit x hx
      · decide
    · rcases List.mem_cons.mp hx with rfl | hx
      · decide
      · rcases hlengthChars x hx with hx | rfl
        · exact hdigit x hx
        · decide
  exact ⟨hne, Fields.trim_eq_self (fun x hx => hspace x (List.mem_of_mem_head? hx))
    fun x hx => hspace x (List.mem_of_mem_getLast? hx)⟩

theorem validate_of_cidr (h : Cidr v network prefixLen) (hcanonical : CanonicalCidr v) :
    validateAllowedSourceCidr v = .ok (some v) := by
  obtain ⟨i, j, k, l, hi, hj, hk, hl, hnetwork, hmatch, htext⟩ := matchCidr_of_cidr h hcanonical
  obtain ⟨hne, htrim⟩ := trim_of_cidr h
  have haddress := @SourceCidr.address_eq _ _ _ _ prefixLen hi hj hk hl
  rw [← hnetwork] at haddress
  have hhost := (SourceCidr.hostBits_iff haddress h.bound).mpr h.canonical
  unfold validateAllowedSourceCidr
  dsimp only
  rw [htrim, if_neg hne, hmatch]
  dsimp only
  rw [if_neg, if_neg (not_not.mpr hhost), htext]
  simp only [List.any_cons, List.any_nil, Bool.or_eq_true, decide_eq_true_eq, Bool.false_eq_true,
    or_false, not_or, Nat.not_lt]
  exact ⟨⟨hi, hj, hk, hl⟩, h.bound⟩

/-- What the console writes is in the canonical spelling. -/
theorem canonical_of_validate {c : Text} (h : validateAllowedSourceCidr v = .ok (some c)) :
    CanonicalCidr c := by
  obtain ⟨cidr, i, j, k, l, -, heq, hi, hj, hk, hl, hprefix, -, rfl⟩ :=
    validateAllowedSourceCidr_some h
  obtain ⟨start, hsplit, -, hparse, -⟩ := SourceCidr.spelt hi hj hk hl hprefix
  rw [← heq] at hsplit
  refine ⟨start, _, hsplit, (parseIpv4_iff.mp hparse).2, JsNumber.not_leadingZero_text _, ?_⟩
  exact fun heq =>
    absurd (JsNumber.isDigit_of_mem_text (List.mem_of_mem_head? heq)) (by decide)

end Accepted

/-! ## The agreement -/

/-- The policy is one more line at the end. -/
theorem clientCertificateExtensions_some (vpnAddress : Text) {cidr : Text} (h : cidr ≠ []) :
    clientCertificateExtensions vpnAddress (some cidr) =
      clientCertificateExtensions vpnAddress none ++ "URI.1=".toList ++ policyUri cidr ++ ['\n'] := by
  unfold clientCertificateExtensions clientNames
  rcases cidr with _ | ⟨x, cidr⟩
  · exact absurd rfl h
  · simp only [List.intercalate, List.intersperse, List.flatten_cons, List.flatten_nil,
      List.append_nil, List.append_assoc, List.cons_append, List.nil_append]

/-- **The console and the server agree on source policies.**  What the console
accepts, the server accepts as the same network; the name that the console then
writes into the extensions of the certificate admits the sources in that
network, and no others; and what the server accepts in its canonical spelling,
and only that, the console leaves as it is. -/
theorem sourceCidr_agrees (v c : Text) :
    (validateAllowedSourceCidr v = .ok (some c) →
      ∃ cidr network, matchCidr (JsText.trim v) = some cidr ∧
        cidr.address = (network.toNat : Int) ∧
        cidr.mask = ((prefixMask cidr.prefixLen).toNat : Int) ∧
        parseIpv4Cidr c = .ok (network, cidr.prefixLen) ∧
        (∀ vpnAddress, clientCertificateExtensions vpnAddress (some c) =
          clientCertificateExtensions vpnAddress none ++ "URI.1=".toList ++ policyUri c ++ ['\n']) ∧
        ∀ altNames, policyNames altNames = [policyUri c] → ∀ source,
          certificateSourcePolicyAllows altNames source =
            .ok (ipv4InCidr source network cidr.prefixLen) ∧
          (certificateSourcePolicyAllows altNames source = .ok true ↔
            SamePrefix cidr.prefixLen source network)) ∧
    ∀ network prefixLen, parseIpv4Cidr c = .ok (network, prefixLen) →
      (validateAllowedSourceCidr c = .ok (some c) ↔ CanonicalCidr c) := by
  refine ⟨fun h => ?_, fun network prefixLen h => ⟨fun hsame => ?_, fun hcanonical => ?_⟩⟩
  · obtain ⟨cidr, network, hmatch, haddress, hcidr⟩ := cidr_of_validate h
    refine ⟨cidr, network, hmatch, haddress, SourceCidr.mask_eq hcidr.bound,
      parseIpv4Cidr_ok.mpr hcidr, fun vpnAddress => ?_, fun altNames hnames source => ?_⟩
    · exact clientCertificateExtensions_some vpnAddress (trim_of_cidr hcidr).1
    · have hone : OnlyPolicy altNames network cidr.prefixLen := ⟨c, hnames, hcidr⟩
      have hallows : certificateSourcePolicyAllows altNames source =
          .ok (ipv4InCidr source network cidr.prefixLen) :=
        allows_ok.mpr (.inr ⟨network, cidr.prefixLen, hone, rfl⟩)
      refine ⟨hallows, ?_⟩
      rw [hallows, Except.ok.injEq]
      exact hone.inCidr_iff
  · exact canonical_of_validate hsame
  · exact validate_of_cidr (parseIpv4Cidr_ok.mp h) hcanonical

/-- A text with zeros, and the text with a sign that only the server reads. -/
theorem sourceCidr_agrees_zeros :
    (∃ cidr network, matchCidr (JsText.trim " 010.0.0.0/08 ".toList) = some cidr ∧
      parseIpv4Cidr "10.0.0.0/8".toList = .ok (network, cidr.prefixLen)) ∧
    ¬ CanonicalCidr "10.0.0.0/+8".toList := by
  refine ⟨?_, fun hcanonical => ?_⟩
  · obtain ⟨cidr, network, hmatch, -, -, hparse, -⟩ :=
      (sourceCidr_agrees " 010.0.0.0/08 ".toList "10.0.0.0/8".toList).1 (by decide)
    exact ⟨cidr, network, hmatch, hparse⟩
  · have hread := ((sourceCidr_agrees [] "10.0.0.0/+8".toList).2 (Ipv4Addr.new 10 0 0 0) 8
      (by decide)).mpr hcanonical
    exact absurd hread (by decide)

end Web

end AutobricksVpn
