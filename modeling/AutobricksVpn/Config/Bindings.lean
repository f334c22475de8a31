/-
# `AutobricksVpn.Config.Bindings` — what a valid `[client]` section says

`validate_client_bindings` reads the entries one after the other and compares
each with those before it.  What it comes to can be said without an order: every
entry is a binding of an address in the network (`bindingOf`, `Accepted`), no
address and no fingerprint stands there twice, and the table holds just these
bindings (`bindClients_ok`).

So the table does not depend on the order of the entries, a fingerprint leads
back to one address, and an address with a login is in the table
(`bindings_exact`).
-/
import AutobricksVpn.Net.Cidr
import Mathlib.Tactic.IntervalCases

namespace AutobricksVpn

/-! ## Fingerprints -/

/-- The field of the fingerprint. -/
def firstField (value : Text) : Text := (Text.splitWhitespace value).headD []

/-- 64 hexadecimal digits, with colons anywhere. -/
def IsFingerprint (field : Text) : Prop :=
  (field.filter (· ≠ ':')).length = 64 ∧ ∀ c ∈ field.filter (· ≠ ':'), Text.isHexDigit c = true

/-- The digits in lower case. -/
def fingerprintOf (value : Text) : Text :=
  Text.toAsciiLowercase ((firstField value).filter (· ≠ ':'))

def toLower (c : Char) : Char := if 'A' ≤ c ∧ c ≤ 'Z' then Char.ofNat (c.toNat + 32) else c

theorem toLower_cases (c : Char) :
    toLower c = c ∧ ¬ ('A' ≤ c ∧ c ≤ 'Z') ∨
      ∃ n, 65 ≤ n ∧ n ≤ 90 ∧ c = Char.ofNat n ∧ toLower c = Char.ofNat (n + 32) := by
  unfold toLower
  by_cases h : 'A' ≤ c ∧ c ≤ 'Z'
  · refine .inr ⟨c.toNat, ?_, ?_, (Char.ofNat_toNat c).symm, if_pos h⟩
    · exact h.1
    · exact h.2
  · exact .inl ⟨if_neg h, h⟩

theorem isHexDigit_toLower (c : Char) : Text.isHexDigit (toLower c) = Text.isHexDigit c := by
  rcases toLower_cases c with ⟨h, -⟩ | ⟨n, hlo, hhi, hc, h⟩
  · rw [h]
  · rw [h, hc]
    interval_cases n <;> decide

/-- No capital is left. -/
theorem not_capital_toLower (c : Char) : ¬ ('A' ≤ toLower c ∧ toLower c ≤ 'Z') := by
  rcases toLower_cases c with ⟨h, hnot⟩ | ⟨n, hlo, hhi, -, h⟩
  · rw [h]
    exact hnot
  · rw [h]
    interval_cases n <;> decide

theorem toAsciiLowercase_eq (t : Text) : Text.toAsciiLowercase t = t.map toLower := rfl

theorem normalizeSha256Fingerprint_ok {field digits : Text} :
    normalizeSha256Fingerprint field = .ok digits ↔
      IsFingerprint field ∧ digits = Text.toAsciiLowercase (field.filter (· ≠ ':')) := by
  have hall : (Text.toAsciiLowercase (field.filter (· ≠ ':'))).all Text.isHexDigit = true ↔
      ∀ c ∈ field.filter (· ≠ ':'), Text.isHexDigit c = true := by
    rw [toAsciiLowercase_eq, List.all_map, List.all_eq_true]
    exact forall₂_congr fun c _ => by rw [Function.comp_apply, isHexDigit_toLower]
  unfold normalizeSha256Fingerprint IsFingerprint
  rw [← hall, ← List.length_map (f := toLower), ← toAsciiLowercase_eq]
  dsimp only
  split
  · rename_i h
    exact ⟨fun heq => ⟨h, (Except.ok.inj heq).symm⟩, fun heq => congrArg Except.ok heq.2.symm⟩
  · rename_i h
    exact iff_of_false (fun heq => by cases heq) fun heq => h heq.1

/-! ## Bindings -/

/-- The binding that an entry is. -/
def bindingOf (entry : Text × Text) : Option (Ipv4Addr × String) :=
  match Text.parseIpv4 entry.1, normalizeSha256Fingerprint (firstField entry.2) with
  | some address, .ok digits => some (address, String.ofList digits)
  | _, _ => none

theorem bindingOf_some {entry : Text × Text} {b : Ipv4Addr × String} :
    bindingOf entry = some b ↔
      Text.parseIpv4 entry.1 = some b.1 ∧ IsFingerprint (firstField entry.2) ∧
        b.2 = String.ofList (fingerprintOf entry.2) := by
  unfold bindingOf
  constructor
  · intro h
    split at h
    · rename_i address digits haddress hdigits
      obtain ⟨hfingerprint, rfl⟩ := normalizeSha256Fingerprint_ok.mp hdigits
      rw [← Option.some.inj h]
      exact ⟨haddress, hfingerprint, rfl⟩
    · cases h
  · rintro ⟨haddress, hfingerprint, hb⟩
    rw [haddress, normalizeSha256Fingerprint_ok.mpr ⟨hfingerprint, rfl⟩]
    exact congrArg some (Prod.ext rfl hb.symm)

/-- The bindings `bs` that the entries are, each of an address for a client and
none twice. -/
structure Accepted (serverAddress network : Ipv4Addr) (prefixLen : Nat) (entries : List (Text × Text))
    (bs : List (Ipv4Addr × String)) : Prop where
  read : entries.map bindingOf = bs.map some
  inside : ∀ b ∈ bs, ipv4InCidr b.1 network prefixLen = true
  notServer : ∀ b ∈ bs, b.1 ≠ serverAddress
  addresses : (bs.map Prod.fst).Nodup
  fingerprints : (bs.map Prod.snd).Nodup

/-- Nothing of the binding is in the table yet. -/
def New (bindings : AList fun _ : Ipv4Addr => String) (b : Ipv4Addr × String) : Prop :=
  b.1 ∉ bindings ∧ ∀ e ∈ bindings.entries, e.2 ≠ b.2

section Loop

variable {serverAddress network : Ipv4Addr} {prefixLen : Nat} {text : Text}
  {entries : List (Text × Text)} {bindings result : AList fun _ : Ipv4Addr => String}
  {b c : Ipv4Addr × String} {bs : List (Ipv4Addr × String)}

/-- One turn of the loop. -/
theorem bindClients_cons {entry : Text × Text} :
    bindClients serverAddress text network prefixLen (entry :: entries) bindings = .ok result ↔
      ∃ b, bindingOf entry = some b ∧ ipv4InCidr b.1 network prefixLen = true ∧
        b.1 ≠ serverAddress ∧ New bindings b ∧
        bindClients serverAddress text network prefixLen entries (bindings.insert b.1 b.2) =
          .ok result := by
  obtain ⟨ip, value⟩ := entry
  have hany : ∀ f : String, bindings.entries.any (fun e => e.2 == f) = true ↔
      ¬ ∀ e ∈ bindings.entries, e.2 ≠ f := by
    intro f
    rw [List.any_eq_true]
    push Not
    exact exists_congr fun e => and_congr_right fun _ => beq_iff_eq
  constructor
  · intro h
    rw [bindClients] at h
    split at h
    · cases h
    · rename_i address haddress
      dsimp only at h
      split at h
      · cases h
      rename_i hinside
      split at h
      · cases h
      rename_i hserver
      split at h
      · cases h
      rename_i hnew
      split at h
      · cases h
      rename_i digits hdigits
      split at h
      · cases h
      rename_i hunused
      obtain ⟨hfingerprint, hspelt⟩ := normalizeSha256Fingerprint_ok.mp hdigits
      refine ⟨(address, String.ofList digits), ?_, ?_, hserver, ⟨?_, ?_⟩, h⟩
      · exact bindingOf_some.mpr ⟨haddress, hfingerprint, congrArg String.ofList hspelt⟩
      · exact Bool.not_eq_false _ ▸ fun hfalse => hinside (by rw [hfalse]; rfl)
      · exact fun hmem => hnew (AList.lookup_isSome.mpr hmem)
      · exact Decidable.not_not.mp ((hany _).not.mp hunused)
  · rintro ⟨⟨address, f⟩, hb, hinside, hserver, ⟨hnew, hunused⟩, h⟩
    obtain ⟨haddress, hfingerprint, hf⟩ := bindingOf_some.mp hb
    dsimp only at haddress hinside hserver hnew hunused hf h
    rw [bindClients, haddress]
    dsimp only
    rw [hinside, if_neg (by decide), if_neg hserver, if_neg fun hsome => hnew (AList.lookup_isSome.mp hsome)]
    have hdigits : normalizeSha256Fingerprint ((Text.splitWhitespace value).headD []) =
        .ok (fingerprintOf value) := normalizeSha256Fingerprint_ok.mpr ⟨hfingerprint, rfl⟩
    rw [hdigits]
    dsimp only
    rw [← hf, if_neg fun h => (hany f).mp h hunused]
    exact h

/-- What is new after `c` was entered. -/
theorem new_insert (hc : New bindings c) :
    New (bindings.insert c.1 c.2) b ↔ New bindings b ∧ b.1 ≠ c.1 ∧ b.2 ≠ c.2 := by
  unfold New
  rw [AList.mem_insert, AList.entries_insert_of_notMem hc.1, not_or, List.forall_mem_cons]
  exact ⟨fun h => ⟨⟨h.1.2, h.2.2⟩, h.1.1, fun heq => h.2.1 heq.symm⟩,
    fun h => ⟨⟨h.2.1, h.1.1⟩, fun heq => h.2.2 heq.symm, h.1.2⟩⟩

/-- The whole loop: the entries are bindings, all new and none twice, and the
table is what it was with the bindings in front, the last one first. -/
theorem bindClients_ok :
    bindClients serverAddress text network prefixLen entries bindings = .ok result ↔
      ∃ bs, Accepted serverAddress network prefixLen entries bs ∧ (∀ b ∈ bs, New bindings b) ∧
        result.entries = (bs.map fun b => ⟨b.1, b.2⟩).reverse ++ bindings.entries := by
  induction entries generalizing bindings with
  | nil =>
      constructor
      · intro h
        obtain rfl := Except.ok.inj h
        exact ⟨[], ⟨rfl, by simp, by simp, List.nodup_nil, List.nodup_nil⟩, by simp, rfl⟩
      · rintro ⟨bs, haccepted, -, hresult⟩
        obtain rfl : bs = [] := List.map_eq_nil_iff.mp haccepted.read.symm
        exact congrArg Except.ok (AList.ext hresult).symm
  | cons entry entries ih =>
      rw [bindClients_cons]
      constructor
      · rintro ⟨c, hc, hinside, hserver, hnew, h⟩
        obtain ⟨bs, haccepted, hall, hresult⟩ := ih.mp h
        have hrest := fun b hb => (new_insert hnew).mp (hall b hb)
        refine ⟨c :: bs, ⟨?_, ?_, ?_, ?_, ?_⟩, ?_, ?_⟩
        · rw [List.map_cons, List.map_cons, hc, haccepted.read]
        · exact List.forall_mem_cons.mpr ⟨hinside, haccepted.inside⟩
        · exact List.forall_mem_cons.mpr ⟨hserver, haccepted.notServer⟩
        · refine List.nodup_cons.mpr ⟨fun hmem => ?_, haccepted.addresses⟩
          obtain ⟨b, hb, heq⟩ := List.mem_map.mp hmem
          exact (hrest b hb).2.1 heq
        · refine List.nodup_cons.mpr ⟨fun hmem => ?_, haccepted.fingerprints⟩
          obtain ⟨b, hb, heq⟩ := List.mem_map.mp hmem
          exact (hrest b hb).2.2 heq
        · exact List.forall_mem_cons.mpr ⟨hnew, fun b hb => (hrest b hb).1⟩
        · rw [hresult, AList.entries_insert_of_notMem hnew.1, List.map_cons, List.reverse_cons,
            List.append_assoc]
          rfl
      · rintro ⟨bs, haccepted, hall, hresult⟩
        cases bs with
        | nil => cases haccepted.read
        | cons c bs =>
            obtain ⟨hc, hread⟩ := List.cons.inj haccepted.read
            obtain ⟨hinside, hinside'⟩ := List.forall_mem_cons.mp haccepted.inside
            obtain ⟨hserver, hserver'⟩ := List.forall_mem_cons.mp haccepted.notServer
            obtain ⟨haddress, haddresses⟩ := List.nodup_cons.mp haccepted.addresses
            obtain ⟨hfingerprint, hfingerprints⟩ := List.nodup_cons.mp haccepted.fingerprints
            obtain ⟨hnew, hnew'⟩ := List.forall_mem_cons.mp hall
            refine ⟨c, hc, hinside, hserver, hnew, ih.mpr ⟨bs, ?_, fun b hb => ?_, ?_⟩⟩
            · exact ⟨hread, hinside', hserver', haddresses, hfingerprints⟩
            · exact (new_insert hnew).mpr ⟨hnew' b hb,
                fun heq => haddress (List.mem_map.mpr ⟨b, hb, heq⟩),
                fun heq => hfingerprint (List.mem_map.mpr ⟨b, hb, heq⟩)⟩
            · rw [hresult, AList.entries_insert_of_notMem hnew.1, List.map_cons, List.reverse_cons,
                List.append_assoc]
              rfl

theorem validateClientBindings_ok {networkText : Text} :
    validateClientBindings entries serverAddress networkText = .ok result ↔
      ∃ network prefixLen bs, Cidr networkText network prefixLen ∧
        Accepted serverAddress network prefixLen entries bs ∧
        result.entries = (bs.map fun b => ⟨b.1, b.2⟩).reverse := by
  unfold validateClientBindings
  constructor
  · intro h
    split at h
    · cases h
    · rename_i network prefixLen hcidr
      obtain ⟨bs, haccepted, -, hresult⟩ := bindClients_ok.mp h
      rw [AList.empty_entries, List.append_nil] at hresult
      exact ⟨network, prefixLen, bs, parseIpv4Cidr_ok.mp hcidr, haccepted, hresult⟩
  · rintro ⟨network, prefixLen, bs, hcidr, haccepted, hresult⟩
    rw [parseIpv4Cidr_ok.mpr hcidr]
    refine bindClients_ok.mpr ⟨bs, haccepted, fun b _ => ⟨AList.notMem_empty _, ?_⟩, ?_⟩
    · exact fun e he => absurd he List.not_mem_nil
    · rw [AList.empty_entries, List.append_nil]
      exact hresult

/-- What stands in the table. -/
theorem lookup_of_entries (hresult : result.entries = (bs.map fun b => ⟨b.1, b.2⟩).reverse)
    (address : Ipv4Addr) (f : String) : result.lookup address = some f ↔ (address, f) ∈ bs := by
  rw [← Option.mem_def, AList.mem_lookup_iff, hresult, List.mem_reverse, List.mem_map]
  constructor
  · rintro ⟨b, hb, heq⟩
    obtain ⟨rfl, hvalue⟩ := Sigma.mk.inj heq
    rw [← eq_of_heq hvalue]
    exact hb
  · exact fun h => ⟨_, h, rfl⟩

end Loop

/-! ## Without an order -/

/-- The entry binds an address for a client to a fingerprint. -/
def Proper (serverAddress network : Ipv4Addr) (prefixLen : Nat) (entry : Text × Text) : Prop :=
  ∃ address, Text.parseIpv4 entry.1 = some address ∧ SamePrefix prefixLen address network ∧
    address ≠ serverAddress ∧ IsFingerprint (firstField entry.2)

/-- The entries bind addresses for clients, and nothing twice. -/
structure ValidEntries (serverAddress : Ipv4Addr) (networkText : Text) (network : Ipv4Addr)
    (prefixLen : Nat) (entries : List (Text × Text)) : Prop where
  cidr : Cidr networkText network prefixLen
  proper : ∀ entry ∈ entries, Proper serverAddress network prefixLen entry
  addresses : (entries.map fun entry => Text.parseIpv4 entry.1).Nodup
  fingerprints : (entries.map fun entry => fingerprintOf entry.2).Nodup

theorem exists_map_some {α β : Type} {f : α → Option β} :
    ∀ {l : List α}, (∀ x ∈ l, ∃ y, f x = some y) → ∃ ys : List β, l.map f = ys.map some := by
  intro l
  induction l with
  | nil => exact fun _ => ⟨[], rfl⟩
  | cons x l ih =>
      intro h
      obtain ⟨⟨y, hy⟩, hrest⟩ := List.forall_mem_cons.mp h
      obtain ⟨ys, hys⟩ := ih hrest
      exact ⟨y :: ys, by rw [List.map_cons, List.map_cons, hy, hys]⟩

section Order

variable {serverAddress network : Ipv4Addr} {prefixLen : Nat} {networkText : Text}
  {entries entries' : List (Text × Text)} {result : AList fun _ : Ipv4Addr => String}
  {bs : List (Ipv4Addr × String)}

theorem mem_of_read (hread : entries.map bindingOf = bs.map some) (b : Ipv4Addr × String) :
    b ∈ bs ↔ ∃ entry ∈ entries, bindingOf entry = some b := by
  rw [← List.mem_map, hread, List.mem_map]
  exact ⟨fun h => ⟨b, h, rfl⟩, fun ⟨c, hc, heq⟩ => Option.some.inj heq ▸ hc⟩

theorem exists_of_read (hread : entries.map bindingOf = bs.map some) :
    ∀ entry ∈ entries, ∃ b ∈ bs, bindingOf entry = some b := by
  intro entry hentry
  have hmem : bindingOf entry ∈ bs.map some := hread ▸ List.mem_map.mpr ⟨entry, hentry, rfl⟩
  obtain ⟨b, hb, heq⟩ := List.mem_map.mp hmem
  exact ⟨b, hb, heq.symm⟩

/-- The addresses and the fingerprints, entry by entry. -/
theorem columns_of_read (hread : entries.map bindingOf = bs.map some) :
    (entries.map fun entry => Text.parseIpv4 entry.1) = (bs.map Prod.fst).map some ∧
      (entries.map fun entry => fingerprintOf entry.2).map String.ofList = bs.map Prod.snd := by
  induction entries generalizing bs with
  | nil =>
      obtain rfl : bs = [] := List.map_eq_nil_iff.mp hread.symm
      exact ⟨rfl, rfl⟩
  | cons entry entries ih =>
      cases bs with
      | nil => cases hread
      | cons b bs =>
          obtain ⟨hb, hread⟩ := List.cons.inj hread
          obtain ⟨haddress, -, hf⟩ := bindingOf_some.mp hb
          obtain ⟨haddresses, hfingerprints⟩ := ih hread
          simp only [List.map_cons]
          rw [haddress, haddresses, hfingerprints, hf]
          exact ⟨rfl, rfl⟩

theorem accepted_iff (hcidr : Cidr networkText network prefixLen) :
    (∃ bs, Accepted serverAddress network prefixLen entries bs) ↔
      ValidEntries serverAddress networkText network prefixLen entries := by
  have hinside : ∀ address, ipv4InCidr address network prefixLen = true ↔
      SamePrefix prefixLen address network := fun _ => ipv4InCidr_iff hcidr.bound hcidr.canonical
  have hofList : Function.Injective String.ofList := fun _ _ => String.ofList_injective
  constructor
  · rintro ⟨bs, h⟩
    obtain ⟨haddresses, hfingerprints⟩ := columns_of_read h.read
    refine ⟨hcidr, fun entry hentry => ?_, ?_, ?_⟩
    · obtain ⟨b, hb, heq⟩ := exists_of_read h.read entry hentry
      obtain ⟨haddress, hfingerprint, -⟩ := bindingOf_some.mp heq
      exact ⟨b.1, haddress, (hinside b.1).mp (h.inside b hb), h.notServer b hb, hfingerprint⟩
    · rw [haddresses]
      exact h.addresses.map (Option.some_injective _)
    · refine List.Nodup.of_map String.ofList ?_
      rw [hfingerprints]
      exact h.fingerprints
  · intro h
    have hsome : ∀ entry ∈ entries, ∃ b, bindingOf entry = some b := by
      intro entry hentry
      obtain ⟨address, haddress, -, -, hfingerprint⟩ := h.proper entry hentry
      exact ⟨(address, String.ofList (fingerprintOf entry.2)),
        bindingOf_some.mpr ⟨haddress, hfingerprint, rfl⟩⟩
    obtain ⟨bs, hread⟩ := exists_map_some hsome
    obtain ⟨haddresses, hfingerprints⟩ := columns_of_read hread
    have hproper : ∀ b ∈ bs, ipv4InCidr b.1 network prefixLen = true ∧ b.1 ≠ serverAddress := by
      intro b hb
      obtain ⟨entry, hentry, heq⟩ := (mem_of_read hread b).mp hb
      obtain ⟨address, haddress, hsame, hserver, -⟩ := h.proper entry hentry
      obtain rfl := Option.some.inj (haddress.symm.trans (bindingOf_some.mp heq).1)
      exact ⟨(hinside b.1).mpr hsame, hserver⟩
    refine ⟨bs, hread, fun b hb => (hproper b hb).1, fun b hb => (hproper b hb).2, ?_, ?_⟩
    · refine List.Nodup.of_map some ?_
      rw [← haddresses]
      exact h.addresses
    · rw [← hfingerprints]
      exact h.fingerprints.map hofList

theorem validate_isOk :
    (∃ result, validateClientBindings entries serverAddress networkText = .ok result) ↔
      ∃ network prefixLen, ValidEntries serverAddress networkText network prefixLen entries := by
  constructor
  · rintro ⟨result, h⟩
    obtain ⟨network, prefixLen, bs, hcidr, haccepted, -⟩ := validateClientBindings_ok.mp h
    exact ⟨network, prefixLen, (accepted_iff hcidr).mp ⟨bs, haccepted⟩⟩
  · rintro ⟨network, prefixLen, hvalid⟩
    obtain ⟨bs, haccepted⟩ := (accepted_iff hvalid.cidr).mpr hvalid
    have hkeys : ((bs.map fun b : Ipv4Addr × String =>
        (⟨b.1, b.2⟩ : Sigma fun _ : Ipv4Addr => String)).reverse).NodupKeys := by
      rw [List.NodupKeys, List.keys, List.map_reverse, List.nodup_reverse, List.map_map]
      exact haccepted.addresses
    exact ⟨⟨_, hkeys⟩, validateClientBindings_ok.mpr ⟨network, prefixLen, bs, hvalid.cidr, haccepted, rfl⟩⟩

/-- What the table says of an address. -/
theorem validate_lookup (h : validateClientBindings entries serverAddress networkText = .ok result)
    (address : Ipv4Addr) (f : String) :
    result.lookup address = some f ↔
      ∃ entry ∈ entries, Text.parseIpv4 entry.1 = some address ∧
        f = String.ofList (fingerprintOf entry.2) := by
  obtain ⟨network, prefixLen, bs, hcidr, haccepted, hresult⟩ := validateClientBindings_ok.mp h
  rw [lookup_of_entries hresult, mem_of_read haccepted.read]
  refine exists_congr fun entry => and_congr_right fun hentry => ?_
  rw [bindingOf_some]
  obtain ⟨b, -, hb⟩ := exists_of_read haccepted.read entry hentry
  exact ⟨fun h => ⟨h.1, h.2.2⟩, fun h => ⟨h.1, (bindingOf_some.mp hb).2.1, h.2⟩⟩

theorem ValidEntries.perm (hperm : entries.Perm entries') :
    ValidEntries serverAddress networkText network prefixLen entries →
    ValidEntries serverAddress networkText network prefixLen entries' := by
  intro h
  exact ⟨h.cidr, fun entry hentry => h.proper entry (hperm.mem_iff.mpr hentry),
    (hperm.map _).nodup_iff.mp h.addresses, (hperm.map _).nodup_iff.mp h.fingerprints⟩

theorem ValidEntries.sublist (hsub : entries.Sublist entries') :
    ValidEntries serverAddress networkText network prefixLen entries' →
    ValidEntries serverAddress networkText network prefixLen entries := by
  intro h
  exact ⟨h.cidr, fun entry hentry => h.proper entry (hsub.subset hentry),
    h.addresses.sublist (hsub.map _), h.fingerprints.sublist (hsub.map _)⟩

/-- One entry more. -/
theorem validEntries_cons {entry : Text × Text} :
    ValidEntries serverAddress networkText network prefixLen (entry :: entries) ↔
      ValidEntries serverAddress networkText network prefixLen entries ∧
        Proper serverAddress network prefixLen entry ∧
        (∀ other ∈ entries, Text.parseIpv4 other.1 ≠ Text.parseIpv4 entry.1) ∧
        ∀ other ∈ entries, fingerprintOf other.2 ≠ fingerprintOf entry.2 := by
  have hnotMem : ∀ {β : Type} (f : Text × Text → β),
      f entry ∉ entries.map f ↔ ∀ other ∈ entries, f other ≠ f entry := by
    intro β f
    rw [List.mem_map, not_exists]
    exact forall_congr' fun other => not_and
  constructor
  · intro h
    obtain ⟨haddress, haddresses⟩ := List.nodup_cons.mp h.addresses
    obtain ⟨hfingerprint, hfingerprints⟩ := List.nodup_cons.mp h.fingerprints
    obtain ⟨hproper, hothers⟩ := List.forall_mem_cons.mp h.proper
    exact ⟨⟨h.cidr, hothers, haddresses, hfingerprints⟩, hproper, (hnotMem _).mp haddress,
      (hnotMem _).mp hfingerprint⟩
  · rintro ⟨h, hproper, haddress, hfingerprint⟩
    exact ⟨h.cidr, List.forall_mem_cons.mpr ⟨hproper, h.proper⟩,
      List.nodup_cons.mpr ⟨(hnotMem fun entry => Text.parseIpv4 entry.1).mpr haddress, h.addresses⟩,
      List.nodup_cons.mpr ⟨(hnotMem fun entry => fingerprintOf entry.2).mpr hfingerprint,
        h.fingerprints⟩⟩

end Order

/-! ## Logins -/

/-- The login that an entry gives. -/
def entryLogin (entry : Text × Text) : Option (Ipv4Addr × String × String) :=
  match Text.splitWhitespace entry.2 with
  | [_, id, password] =>
      (Text.parseIpv4 entry.1).map fun address => (address, String.ofList id, String.ofList password)
  | _ => none

/-- The fields of an entry without a login, or with one. -/
def HasLoginFields (entry : Text × Text) : Prop :=
  (∃ field, Text.splitWhitespace entry.2 = [field]) ∨
    ∃ field id password address, Text.splitWhitespace entry.2 = [field, id, password] ∧
      Text.parseIpv4 entry.1 = some address

/-- The table with the login of one more entry. -/
def withLogin (logins : AList fun _ : Ipv4Addr => String × String) (entry : Text × Text) :
    AList fun _ : Ipv4Addr => String × String :=
  match entryLogin entry with
  | some (address, login) => logins.insert address login
  | none => logins

section Logins

variable {logins result : AList fun _ : Ipv4Addr => String × String} {entry : Text × Text}
  {entries : List (Text × Text)} {address : Ipv4Addr} {login : String × String}

theorem clientLogin_ok :
    clientLogin logins entry = .ok result ↔ HasLoginFields entry ∧ result = withLogin logins entry := by
  obtain ⟨ip, value⟩ := entry
  unfold clientLogin HasLoginFields withLogin entryLogin
  dsimp only
  constructor
  · intro h
    split at h
    · rename_i field hfields
      rw [hfields]
      exact ⟨.inl ⟨field, rfl⟩, (Except.ok.inj h).symm⟩
    · rename_i field id password hfields
      split at h
      · rename_i address haddress
        rw [hfields, haddress]
        exact ⟨.inr ⟨field, id, password, address, rfl, rfl⟩, (Except.ok.inj h).symm⟩
      · cases h
    · cases h
  · rintro ⟨⟨field, hfields⟩ | ⟨field, id, password, address, hfields, haddress⟩, rfl⟩
    · rw [hfields]
    · rw [hfields]
      dsimp only
      rw [haddress]
      rfl

theorem foldlM_clientLogin :
    entries.foldlM clientLogin logins = .ok result ↔
      (∀ entry ∈ entries, HasLoginFields entry) ∧ result = entries.foldl withLogin logins := by
  induction entries generalizing logins with
  | nil =>
      exact ⟨fun h => ⟨fun _ h => absurd h List.not_mem_nil, (Except.ok.inj h).symm⟩,
        fun h => congrArg Except.ok h.2.symm⟩
  | cons entry entries ih =>
      rw [List.foldlM_cons, List.forall_mem_cons, List.foldl_cons]
      constructor
      · intro h
        cases hfirst : clientLogin logins entry with
        | error error =>
            rw [hfirst] at h
            cases h
        | ok next =>
            rw [hfirst] at h
            obtain ⟨hfields, rfl⟩ := clientLogin_ok.mp hfirst
            obtain ⟨hrest, hresult⟩ := ih.mp h
            exact ⟨⟨hfields, hrest⟩, hresult⟩
      · rintro ⟨⟨hfields, hrest⟩, hresult⟩
        rw [clientLogin_ok.mpr ⟨hfields, rfl⟩]
        exact ih.mpr ⟨hrest, hresult⟩

theorem address_of_entryLogin (h : entryLogin entry = some (address, login)) :
    Text.parseIpv4 entry.1 = some address := by
  unfold entryLogin at h
  split at h
  · obtain ⟨a, ha, heq⟩ := Option.map_eq_some_iff.mp h
    rw [← (Prod.mk.inj heq).1]
    exact ha
  · cases h

/-- An address with a login is the address of an entry. -/
theorem mem_foldl_withLogin :
    address ∈ entries.foldl withLogin logins →
    address ∈ logins ∨ ∃ entry ∈ entries, Text.parseIpv4 entry.1 = some address := by
  induction entries generalizing logins with
  | nil => exact .inl
  | cons entry entries ih =>
      intro h
      rcases ih h with h | ⟨other, hother, haddress⟩
      · unfold withLogin at h
        split at h
        · rename_i a login hlogin
          rcases (AList.mem_insert _).mp h with rfl | h
          · exact .inr ⟨entry, List.mem_cons_self, address_of_entryLogin hlogin⟩
          · exact .inl h
        · exact .inl h
      · exact .inr ⟨other, List.mem_cons_of_mem _ hother, haddress⟩

/-- An entry more, of an address that the others do not have. -/
theorem lookup_withLogin :
    (withLogin logins entry).lookup address = some login ↔
      entryLogin entry = some (address, login) ∨
        (∀ l, entryLogin entry ≠ some (address, l)) ∧ logins.lookup address = some login := by
  unfold withLogin
  split
  · rename_i a l hentry
    rw [hentry]
    by_cases ha : address = a
    · subst ha
      rw [AList.lookup_insert]
      constructor
      · intro h
        exact .inl (by rw [Option.some.inj h])
      · rintro (h | ⟨h, -⟩)
        · rw [(Prod.mk.inj (Option.some.inj h)).2]
        · exact absurd rfl (h l)
    · rw [AList.lookup_insert_ne ha]
      constructor
      · exact fun h => .inr ⟨fun l' h' => ha (Prod.mk.inj (Option.some.inj h')).1.symm, h⟩
      · rintro (h | ⟨-, h⟩)
        · exact absurd (Prod.mk.inj (Option.some.inj h)).1.symm ha
        · exact h
  · rename_i hentry
    rw [hentry]
    constructor
    · exact fun h => .inr ⟨fun l hl => absurd hl (by simp), h⟩
    · rintro (h | ⟨-, h⟩)
      · cases h
      · exact h

theorem lookup_foldl_withLogin (hnodup : (entries.map fun entry => Text.parseIpv4 entry.1).Nodup) :
    (entries.foldl withLogin logins).lookup address = some login ↔
      (∃ entry ∈ entries, entryLogin entry = some (address, login)) ∨
        (∀ entry ∈ entries, ∀ l, entryLogin entry ≠ some (address, l)) ∧
          logins.lookup address = some login := by
  induction entries generalizing logins with
  | nil => simp
  | cons entry entries ih =>
      obtain ⟨hnew, hnodup⟩ := List.nodup_cons.mp hnodup
      -- The address stands in one entry only.
      have hother : ∀ l, entryLogin entry = some (address, l) →
          ∀ other ∈ entries, ∀ l', entryLogin other ≠ some (address, l') := by
        intro l hl other hmem l' hl'
        refine hnew (List.mem_map.mpr ⟨other, hmem, ?_⟩)
        exact (address_of_entryLogin hl').trans (address_of_entryLogin hl).symm
      rw [List.foldl_cons, ih hnodup, lookup_withLogin]
      constructor
      · rintro (⟨other, hmem, h⟩ | ⟨hnone, h | ⟨hfirst, h⟩⟩)
        · exact .inl ⟨other, List.mem_cons_of_mem _ hmem, h⟩
        · exact .inl ⟨entry, List.mem_cons_self, h⟩
        · exact .inr ⟨List.forall_mem_cons.mpr ⟨hfirst, hnone⟩, h⟩
      · rintro (⟨other, hmem, h⟩ | ⟨hnone, h⟩)
        · rcases List.mem_cons.mp hmem with rfl | hmem
          · exact .inr ⟨hother login h, .inl h⟩
          · exact .inl ⟨other, hmem, h⟩
        · obtain ⟨hfirst, hnone⟩ := List.forall_mem_cons.mp hnone
          exact .inr ⟨hnone, .inr ⟨hfirst, h⟩⟩

/-- What the table says of an address. -/
theorem clientLogins_lookup (h : clientLogins entries = .ok result)
    (hnodup : (entries.map fun entry => Text.parseIpv4 entry.1).Nodup) :
    result.lookup address = some login ↔
      ∃ entry ∈ entries, entryLogin entry = some (address, login) := by
  obtain ⟨-, rfl⟩ := foldlM_clientLogin.mp h
  rw [lookup_foldl_withLogin hnodup, or_iff_left]
  rintro ⟨-, hnone⟩
  cases hnone

end Logins

/-! ## A valid section -/

/-- **Bindings.**  `validate_client_bindings` accepts the entries just when each
is a binding and nothing stands there twice.  The table then holds one
fingerprint in lower case for each entry, no fingerprint twice; in another order
the entries give the same table, or an error again; and who has a login has a
binding. -/
theorem bindings_exact (entries : List (Text × Text)) (serverAddress : Ipv4Addr)
    (networkText : Text) :
    ((∃ bindings, validateClientBindings entries serverAddress networkText = .ok bindings) ↔
      ∃ network prefixLen, ValidEntries serverAddress networkText network prefixLen entries) ∧
    (∀ bindings, validateClientBindings entries serverAddress networkText = .ok bindings →
      bindings.entries.length = entries.length ∧
      (∀ address f, bindings.lookup address = some f ↔
        ∃ entry ∈ entries, Text.parseIpv4 entry.1 = some address ∧
          f = String.ofList (fingerprintOf entry.2)) ∧
      (∀ address f, bindings.lookup address = some f → f.toList.length = 64 ∧
        ∀ c ∈ f.toList, Text.isHexDigit c = true ∧ ¬ ('A' ≤ c ∧ c ≤ 'Z')) ∧
      (∀ a b f, bindings.lookup a = some f → bindings.lookup b = some f → a = b) ∧
      (∀ entries', entries.Perm entries' → ∃ bindings',
        validateClientBindings entries' serverAddress networkText = .ok bindings' ∧
          ∀ address, bindings'.lookup address = bindings.lookup address) ∧
      ∀ logins, clientLogins entries = .ok logins → ∀ address ∈ logins, address ∈ bindings) ∧
    ∀ error, validateClientBindings entries serverAddress networkText = .error error →
      ∀ entries', entries.Perm entries' → ∃ error',
        validateClientBindings entries' serverAddress networkText = .error error' := by
  have hpermOk : ∀ {entries entries' : List (Text × Text)}, entries.Perm entries' →
      (∃ bindings, validateClientBindings entries serverAddress networkText = .ok bindings) →
      ∃ bindings', validateClientBindings entries' serverAddress networkText = .ok bindings' := by
    intro entries entries' hperm h
    obtain ⟨network, prefixLen, hvalid⟩ := validate_isOk.mp h
    exact validate_isOk.mpr ⟨network, prefixLen, hvalid.perm hperm⟩
  refine ⟨validate_isOk, fun bindings h => ⟨?_, validate_lookup h, ?_, ?_, ?_, ?_⟩, ?_⟩
  · obtain ⟨network, prefixLen, bs, -, haccepted, hresult⟩ := validateClientBindings_ok.mp h
    have hlength := congrArg List.length haccepted.read
    rw [List.length_map, List.length_map] at hlength
    rw [hresult, List.length_reverse, List.length_map, hlength]
  · intro address f hf
    obtain ⟨network, prefixLen, bs, -, haccepted, hresult⟩ := validateClientBindings_ok.mp h
    have hmem := (lookup_of_entries hresult address f).mp hf
    obtain ⟨entry, -, hentry⟩ := (mem_of_read haccepted.read _).mp hmem
    obtain ⟨-, ⟨hlength, hdigits⟩, hspelt⟩ := bindingOf_some.mp hentry
    dsimp only at hspelt
    rw [hspelt, String.toList_ofList, fingerprintOf, toAsciiLowercase_eq, List.length_map]
    refine ⟨hlength, fun c hc => ?_⟩
    obtain ⟨d, hd, rfl⟩ := List.mem_map.mp hc
    exact ⟨(isHexDigit_toLower d).trans (hdigits d hd), not_capital_toLower d⟩
  · intro a b f ha hb
    obtain ⟨network, prefixLen, bs, -, haccepted, hresult⟩ := validateClientBindings_ok.mp h
    have ha := (lookup_of_entries hresult a f).mp ha
    have hb := (lookup_of_entries hresult b f).mp hb
    have heq := List.inj_on_of_nodup_map haccepted.fingerprints ha hb rfl
    exact (Prod.mk.inj heq).1
  · intro entries' hperm
    obtain ⟨bindings', h'⟩ := hpermOk hperm ⟨bindings, h⟩
    refine ⟨bindings', h', fun address => Option.ext fun f => ?_⟩
    rw [validate_lookup h', validate_lookup h]
    exact exists_congr fun entry => and_congr_left fun _ => hperm.symm.mem_iff
  · intro logins hlogins address hmem
    obtain ⟨-, rfl⟩ := foldlM_clientLogin.mp hlogins
    rcases mem_foldl_withLogin hmem with hmem | ⟨entry, hentry, haddress⟩
    · exact absurd hmem (AList.notMem_empty _)
    · exact AList.lookup_isSome.mp (Option.isSome_iff_exists.mpr
        ⟨_, (validate_lookup h address _).mpr ⟨entry, hentry, haddress, rfl⟩⟩)
  · intro error h entries' hperm
    cases h' : validateClientBindings entries' serverAddress networkText with
    | error error' => exact ⟨error', rfl⟩
    | ok bindings' =>
        obtain ⟨bindings, hok⟩ := hpermOk hperm.symm ⟨bindings', h'⟩
        cases h.symm.trans hok

end AutobricksVpn
