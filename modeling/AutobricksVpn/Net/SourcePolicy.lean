/-
# `AutobricksVpn.Net.SourcePolicy` — from where a certificate may be used

`certificate_source_policy_allows` of `src/lib.rs`.  A client certificate may
name the network from which it is to be used, as an alternative name
`urn:autobricks:allowed-source-cidr:` with a network behind it.

Only the names that begin with `urn:autobricks:` count (`policyNames`).  The
loop ends with a policy or without one when there is at most one of them and it
can be read (`policyLoop_ok`); in all other cases it ends with an error, in
whatever order the names stand.
-/
import AutobricksVpn.Net.Cidr

namespace AutobricksVpn

def POLICY_URI_PREFIX : Text := "urn:autobricks:".toList

def ALLOWED_SOURCE_CIDR_URI_PREFIX : Text := "urn:autobricks:allowed-source-cidr:".toList

/-- The policy that a name of this program is, after the policy found so far. -/
def readPolicy (name : Text) (policy : Option (Ipv4Addr × Nat)) : Except IoError (Ipv4Addr × Nat) :=
  match Text.stripStart ALLOWED_SOURCE_CIDR_URI_PREFIX name with
  | none =>
      .error (.new .invalidData s!"unknown client certificate policy URI: {String.ofList name}")
  | some cidr =>
      if policy.isSome then
        .error (.new .invalidData
          "client certificate contains multiple allowed source CIDR policies")
      else parseIpv4Cidr cidr

/-- The loop over the names. -/
def policyLoop : List Text → Option (Ipv4Addr × Nat) → Except IoError (Option (Ipv4Addr × Nat))
  | [], policy => .ok policy
  | name :: names, policy =>
      if POLICY_URI_PREFIX.isPrefixOf name then
        match readPolicy name policy with
        | .error error => .error error
        | .ok found => policyLoop names (some found)
      else policyLoop names policy

def certificateSourcePolicyAllows (altNames : List Text) (source : Ipv4Addr) : Except IoError Bool :=
  (policyLoop altNames none).map fun policy =>
    (policy.map fun (network, prefixLen) => ipv4InCidr source network prefixLen).getD true

/-! ## The names that count -/

/-- The names that are policies of this program. -/
def policyNames (altNames : List Text) : List Text := altNames.filter (POLICY_URI_PREFIX.isPrefixOf ·)

theorem append_of_stripStart {start t rest : Text} (h : Text.stripStart start t = some rest) :
    t = start ++ rest := by
  unfold Text.stripStart at h
  split at h
  · rename_i hp
    obtain ⟨rest', rfl⟩ := List.isPrefixOf_iff_prefix.mp hp
    rw [← Option.some.inj h, List.drop_left]
  · cases h

theorem stripStart_append (start rest : Text) : Text.stripStart start (start ++ rest) = some rest := by
  unfold Text.stripStart
  rw [if_pos (List.isPrefixOf_iff_prefix.mpr (List.prefix_append _ _)), List.drop_left]

theorem policyNames_cons (name : Text) (names : List Text) :
    policyNames (name :: names) =
      if POLICY_URI_PREFIX.isPrefixOf name then name :: policyNames names else policyNames names :=
  List.filter_cons

/-- Names that do not count are passed over. -/
theorem policyLoop_eq_policyNames :
    ∀ (names : List Text) (policy : Option (Ipv4Addr × Nat)),
      policyLoop names policy = policyLoop (policyNames names) policy := by
  intro names
  induction names with
  | nil => exact fun _ => rfl
  | cons name names ih =>
      intro policy
      rw [policyNames_cons, policyLoop]
      by_cases hp : POLICY_URI_PREFIX.isPrefixOf name = true
      · rw [if_pos hp, if_pos hp, policyLoop, if_pos hp]
        cases readPolicy name policy with
        | error error => rfl
        | ok found => exact ih (some found)
      · rw [if_neg hp, if_neg hp]
        exact ih policy

/-- The first policy is an allowed source that can be read. -/
theorem readPolicy_none {name : Text} {network : Ipv4Addr} {prefixLen : Nat} :
    readPolicy name none = .ok (network, prefixLen) ↔
      ∃ cidr, name = ALLOWED_SOURCE_CIDR_URI_PREFIX ++ cidr ∧ Cidr cidr network prefixLen := by
  unfold readPolicy
  constructor
  · intro h
    split at h
    · cases h
    · rename_i cidr hcidr
      exact ⟨cidr, append_of_stripStart hcidr, parseIpv4Cidr_ok.mp h⟩
  · rintro ⟨cidr, rfl, hcidr⟩
    rw [stripStart_append]
    exact parseIpv4Cidr_ok.mpr hcidr

/-- A second one is an error. -/
theorem readPolicy_some (name : Text) (policy : Ipv4Addr × Nat) :
    ∃ error, readPolicy name (some policy) = .error error := by
  unfold readPolicy
  split <;> exact ⟨_, rfl⟩

/-- The only policy of the certificate. -/
def OnlyPolicy (altNames : List Text) (network : Ipv4Addr) (prefixLen : Nat) : Prop :=
  ∃ cidr, policyNames altNames = [ALLOWED_SOURCE_CIDR_URI_PREFIX ++ cidr] ∧
    Cidr cidr network prefixLen

/-- What the loop answers when it ends without an error. -/
theorem policyLoop_ok {altNames : List Text} {policy : Option (Ipv4Addr × Nat)} :
    policyLoop altNames none = .ok policy ↔
      (policyNames altNames = [] ∧ policy = none) ∨
      ∃ network prefixLen, OnlyPolicy altNames network prefixLen ∧ policy = some (network, prefixLen) := by
  have hcounts : ∀ name ∈ policyNames altNames, POLICY_URI_PREFIX.isPrefixOf name = true :=
    fun name hname => (List.mem_filter.mp hname).2
  rw [policyLoop_eq_policyNames]
  unfold OnlyPolicy
  generalize policyNames altNames = names at hcounts ⊢
  cases names with
  | nil =>
      constructor
      · exact fun h => .inl ⟨rfl, (Except.ok.inj h).symm⟩
      · rintro (⟨-, rfl⟩ | ⟨network, prefixLen, ⟨cidr, hone, -⟩, -⟩)
        · rfl
        · cases hone
  | cons name names =>
      rw [policyLoop, if_pos (hcounts name List.mem_cons_self)]
      constructor
      · intro h
        split at h
        · cases h
        · rename_i found hfound
          obtain ⟨cidr, rfl, hcidr⟩ := readPolicy_none.mp hfound
          cases names with
          | nil => exact .inr ⟨found.1, found.2, ⟨cidr, rfl, hcidr⟩, (Except.ok.inj h).symm⟩
          | cons second names =>
              obtain ⟨error, herror⟩ := readPolicy_some second found
              rw [policyLoop, if_pos (hcounts second (List.mem_cons_of_mem _ List.mem_cons_self)),
                herror] at h
              cases h
      · rintro (⟨hnil, -⟩ | ⟨network, prefixLen, ⟨cidr, hone, hcidr⟩, rfl⟩)
        · cases hnil
        · obtain ⟨rfl, rfl⟩ := List.cons.inj hone
          rw [readPolicy_none.mpr ⟨cidr, rfl, hcidr⟩]
          rfl

/-! ## What is allowed -/

section Answers

variable {altNames other : List Text} {source network : Ipv4Addr} {prefixLen : Nat}

theorem allows_ok {allowed : Bool} :
    certificateSourcePolicyAllows altNames source = .ok allowed ↔
      (policyNames altNames = [] ∧ allowed = true) ∨
      ∃ network prefixLen, OnlyPolicy altNames network prefixLen ∧
        allowed = ipv4InCidr source network prefixLen := by
  unfold certificateSourcePolicyAllows
  constructor
  · intro h
    cases hloop : policyLoop altNames none with
    | error error =>
        rw [hloop] at h
        cases h
    | ok policy =>
        rw [hloop] at h
        have hallowed := (Except.ok.inj h).symm
        rcases policyLoop_ok.mp hloop with ⟨hnil, rfl⟩ | ⟨network, prefixLen, hone, rfl⟩
        · exact .inl ⟨hnil, hallowed⟩
        · exact .inr ⟨network, prefixLen, hone, hallowed⟩
  · rintro (⟨hnil, rfl⟩ | ⟨network, prefixLen, hone, rfl⟩)
    · rw [policyLoop_ok.mpr (.inl ⟨hnil, rfl⟩)]
      rfl
    · rw [policyLoop_ok.mpr (.inr ⟨network, prefixLen, hone, rfl⟩)]
      rfl

theorem OnlyPolicy.inCidr_iff :
    OnlyPolicy altNames network prefixLen →
    (ipv4InCidr source network prefixLen = true ↔ SamePrefix prefixLen source network) := by
  rintro ⟨cidr, -, hcidr⟩
  exact ipv4InCidr_iff hcidr.bound hcidr.canonical

/-- In another order the certificate has the same only policy. -/
theorem OnlyPolicy.perm :
    altNames.Perm other → OnlyPolicy altNames network prefixLen → OnlyPolicy other network prefixLen := by
  rintro hperm ⟨cidr, hone, hcidr⟩
  have hnames : (policyNames altNames).Perm (policyNames other) := hperm.filter _
  rw [hone] at hnames
  exact ⟨cidr, List.singleton_perm.mp hnames |>.symm, hcidr⟩

theorem allows_perm {allowed : Bool} :
    altNames.Perm other → certificateSourcePolicyAllows altNames source = .ok allowed →
    certificateSourcePolicyAllows other source = .ok allowed := by
  intro hperm h
  have hnames : (policyNames altNames).Perm (policyNames other) := hperm.filter _
  refine allows_ok.mpr ((allows_ok.mp h).imp ?_ ?_)
  · rintro ⟨hnil, rfl⟩
    rw [hnil] at hnames
    exact ⟨List.nil_perm.mp hnames, rfl⟩
  · rintro ⟨network, prefixLen, hone, rfl⟩
    exact ⟨network, prefixLen, hone.perm hperm, rfl⟩

/-- The certificate has a policy that cannot be followed. -/
inductive BadPolicy (altNames : List Text) : Prop
  | unknown {name : Text} :
      name ∈ policyNames altNames → ¬ ALLOWED_SOURCE_CIDR_URI_PREFIX <+: name → BadPolicy altNames
  | several : 2 ≤ (policyNames altNames).length → BadPolicy altNames
  | malformed {cidr : Text} :
      ALLOWED_SOURCE_CIDR_URI_PREFIX ++ cidr ∈ altNames →
      (∀ network prefixLen, ¬ Cidr cidr network prefixLen) → BadPolicy altNames

theorem policyUri_isPrefixOf (cidr : Text) :
    POLICY_URI_PREFIX.isPrefixOf (ALLOWED_SOURCE_CIDR_URI_PREFIX ++ cidr) = true := by
  have hstart : POLICY_URI_PREFIX <+: ALLOWED_SOURCE_CIDR_URI_PREFIX := by decide
  exact List.isPrefixOf_iff_prefix.mpr (hstart.trans (List.prefix_append _ _))

theorem allows_error :
    (∃ error, certificateSourcePolicyAllows altNames source = .error error) ↔ BadPolicy altNames := by
  have hok : (∃ error, certificateSourcePolicyAllows altNames source = .error error) ↔
      ¬ ∃ allowed, certificateSourcePolicyAllows altNames source = .ok allowed := by
    cases certificateSourcePolicyAllows altNames source with
    | error error => exact iff_of_true ⟨error, rfl⟩ (by rintro ⟨_, h⟩; cases h)
    | ok allowed => exact iff_of_false (by rintro ⟨_, h⟩; cases h) (not_not_intro ⟨allowed, rfl⟩)
  rw [hok]
  constructor
  · intro h
    have hnil : policyNames altNames ≠ [] := fun hnil => h ⟨true, allows_ok.mpr (.inl ⟨hnil, rfl⟩)⟩
    obtain ⟨name, rest, hnames⟩ := List.exists_cons_of_ne_nil hnil
    have hmem : name ∈ policyNames altNames := hnames ▸ List.mem_cons_self
    cases rest with
    | cons second rest => exact .several (by rw [hnames]; exact Nat.le_add_left 2 _)
    | nil =>
        by_cases hprefix : ALLOWED_SOURCE_CIDR_URI_PREFIX <+: name
        · obtain ⟨cidr, rfl⟩ := hprefix
          refine .malformed (List.mem_of_mem_filter hmem) fun network prefixLen hcidr => h ?_
          exact ⟨_, allows_ok.mpr (.inr ⟨network, prefixLen, ⟨cidr, hnames, hcidr⟩, rfl⟩)⟩
        · exact .unknown hmem hprefix
  · rintro hbad ⟨allowed, h⟩
    rcases allows_ok.mp h with ⟨hnil, -⟩ | ⟨network, prefixLen, ⟨cidr, hone, hcidr⟩, -⟩
    · cases hbad with
      | unknown hmem => exact absurd (hnil ▸ hmem) List.not_mem_nil
      | several hlen =>
          rw [hnil] at hlen
          exact absurd hlen (Nat.not_succ_le_zero 1)
      | malformed hmem =>
          have hmem : _ ∈ policyNames altNames := List.mem_filter.mpr ⟨hmem, policyUri_isPrefixOf _⟩
          rw [hnil] at hmem
          exact absurd hmem List.not_mem_nil
    · cases hbad with
      | unknown hmem hprefix =>
          rw [hone] at hmem
          exact hprefix ⟨cidr, (List.mem_singleton.mp hmem).symm⟩
      | several hlen =>
          rw [hone] at hlen
          exact absurd hlen (Nat.lt_irrefl 1)
      | malformed hmem hnone =>
          have hmem : _ ∈ policyNames altNames := List.mem_filter.mpr ⟨hmem, policyUri_isPrefixOf _⟩
          rw [hone] at hmem
          have hcidr' := List.append_cancel_left (List.mem_singleton.mp hmem)
          exact hnone network prefixLen (hcidr' ▸ hcidr)

end Answers

/-- **The source policy fails closed.**  A certificate is allowed when it has no
policy, or one policy that can be read and whose bits are those of the source;
it is not allowed when these bits differ; everything else is an error.  The
order of the names makes no difference, and no mask is computed by a shift that
overflows. -/
theorem sourcePolicy_fails_closed (altNames : List Text) (source : Ipv4Addr) :
    (certificateSourcePolicyAllows altNames source = .ok true ↔
      policyNames altNames = [] ∨
      ∃ network prefixLen, OnlyPolicy altNames network prefixLen ∧
        SamePrefix prefixLen source network) ∧
    (certificateSourcePolicyAllows altNames source = .ok false ↔
      ∃ network prefixLen, OnlyPolicy altNames network prefixLen ∧
        ¬ SamePrefix prefixLen source network) ∧
    ((∃ error, certificateSourcePolicyAllows altNames source = .error error) ↔ BadPolicy altNames) ∧
    (∀ other, altNames.Perm other →
      (certificateSourcePolicyAllows other source).toOption =
        (certificateSourcePolicyAllows altNames source).toOption) ∧
    (∀ length prefixLen, (Text.parseU8 length).filter (· ≤ 32) = some prefixLen →
      checkedMask prefixLen = some (prefixMask prefixLen)) ∧
    ∀ network prefixLen, policyLoop altNames none = .ok (some (network, prefixLen)) →
      checkedMask prefixLen = some (prefixMask prefixLen) := by
  refine ⟨?_, ?_, allows_error, fun other hperm => ?_, fun length prefixLen h => ?_,
    fun network prefixLen h => ?_⟩
  · rw [allows_ok]
    refine or_congr (and_iff_left rfl) (exists₂_congr fun network prefixLen => ?_)
    exact and_congr_right fun hone => eq_comm.trans hone.inCidr_iff
  · rw [allows_ok]
    refine (or_iff_right fun h => by cases h.2).trans (exists₂_congr fun network prefixLen => ?_)
    refine and_congr_right fun hone => ?_
    rw [← hone.inCidr_iff, Bool.not_eq_true]
    exact eq_comm
  · cases h : certificateSourcePolicyAllows altNames source with
    | ok allowed =>
        rw [allows_perm hperm h]
    | error error =>
        cases h' : certificateSourcePolicyAllows other source with
        | ok allowed => cases h.symm.trans (allows_perm hperm.symm h')
        | error error' => rfl
  · exact checkedMask_eq.mpr (of_decide_eq_true (Option.filter_eq_some_iff.mp h).2)
  · rcases policyLoop_ok.mp h with ⟨-, hnone⟩ | ⟨network', prefixLen', ⟨cidr, -, hcidr⟩, hsome⟩
    · cases hnone
    · obtain ⟨rfl, rfl⟩ := Prod.mk.inj (Option.some.inj hsome)
      exact checkedMask_eq.mpr hcidr.bound

end AutobricksVpn
