/-
# `AutobricksVpn.Web.ClientEdits` — what an edit leaves alone

`saveClient` and `removeClient` rewrite the whole section.  Where the console and
the server agree on it, the entries that the server reads afterwards are those it
read before, but for the edited address, in another order (`written_entries`);
and so every other client has its binding and its login, if the server accepts
the file at all.

It does after a removal.  After a client was saved it does if the new entry fits
in (`Fits`): the console does not see the entries outside of its section, nor
does it read the network and the login as the server does (`console_edits`).
-/
import AutobricksVpn.Web.SavedClient

namespace AutobricksVpn

namespace Web

open JsText (Runtime)

/-! ## Equivalent entries -/

/-- The same binding and the same login. -/
structure Equivalent (entry other : Text × Text) : Prop where
  address : other.1 = entry.1
  fingerprint : IsFingerprint (firstField other.2)
  digits : fingerprintOf other.2 = fingerprintOf entry.2
  login : entryLogin other = entryLogin entry
  fields : HasLoginFields other

theorem equivalent_self {entry : Text × Text} (h : Readable entry) : Equivalent entry entry :=
  ⟨rfl, h.fingerprint, rfl, rfl, h.login⟩

theorem SameEntry.equivalent {entry other : Text × Text} (hsame : SameEntry entry other) :
    Readable entry → Equivalent entry other := by
  intro h
  obtain ⟨hfingerprint, hdigits⟩ := hsame.fingerprintOf h.fingerprint
  exact ⟨hsame.1, hfingerprint, hdigits, hsame.entryLogin, hsame.hasLoginFields h.login⟩

theorem exists_of_forall₂ {α β : Type} {R : α → β → Prop} {l : List α} {m : List β}
    (h : List.Forall₂ R l m) :
    (∀ a ∈ l, ∃ b ∈ m, R a b) ∧ ∀ b ∈ m, ∃ a ∈ l, R a b := by
  induction h with
  | nil => exact ⟨fun _ h => absurd h List.not_mem_nil, fun _ h => absurd h List.not_mem_nil⟩
  | @cons a b l m hab _ ih =>
      refine ⟨fun x hx => ?_, fun y hy => ?_⟩
      · rcases List.mem_cons.mp hx with rfl | hx
        · exact ⟨b, List.mem_cons_self, hab⟩
        · obtain ⟨y, hy, h⟩ := ih.1 x hx
          exact ⟨y, List.mem_cons_of_mem _ hy, h⟩
      · rcases List.mem_cons.mp hy with rfl | hy
        · exact ⟨a, List.mem_cons_self, hab⟩
        · obtain ⟨x, hx, h⟩ := ih.2 y hy
          exact ⟨x, List.mem_cons_of_mem _ hx, h⟩

section Valid

variable {serverAddress network : Ipv4Addr} {networkText : Text} {prefixLen : Nat}
  {entries others : List (Text × Text)}

theorem columns_of_equivalent (h : List.Forall₂ Equivalent entries others) :
    (others.map fun entry => Text.parseIpv4 entry.1) =
        (entries.map fun entry => Text.parseIpv4 entry.1) ∧
      (others.map fun entry => fingerprintOf entry.2) =
        entries.map fun entry => fingerprintOf entry.2 := by
  induction h with
  | nil => exact ⟨rfl, rfl⟩
  | cons hab _ ih =>
      simp only [List.map_cons]
      rw [ih.1, ih.2, hab.address, hab.digits]
      exact ⟨rfl, rfl⟩

theorem validEntries_equivalent (h : List.Forall₂ Equivalent entries others) :
    ValidEntries serverAddress networkText network prefixLen entries →
    ValidEntries serverAddress networkText network prefixLen others := by
  intro hvalid
  obtain ⟨haddresses, hfingerprints⟩ := columns_of_equivalent h
  refine ⟨hvalid.cidr, fun other hother => ?_, haddresses ▸ hvalid.addresses,
    hfingerprints ▸ hvalid.fingerprints⟩
  obtain ⟨entry, hentry, hequivalent⟩ := (exists_of_forall₂ h).2 other hother
  obtain ⟨address, haddress, hinside, hserver, -⟩ := hvalid.proper entry hentry
  exact ⟨address, hequivalent.address ▸ haddress, hinside, hserver, hequivalent.fingerprint⟩

end Valid

/-! ## The section -/

section Section

variable {js : Runtime} {lines : List Text}

/-- The clients of some lines. -/
def clientsOf (js : Runtime) (lines : List Text) : List Client :=
  (lines.filterMap parseLine).map (readClient js)

theorem without_cons (client : Client) (clients : List Client) (vpnAddress : Text) :
    without (client :: clients) vpnAddress =
      if client.vpnAddress ≠ vpnAddress then client :: without clients vpnAddress
      else without clients vpnAddress := by
  rw [without, List.filter_cons]
  simp only [decide_eq_true_eq]
  rfl

/-- Line by line, the entries that stay. -/
theorem section_entries (hplain : ∀ line ∈ lines, PlainLine line)
    (hread : ∀ line ∈ lines, ∀ entry, iniEntry line = some entry → Readable entry)
    (vpnAddress : Text) :
    List.Forall₂ Equivalent ((lines.filterMap iniEntry).filter (·.1 ≠ vpnAddress))
      (((without (clientsOf js lines) vpnAddress).map Client.line).filterMap iniEntry) := by
  induction lines with
  | nil => exact .nil
  | cons line lines ih =>
      obtain ⟨hline, hlines⟩ := List.forall_mem_cons.mp hplain
      obtain ⟨hentry, hentries⟩ := List.forall_mem_cons.mp hread
      have hrest := ih hlines hentries
      unfold clientsOf at hrest ⊢
      cases hparse : parseLine line with
      | none =>
          rw [List.filterMap_cons_none (iniEntry_none_of_parseLine hline hparse hentry),
            List.filterMap_cons_none hparse]
          exact hrest
      | some parsed =>
          obtain ⟨key, value⟩ := parsed
          rw [List.filterMap_cons_some hparse, List.map_cons, without_cons]
          rcases entry_of_readClient js hline hparse hentry with
            ⟨hnone, -, hwritten⟩ | ⟨entry, other, hsome, hkey, -, hwritten, hsame⟩
          · rw [List.filterMap_cons_none hnone]
            split
            · rw [List.map_cons, List.filterMap_cons_none hwritten]
              exact hrest
            · exact hrest
          · rw [List.filterMap_cons_some hsome, List.filter_cons, hkey]
            change List.Forall₂ Equivalent (if decide (key ≠ vpnAddress) = true then _ else _)
              (((if key ≠ vpnAddress then _ else _ : List Client).map Client.line).filterMap iniEntry)
            by_cases hne : key ≠ vpnAddress
            · rw [if_pos (decide_eq_true hne), if_pos hne, List.map_cons,
                List.filterMap_cons_some hwritten]
              exact .cons (hsame.equivalent (hentry entry hsome)) hrest
            · rw [if_neg (by simpa using hne), if_neg hne]
              exact hrest

theorem section_body (js : Runtime) (hplain : ∀ line ∈ lines, PlainLine line)
    (hread : ∀ line ∈ lines, ∀ entry, iniEntry line = some entry → Readable entry)
    (hnewline : ∀ line ∈ lines, '\n' ∉ line)
    (hrewritten : ∀ client ∈ clientsOf js lines, isSectionLine client.line = false) :
    ∀ client ∈ clientsOf js lines, BodyLine client.line := by
  intro client hclient
  have hsection := hrewritten client hclient
  obtain ⟨⟨key, value⟩, hparsed, rfl⟩ := List.mem_map.mp hclient
  obtain ⟨line, hline, hparse⟩ := List.mem_filterMap.mp hparsed
  refine ⟨newline_not_mem_line (hnewline line hline) hparse, ?_, hsection⟩
  rcases entry_of_readClient js (hplain line hline) hparse (hread line hline) with
    ⟨-, hheader, -⟩ | ⟨-, -, -, -, hheader, -⟩
  · exact hheader
  · exact hheader

end Section

/-! ## The file that is written -/

section Written

variable {js : Runtime} {text : Text}

theorem bodyLine_managed : BodyLine managedLine ∧ iniEntry managedLine = none := by
  refine ⟨⟨?_, ?_, ?_⟩, ?_⟩ <;> decide +kernel

theorem clientLines_perm (js : Runtime) (clients : List Client) :
    ((clientLines js clients).filterMap iniEntry).Perm
      ((clients.map Client.line).filterMap iniEntry) := by
  rw [clientLines, List.filterMap_cons_none bodyLine_managed.2]
  exact ((List.mergeSort_perm clients _).map _).filterMap _

/-- The entries after an edit: those that stay, and those of the new clients. -/
theorem written_entries (halike : ReadAlike js text)
    (hread : ∀ entry ∈ parseIniEntries text "client", Readable entry) (vpnAddress : Text)
    {extra : List Client} (hextra : ∀ client ∈ extra, BodyLine client.line) :
    (∀ line ∈ clientLines js (without (readClients js text) vpnAddress ++ extra), BodyLine line) ∧
    ∃ kept others, kept.Sublist (parseIniEntries text "client") ∧
      (∀ entry, entry ∈ kept ↔ entry ∈ aroundEntries js text ∨
        entry ∈ parseIniEntries text "client" ∧ entry.1 ≠ vpnAddress) ∧
      List.Forall₂ Equivalent kept others ∧
      (parseIniEntries (writeClients js text (without (readClients js text) vpnAddress ++ extra))
        "client").Perm ((extra.map Client.line).filterMap iniEntry ++ others) := by
  obtain ⟨before, after, hold, haround, hnew⟩ := @entries_rewritten js text "client" halike
  have haround := haround rfl
  rw [if_pos rfl] at hold
  have hclients : readClients js text = clientsOf js (sectionLines js text) := readClients_eq js text
  have hsectionRead : ∀ line ∈ sectionLines js text, ∀ entry, iniEntry line = some entry →
      Readable entry := by
    intro line hline entry hentry
    refine hread entry ?_
    rw [hold]
    exact List.mem_append_right _ (List.mem_append_left _
      (List.mem_filterMap.mpr ⟨line, hline, hentry⟩))
  have hnewline : ∀ line ∈ sectionLines js text, '\n' ∉ line := by
    intro line hline
    unfold sectionLines at hline
    split at hline
    · cases hline
    · exact newline_not_mem_lines line (List.take_subset _ _ (List.drop_subset _ _ hline))
  have hsectionBody := section_body js halike.plain hsectionRead hnewline
    (hclients ▸ halike.rewritten)
  have hbody : ∀ line ∈ clientLines js (without (readClients js text) vpnAddress ++ extra),
      BodyLine line := by
    intro line hline
    rcases List.mem_cons.mp hline with rfl | hline
    · exact bodyLine_managed.1
    · obtain ⟨client, hclient, rfl⟩ := List.mem_map.mp hline
      rcases List.mem_append.mp ((List.mergeSort_perm _ _).mem_iff.mp hclient) with hclient | hclient
      · exact hsectionBody client (hclients ▸ (List.mem_filter.mp hclient).1)
      · exact hextra client hclient
  refine ⟨hbody, before ++ (((sectionLines js text).filterMap iniEntry).filter (·.1 ≠ vpnAddress) ++
    after), before ++ (((without (readClients js text) vpnAddress).map Client.line).filterMap iniEntry
    ++ after), ?_, fun entry => ?_, ?_, ?_⟩
  · rw [hold]
    exact (List.Sublist.refl before).append (List.filter_sublist.append (List.Sublist.refl after))
  · rw [hold, haround]
    simp only [List.mem_append, List.mem_filter, decide_eq_true_eq]
    tauto
  · have hself : ∀ {l : List (Text × Text)}, (∀ entry ∈ l, Readable entry) →
        List.Forall₂ Equivalent l l := fun h =>
      List.forall₂_same.mpr fun entry hentry => equivalent_self (h entry hentry)
    have hin : ∀ entry, entry ∈ before ∨ entry ∈ after → Readable entry := by
      intro entry hentry
      refine hread entry ?_
      rw [hold]
      rcases hentry with hentry | hentry
      · exact List.mem_append_left _ hentry
      · exact List.mem_append_right _ (List.mem_append_right _ hentry)
    rw [hclients]
    exact List.rel_append (hself fun entry hentry => hin entry (.inl hentry))
      (List.rel_append (section_entries halike.plain hsectionRead vpnAddress)
        (hself fun entry hentry => hin entry (.inr hentry)))
  · rw [writeClients_eq, hnew _ hbody, if_pos rfl]
    have hperm := clientLines_perm js (without (readClients js text) vpnAddress ++ extra)
    rw [List.map_append, List.filterMap_append] at hperm
    refine ((hperm.append_right after).append_left before).trans ?_
    rw [List.append_assoc, ← List.append_assoc before]
    refine (List.perm_append_comm_assoc _ _ _).trans ?_
    rw [List.append_assoc before]

end Written

/-! ## The edits -/

/-- The tables after an edit. -/
def SameTables (text' : Text) (serverAddress : Ipv4Addr) (networkText : Text)
    (bindings : AList fun _ : Ipv4Addr => String)
    (logins : AList fun _ : Ipv4Addr => String × String) (edited : Text) : Prop :=
  ∃ bindings' logins',
    validateClientBindings (parseIniEntries text' "client") serverAddress networkText =
        .ok bindings' ∧
      clientLogins (parseIniEntries text' "client") = .ok logins' ∧
      ∀ address, Text.parseIpv4 edited ≠ some address →
        bindings'.lookup address = bindings.lookup address ∧
          logins'.lookup address = logins.lookup address

/-- The server reads a file as before, but for one address. -/
structure Unchanged (text text' : Text) (serverAddress : Ipv4Addr) (networkText : Text)
    (bindings : AList fun _ : Ipv4Addr => String)
    (logins : AList fun _ : Ipv4Addr => String × String) (edited : Text) : Prop where
  entries : ∀ name ≠ "client", parseIniEntries text' name = parseIniEntries text name
  blocks : ∀ name ≠ "client", embeddedSection text' name = embeddedSection text name
  clients : SameTables text' serverAddress networkText bindings logins edited

/-- The new entry is one that the server accepts next to the others. -/
structure Fits (js : Runtime) (text : Text) (serverAddress network : Ipv4Addr) (prefixLen : Nat)
    (input : SaveInput) : Prop where
  address : ∃ address, Text.parseIpv4 input.vpnAddress = some address ∧
    ipv4InCidr address network prefixLen = true ∧ address ≠ serverAddress
  around : ∀ entry ∈ aroundEntries js text, entry.1 ≠ input.vpnAddress
  fingerprint : ∀ entry ∈ parseIniEntries text "client", entry.1 ≠ input.vpnAddress →
    fingerprintOf entry.2 ≠ input.digits js
  login : input.login = [] ∨
    (Text.splitWhitespace (JsText.decodeUtf16 input.secret)).length = 1

section Edits

variable {js : Runtime} {text : Text} {serverAddress network : Ipv4Addr} {networkText : Text}
  {prefixLen : Nat} {bindings : AList fun _ : Ipv4Addr => String}
  {logins : AList fun _ : Ipv4Addr => String × String} {edited : Text}
  {entries entries' kept others extra : List (Text × Text)}

/-- The entries of the other addresses are still there. -/
theorem exists_entry_iff {P : Text × Text → Prop} (hkept : List.Forall₂ Equivalent kept others)
    (hmem : ∀ entry ∈ kept, entry ∈ entries) (hstay : ∀ entry ∈ entries, entry.1 ≠ edited → entry ∈ kept)
    (hperm : entries'.Perm (extra ++ others)) (hextra : ∀ entry ∈ extra, ¬ P entry)
    (hedited : ∀ entry, P entry → entry.1 ≠ edited)
    (hequivalent : ∀ entry other, Equivalent entry other → (P other ↔ P entry)) :
    (∃ entry ∈ entries', P entry) ↔ ∃ entry ∈ entries, P entry := by
  constructor
  · rintro ⟨entry, hentry, hP⟩
    rcases List.mem_append.mp (hperm.mem_iff.mp hentry) with hnew | hother
    · exact absurd hP (hextra entry hnew)
    · obtain ⟨before, hbefore, heq⟩ := (exists_of_forall₂ hkept).2 entry hother
      exact ⟨before, hmem before hbefore, (hequivalent _ _ heq).mp hP⟩
  · rintro ⟨entry, hentry, hP⟩
    obtain ⟨after, hafter, heq⟩ :=
      (exists_of_forall₂ hkept).1 entry (hstay entry hentry (hedited entry hP))
    exact ⟨after, hperm.mem_iff.mpr (List.mem_append_right _ hafter), (hequivalent _ _ heq).mpr hP⟩

/-- The tables agree on the other addresses, if there are tables. -/
theorem tables_iff (hbindings : validateClientBindings entries serverAddress networkText = .ok bindings)
    (hlogins : clientLogins entries = .ok logins) (hkept : List.Forall₂ Equivalent kept others)
    (hmem : ∀ entry ∈ kept, entry ∈ entries)
    (hstay : ∀ entry ∈ entries, entry.1 ≠ edited → entry ∈ kept)
    (hperm : entries'.Perm (extra ++ others)) (hextra : ∀ entry ∈ extra, entry.1 = edited) :
    (∃ bindings' logins', validateClientBindings entries' serverAddress networkText = .ok bindings' ∧
        clientLogins entries' = .ok logins' ∧ ∀ address, Text.parseIpv4 edited ≠ some address →
          bindings'.lookup address = bindings.lookup address ∧
            logins'.lookup address = logins.lookup address) ↔
      (∃ network prefixLen,
          ValidEntries serverAddress networkText network prefixLen (extra ++ others)) ∧
        ∀ entry ∈ extra, HasLoginFields entry := by
  constructor
  · rintro ⟨bindings', logins', hbindings', hlogins', -⟩
    obtain ⟨network, prefixLen, hvalid⟩ := validate_isOk.mp ⟨bindings', hbindings'⟩
    refine ⟨⟨network, prefixLen, hvalid.perm hperm⟩, fun entry hentry => ?_⟩
    exact (foldlM_clientLogin.mp hlogins').1 entry
      (hperm.mem_iff.mpr (List.mem_append_left _ hentry))
  · rintro ⟨⟨network, prefixLen, hvalid⟩, hfields⟩
    have hvalid' := hvalid.perm hperm.symm
    obtain ⟨bindings', hbindings'⟩ := validate_isOk.mpr ⟨network, prefixLen, hvalid'⟩
    have hall : ∀ entry ∈ entries', HasLoginFields entry := by
      intro entry hentry
      rcases List.mem_append.mp (hperm.mem_iff.mp hentry) with hnew | hother
      · exact hfields entry hnew
      · obtain ⟨before, -, heq⟩ := (exists_of_forall₂ hkept).2 entry hother
        exact heq.fields
    have hlogins' : clientLogins entries' = .ok (entries'.foldl withLogin ∅) :=
      foldlM_clientLogin.mpr ⟨hall, rfl⟩
    refine ⟨bindings', _, hbindings', hlogins', fun address haddress => ?_⟩
    have hne : ∀ entry : Text × Text, Text.parseIpv4 entry.1 = some address → entry.1 ≠ edited :=
      fun entry hparse heq => haddress (heq ▸ hparse)
    obtain ⟨_, _, hold⟩ := validate_isOk.mp ⟨bindings, hbindings⟩
    constructor
    · refine Option.ext fun f => ?_
      rw [validate_lookup hbindings', validate_lookup hbindings]
      refine exists_entry_iff hkept hmem hstay hperm ?_ ?_ ?_
      · exact fun entry hentry hP => hne entry hP.1 (hextra entry hentry)
      · exact fun entry hP => hne entry hP.1
      · intro entry other heq
        rw [heq.address, heq.digits]
    · refine Option.ext fun login => ?_
      rw [clientLogins_lookup hlogins' hvalid'.addresses, clientLogins_lookup hlogins hold.addresses]
      refine exists_entry_iff hkept hmem hstay hperm ?_ ?_ ?_
      · exact fun entry hentry hP => hne entry (address_of_entryLogin hP) (hextra entry hentry)
      · exact fun entry hP => hne entry (address_of_entryLogin hP)
      · intro entry other heq
        rw [heq.login]

theorem cidr_unique {network' : Ipv4Addr} {prefixLen' : Nat} (h : Cidr networkText network prefixLen) :
    Cidr networkText network' prefixLen' → network' = network ∧ prefixLen' = prefixLen := by
  intro h'
  have heq := (parseIpv4Cidr_ok.mpr h').symm.trans (parseIpv4Cidr_ok.mpr h)
  exact Prod.mk.inj (Except.ok.inj heq)

/-- The login of the new entry. -/
theorem hasLoginFields_client {input : SaveInput} (h : Checked js input) {address : Ipv4Addr}
    (haddress : Text.parseIpv4 input.vpnAddress = some address) :
    HasLoginFields (input.vpnAddress, Text.trim (input.client js).value) ↔
      input.login = [] ∨ (Text.splitWhitespace (JsText.decodeUtf16 input.secret)).length = 1 := by
  obtain ⟨-, -, hfields⟩ := value_client h
  unfold HasLoginFields
  dsimp only
  rw [Text.splitWhitespace_trim, hfields]
  by_cases hlogin : input.login = []
  · rw [if_pos hlogin]
    exact iff_of_true (.inl ⟨_, rfl⟩) (.inl hlogin)
  · rw [if_neg hlogin, or_iff_right hlogin]
    constructor
    · rintro (⟨_, heq⟩ | ⟨_, _, password, _, heq, -⟩)
      · cases heq
      · have hrest := (List.cons.inj (List.cons.inj heq).2).2
        rw [hrest]
        rfl
    · intro hlength
      obtain ⟨password, hpassword⟩ := List.length_eq_one_iff.mp hlength
      rw [hpassword]
      exact .inr ⟨_, _, password, address, rfl, haddress⟩

/-- The new entry next to the entries that stay. -/
theorem valid_client_iff {input : SaveInput} (h : Checked js input)
    (hvalid : ValidEntries serverAddress networkText network prefixLen kept)
    (hkept : List.Forall₂ Equivalent kept others)
    (hmem : ∀ entry, entry ∈ kept ↔ entry ∈ aroundEntries js text ∨
      entry ∈ parseIniEntries text "client" ∧ entry.1 ≠ input.vpnAddress)
    (hsub : kept.Sublist (parseIniEntries text "client")) :
    (∃ network prefixLen, ValidEntries serverAddress networkText network prefixLen
        ((input.vpnAddress, Text.trim (input.client js).value) :: others)) ∧
      HasLoginFields (input.vpnAddress, Text.trim (input.client js).value) ↔
    Fits js text serverAddress network prefixLen input := by
  obtain ⟨hfingerprint, hlower⟩ := h.isFingerprint
  obtain ⟨-, -, hfields⟩ := value_client h
  have hinside : ∀ address, ipv4InCidr address network prefixLen = true ↔
      SamePrefix prefixLen address network := fun _ =>
    ipv4InCidr_iff hvalid.cidr.bound hvalid.cidr.canonical
  have hfirst : firstField (Text.trim (input.client js).value) = input.digits js := by
    rw [firstField, Text.splitWhitespace_trim, hfields]
    rfl
  have hdigits : fingerprintOf (Text.trim (input.client js).value) = input.digits js := by
    change lowerDigits (firstField (Text.trim (input.client js).value)) = _
    rw [hfirst, hlower]
  constructor
  · rintro ⟨⟨network', prefixLen', hnew⟩, hlogin⟩
    obtain ⟨rfl, rfl⟩ := cidr_unique hvalid.cidr hnew.cidr
    obtain ⟨-, ⟨address, haddress, hsame, hserver, -⟩, haddresses, hfingerprints⟩ :=
      validEntries_cons.mp hnew
    refine ⟨⟨address, haddress, (hinside address).mpr hsame, hserver⟩, fun entry hentry heq => ?_,
      fun entry hentry hne => ?_, (hasLoginFields_client h haddress).mp hlogin⟩
    · obtain ⟨other, hother, hequivalent⟩ :=
        (exists_of_forall₂ hkept).1 entry ((hmem entry).mpr (.inl hentry))
      exact haddresses other hother (by rw [hequivalent.address, heq])
    · obtain ⟨other, hother, hequivalent⟩ :=
        (exists_of_forall₂ hkept).1 entry ((hmem entry).mpr (.inr ⟨hentry, hne⟩))
      rw [← hequivalent.digits, ← hdigits]
      exact hfingerprints other hother
  · intro hfits
    obtain ⟨address, haddress, hin, hserver⟩ := hfits.address
    have hne : ∀ entry ∈ kept, entry.1 ≠ input.vpnAddress := by
      intro entry hentry
      rcases (hmem entry).mp hentry with haround | ⟨-, hne⟩
      · exact hfits.around entry haround
      · exact hne
    refine ⟨⟨network, prefixLen, validEntries_cons.mpr ⟨validEntries_equivalent hkept hvalid,
      ⟨address, haddress, (hinside address).mp hin, hserver, ?_⟩, fun other hother heq => ?_,
      fun other hother heq => ?_⟩⟩, (hasLoginFields_client h haddress).mpr hfits.login⟩
    · rw [hfirst]
      exact hfingerprint
    · obtain ⟨entry, hentry, hequivalent⟩ := (exists_of_forall₂ hkept).2 other hother
      rw [hequivalent.address, haddress] at heq
      exact hne entry hentry (eq_of_parseIpv4 heq haddress)
    · obtain ⟨entry, hentry, hequivalent⟩ := (exists_of_forall₂ hkept).2 other hother
      rw [hequivalent.digits, hdigits] at heq
      exact hfits.fingerprint entry (hsub.subset hentry) (hne entry hentry) heq

section Accepted

variable (hbindings : validateClientBindings (parseIniEntries text "client") serverAddress networkText =
    .ok bindings) (hlogins : clientLogins (parseIniEntries text "client") = .ok logins)

include hbindings hlogins

theorem readable_of_accepted : ∀ entry ∈ parseIniEntries text "client", Readable entry := by
  intro entry hentry
  obtain ⟨network, prefixLen, hvalid⟩ := validate_isOk.mp ⟨bindings, hbindings⟩
  obtain ⟨address, haddress, -, -, hfingerprint⟩ := hvalid.proper entry hentry
  exact ⟨⟨address, haddress⟩, hfingerprint, (foldlM_clientLogin.mp hlogins).1 entry hentry⟩

theorem saveClient_tables {input : SaveInput} {text' : Text} {listed : ListedClient}
    (hcidr : parseIpv4Cidr networkText = .ok (network, prefixLen)) (halike : ReadAlike js text)
    (hsave : saveClient js text input = .ok (text', listed)) :
    (∃ body, (∀ line ∈ body, BodyLine line) ∧ text' = replaceSection js text body) ∧
      (SameTables text' serverAddress networkText bindings logins input.vpnAddress ↔
        Fits js text serverAddress network prefixLen input) := by
  obtain ⟨network', prefixLen', hvalid⟩ := validate_isOk.mp ⟨bindings, hbindings⟩
  obtain ⟨rfl, rfl⟩ := cidr_unique (parseIpv4Cidr_ok.mp hcidr) hvalid.cidr
  obtain ⟨-, -, -, hchecked, -, rfl⟩ := saveClient_ok hsave
  obtain ⟨hline, hentry⟩ := entry_client hchecked
  obtain ⟨hbody, kept, others, hsub, hmem, hkept, hperm⟩ :=
    written_entries halike (readable_of_accepted hbindings hlogins) input.vpnAddress
      (List.forall_mem_singleton.mpr hline)
  rw [List.map_singleton, List.filterMap_cons_some hentry, List.filterMap_nil] at hperm
  have htables := tables_iff hbindings hlogins hkept (fun entry h => hsub.subset h)
    (fun entry hin hne => (hmem entry).mpr (.inr ⟨hin, hne⟩)) hperm
    (fun entry h => by rw [List.mem_singleton.mp h])
  rw [List.singleton_append, List.forall_mem_singleton,
    valid_client_iff hchecked (hvalid.sublist hsub) hkept hmem hsub] at htables
  exact ⟨⟨_, hbody, rfl⟩, htables⟩

theorem removeClient_tables {vpnAddress text' : Text} (halike : ReadAlike js text)
    (hremove : removeClient js text vpnAddress = .ok text') :
    (∃ body, (∀ line ∈ body, BodyLine line) ∧ text' = replaceSection js text body) ∧
      SameTables text' serverAddress networkText bindings logins vpnAddress := by
  obtain ⟨network, prefixLen, hvalid⟩ := validate_isOk.mp ⟨bindings, hbindings⟩
  obtain rfl := removeClient_ok hremove
  have hnone : ∀ {P : Text × Text → Prop}, ∀ entry ∈ ([] : List (Text × Text)), P entry :=
    fun _ h => absurd h List.not_mem_nil
  obtain ⟨hbody, kept, others, hsub, hmem, hkept, hperm⟩ :=
    written_entries halike (readable_of_accepted hbindings hlogins) vpnAddress
      (List.forall_mem_nil _)
  refine ⟨⟨_, hbody, rfl⟩, (tables_iff hbindings hlogins hkept (fun entry h => hsub.subset h)
    (fun entry hin hne => (hmem entry).mpr (.inr ⟨hin, hne⟩)) hperm hnone).mpr
      ⟨⟨network, prefixLen, ?_⟩, hnone⟩⟩
  exact validEntries_equivalent hkept (hvalid.sublist hsub)

end Accepted

/-- **Edits.**  In a file that the server accepts, and in which both find the same
`[client]` section, a client that was saved leaves everything but its own address
as it was if and only if its entry fits in; one that was removed always does. -/
theorem console_edits :
    validateClientBindings (parseIniEntries text "client") serverAddress networkText = .ok bindings →
    clientLogins (parseIniEntries text "client") = .ok logins →
    parseIpv4Cidr networkText = .ok (network, prefixLen) →
    ReadAlike js text → SingleReturns text →
    (∀ input text' listed, saveClient js text input = .ok (text', listed) →
      (Unchanged text text' serverAddress networkText bindings logins input.vpnAddress ↔
        Fits js text serverAddress network prefixLen input)) ∧
    ∀ vpnAddress text', removeClient js text vpnAddress = .ok text' →
      Unchanged text text' serverAddress networkText bindings logins vpnAddress := by
  intro hbindings hlogins hcidr halike hreturns
  have hother : ∀ {text' : Text} {edited : Text},
      (∃ body, (∀ line ∈ body, BodyLine line) ∧ text' = replaceSection js text body) →
      SameTables text' serverAddress networkText bindings logins edited →
      Unchanged text text' serverAddress networkText bindings logins edited := by
    rintro text' edited ⟨body, hbody, rfl⟩ htables
    exact ⟨fun name hname => entries_elsewhere halike hbody hname,
      fun name hname => embedded_elsewhere halike hbody hreturns hname, htables⟩
  constructor
  · intro input text' listed hsave
    obtain ⟨hwritten, htables⟩ := saveClient_tables hbindings hlogins hcidr halike hsave
    exact ⟨fun h => htables.mp h.clients, fun h => hother hwritten (htables.mpr h)⟩
  · intro vpnAddress text' hremove
    obtain ⟨hwritten, htables⟩ := removeClient_tables hbindings hlogins halike hremove
    exact hother hwritten htables

end Edits

/-! ## A comment behind an entry, and behind a header -/

namespace Sample

def digits : Text := List.replicate 64 'a'

/-- The last entry is followed by a comment. -/
def commented : Text :=
  "[server]\nport = 4433\n\n[client]\n10.8.1.2 = ".toList ++ digits ++ " # laptop\n".toList

/-- The second header is. -/
def commentedHeader : Text :=
  "[server]\nport = 4433\n\n[client]\n10.8.1.2 = ".toList ++ digits ++
    "\n\n[server] # limits\nmtu = 1300\n".toList

/-- What the console takes for a client there. -/
def limit : Client := ⟨"mtu".toList, "1300".toList, none, none⟩

def networkText : Text := "10.8.1.0/24".toList

def serverAddress : Ipv4Addr := Ipv4Addr.new 10 8 1 1

/-- A client without a login. -/
def input : SaveInput :=
  ⟨"10.8.1.3".toList, some (List.replicate 64 'b'), none, none⟩

/-- The server accepts the file. -/
def accepts (text : Text) : Bool :=
  (validateClientBindings (parseIniEntries text "client") serverAddress networkText).isOk &&
    (clientLogins (parseIniEntries text "client")).isOk

end Sample

theorem exists_of_isOk {ε α : Type} {x : Except ε α} (h : x.isOk = true) : ∃ a, x = .ok a := by
  cases x with
  | error error => cases h
  | ok a => exact ⟨a, rfl⟩

theorem exists_of_accepts {text : Text} (h : Sample.accepts text = true) :
    ∃ bindings logins,
      validateClientBindings (parseIniEntries text "client") Sample.serverAddress
          Sample.networkText = .ok bindings ∧
        clientLogins (parseIniEntries text "client") = .ok logins := by
  obtain ⟨hbindings, hlogins⟩ := Bool.and_eq_true_iff.mp h
  obtain ⟨bindings, hbindings⟩ := exists_of_isOk hbindings
  obtain ⟨logins, hlogins⟩ := exists_of_isOk hlogins
  exact ⟨bindings, logins, hbindings, hlogins⟩

theorem readAlike_commented : ReadAlike Sample.runtime Sample.commented := by
  have hbounds : sectionBounds Sample.runtime (JsText.lines Sample.commented) "client" =
      some (3, 6) := by decide +kernel
  refine ⟨fun start stop line h hline => ?_, ?_, ?_⟩
  · rw [hbounds] at h
    obtain ⟨rfl, rfl⟩ := Prod.mk.inj (Option.some.inj h)
    have hheader : (JsText.lines Sample.commented)[3]? = some "[client]".toList := by decide +kernel
    rw [hheader] at hline
    rw [← Option.some.inj hline]
    decide
  · have hall : (sectionLines Sample.runtime Sample.commented).all (fun line =>
        (iniHeader line).isNone && !isSectionLine line && line.all (·.toNat < 128)) = true := by
      decide +kernel
    intro line hline
    have hplain := List.all_eq_true.mp hall line hline
    simp only [Bool.and_eq_true, Option.isNone_iff_eq_none, Bool.not_eq_true', List.all_eq_true,
      decide_eq_true_eq] at hplain
    exact plainLine_of_ascii hplain.1.1 hplain.1.2 hplain.2
  · have hall : (readClients Sample.runtime Sample.commented).all
        (!isSectionLine ·.line) = true := by decide +kernel
    exact fun client hclient => by
      simpa using List.all_eq_true.mp hall client hclient

theorem console_edits_commented :
    ∃ bindings logins text' listed,
      saveClient Sample.runtime Sample.commented Sample.input = .ok (text', listed) ∧
        Unchanged Sample.commented text' Sample.serverAddress Sample.networkText bindings logins
          Sample.input.vpnAddress := by
  obtain ⟨bindings, logins, hbindings, hlogins⟩ :=
    @exists_of_accepts Sample.commented (by decide +kernel)
  have hcidr : parseIpv4Cidr Sample.networkText = .ok (Ipv4Addr.new 10 8 1 0, 24) := by
    decide +kernel
  have hsaves : (saveClient Sample.runtime Sample.commented Sample.input).isOk = true := by
    decide +kernel
  obtain ⟨⟨text', listed⟩, hsave⟩ := exists_of_isOk hsaves
  have hreturns : SingleReturns Sample.commented := singleReturns_of_not_mem (by decide +kernel)
  refine ⟨bindings, logins, text', listed, hsave,
    ((console_edits hbindings hlogins hcidr readAlike_commented hreturns).1 _ _ _ hsave).mpr ?_⟩
  exact ⟨⟨Ipv4Addr.new 10 8 1 3, by decide +kernel, by decide, by decide⟩, by decide +kernel,
    by decide +kernel, .inl rfl⟩

/-- The console does not see a header with a comment, and takes its section for a
part of the `[client]` section. -/
theorem edit_moves_section :
    ∃ bindings logins text',
      validateClientBindings (parseIniEntries Sample.commentedHeader "client") Sample.serverAddress
          Sample.networkText = .ok bindings ∧
        clientLogins (parseIniEntries Sample.commentedHeader "client") = .ok logins ∧
        removeClient Sample.runtime Sample.commentedHeader "10.8.1.2".toList = .ok text' ∧
        ¬ Unchanged Sample.commentedHeader text' Sample.serverAddress Sample.networkText bindings
          logins "10.8.1.2".toList := by
  obtain ⟨bindings, logins, hbindings, hlogins⟩ :=
    @exists_of_accepts Sample.commentedHeader (by decide +kernel)
  have hremoves : (removeClient Sample.runtime Sample.commentedHeader "10.8.1.2".toList).isOk =
      true := by decide +kernel
  obtain ⟨text', hremove⟩ := exists_of_isOk hremoves
  refine ⟨bindings, logins, text', hbindings, hlogins, hremove, fun h => ?_⟩
  have hclients : without (readClients Sample.runtime Sample.commentedHeader) "10.8.1.2".toList =
      [Sample.limit] := by decide +kernel
  have htext : text' = writeClients Sample.runtime Sample.commentedHeader [Sample.limit] := by
    rw [removeClient_ok hremove, hclients, List.append_nil]
  have hwritten : parseIniEntries (writeClients Sample.runtime Sample.commentedHeader
      [Sample.limit]) "server" = [("port".toList, "4433".toList)] := by
    unfold writeClients clientLines sortClients
    rw [List.mergeSort_singleton]
    decide +kernel
  have hentries := h.entries "server" (by decide)
  rw [htext, hwritten] at hentries
  have hread : parseIniEntries Sample.commentedHeader "server" ≠
      [("port".toList, "4433".toList)] := by decide +kernel
  exact hread hentries.symm

end Web

end AutobricksVpn
