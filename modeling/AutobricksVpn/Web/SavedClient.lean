/-
# `AutobricksVpn.Web.SavedClient` — the client that `saveClient` puts into the list

`checkClient` lets through an address in digits and dots, a fingerprint of 64
digits in lower case, and an id of ASCII characters together with a password
(`checkClient_ok`).  The password is a string of UTF-16 units; what is written of
it may have other characters in it, but no space and no `#` (`password_plain`).

The line of such a client is an entry for the server, with the fields that it was
written with, but for the password, which the server splits where it sees white
space (`value_client`, `entry_client`).
-/
import AutobricksVpn.Web.ClientLine

namespace AutobricksVpn

namespace Web

open JsText (Runtime)

def SaveInput.digits (js : Runtime) (input : SaveInput) : Text :=
  (input.fingerprint.map (normalized js)).getD []

def SaveInput.login (input : SaveInput) : Text := (input.loginId.map JsText.trim).getD []

def SaveInput.secret (input : SaveInput) : JsString := input.password.getD []

/-- What `checkClient` has checked of an input, apart from the other clients. -/
structure Checked (js : Runtime) (input : SaveInput) : Prop where
  address : ∃ address, ipv4Number input.vpnAddress = some address
  length : (input.digits js).length = 64
  digits : ∀ c ∈ input.digits js, isLowerHexDigit c = true
  together : input.login = [] ↔ input.secret = []
  login : input.login ≠ [] → isLoginId input.login = true
  secret : input.secret ≠ [] → isPassword input.secret = true

/-- The client, as it goes into the list. -/
def SaveInput.client (js : Runtime) (input : SaveInput) : Client :=
  ⟨input.vpnAddress, input.digits js, some input.login, some (JsText.decodeUtf16 input.secret)⟩

section Saved

variable {js : Runtime} {settings : Settings} {clients : List Client} {input : SaveInput}
  {client : Client} {text text' : Text} {listed : ListedClient} {vpnAddress : Text}

theorem validateFingerprint_ok {digits : Text}
    (h : validateFingerprint js input.fingerprint = .ok digits) :
    digits = input.digits js ∧ (input.digits js).length = 64 ∧
      ∀ c ∈ input.digits js, isLowerHexDigit c = true := by
  unfold validateFingerprint at h
  change (if (input.digits js).length = 64 ∧ (input.digits js).all isLowerHexDigit then _
    else _) = _ at h
  split at h
  · rename_i hdigits
    exact ⟨(Except.ok.inj h).symm, hdigits.1, List.all_eq_true.mp hdigits.2⟩
  · cases h

theorem checkClient_ok (h : checkClient js settings clients input = .ok client) :
    client = input.client js ∧ Checked js input ∧
      validateClientAddress js input.vpnAddress settings = .ok input.vpnAddress := by
  unfold checkClient at h
  cases haddress : validateClientAddress js input.vpnAddress settings with
  | error error =>
      rw [haddress] at h
      cases h
  | ok address =>
      obtain ⟨rfl, -, hnumber⟩ := validateClientAddress_some haddress
      rw [haddress] at h
      cases hfingerprint : validateFingerprint js input.fingerprint with
      | error error =>
          rw [hfingerprint] at h
          cases h
      | ok fingerprint =>
          rw [hfingerprint] at h
          change (if _ then _ else _) = _ at h
          split at h
          · cases h
          · change (if input.login.isEmpty ≠ input.secret.isEmpty ∨
              (input.login ≠ [] ∧ ¬ isLoginId input.login) ∨
              (input.secret ≠ [] ∧ ¬ isPassword input.secret) then _ else _) = _ at h
            split at h
            · cases h
            · rename_i hlogin
              simp only [not_or, not_and, not_not] at hlogin
              obtain ⟨htogether, hid, hpassword⟩ := hlogin
              obtain ⟨rfl, hlength, hhex⟩ := validateFingerprint_ok hfingerprint
              refine ⟨(Except.ok.inj h).symm, ⟨hnumber, hlength, hhex, ?_, hid, hpassword⟩, rfl⟩
              rw [← List.isEmpty_iff, ← List.isEmpty_iff, htogether]

/-- The other clients count for their fingerprints only. -/
theorem checkClient_free (hfree : ∀ other ∈ clients, other.fingerprint = input.digits js →
    other.vpnAddress = input.vpnAddress) :
    checkClient js settings clients input = checkClient js settings [] input := by
  unfold checkClient
  cases haddress : validateClientAddress js input.vpnAddress settings with
  | error error => rfl
  | ok address =>
      obtain ⟨rfl, -, -⟩ := validateClientAddress_some haddress
      cases hfingerprint : validateFingerprint js input.fingerprint with
      | error error => rfl
      | ok fingerprint =>
          obtain ⟨rfl, -⟩ := validateFingerprint_ok hfingerprint
          have hnone : ¬ (clients.any fun client => client.fingerprint == input.digits js &&
              client.vpnAddress != input.vpnAddress) = true := by
            intro hany
            obtain ⟨other, hother, htaken⟩ := List.any_eq_true.mp hany
            obtain ⟨hsame, hne⟩ := Bool.and_eq_true_iff.mp htaken
            exact bne_iff_ne.mp hne (hfree other hother (beq_iff_eq.mp hsame))
          exact if_neg hnone

theorem checkClient_taken (htaken : ∃ other ∈ clients, other.fingerprint = input.digits js ∧
    other.vpnAddress ≠ input.vpnAddress) :
    ∃ error, checkClient js settings clients input = .error error := by
  obtain ⟨other, hother, hsame, hne⟩ := htaken
  unfold checkClient
  cases haddress : validateClientAddress js input.vpnAddress settings with
  | error error => exact ⟨error, rfl⟩
  | ok address =>
      obtain ⟨rfl, -, -⟩ := validateClientAddress_some haddress
      cases hfingerprint : validateFingerprint js input.fingerprint with
      | error error => exact ⟨error, rfl⟩
      | ok fingerprint =>
          obtain ⟨rfl, -⟩ := validateFingerprint_ok hfingerprint
          have hany : (clients.any fun client => client.fingerprint == input.digits js &&
              client.vpnAddress != input.vpnAddress) = true :=
            List.any_eq_true.mpr ⟨other, hother,
              Bool.and_eq_true_iff.mpr ⟨beq_iff_eq.mpr hsame, bne_iff_ne.mpr hne⟩⟩
          exact ⟨_, if_pos hany⟩

theorem saveClient_ok (h : saveClient js text input = .ok (text', listed)) :
    ∃ settings, readServerSettings js text = .ok settings ∧
      checkClient js settings (readClients js text) input = .ok (input.client js) ∧
      Checked js input ∧ listed = (input.client js).listed ∧
      text' = writeClients js text
        (without (readClients js text) input.vpnAddress ++ [input.client js]) := by
  unfold saveClient at h
  cases hsettings : readServerSettings js text with
  | error error =>
      rw [hsettings] at h
      cases h
  | ok settings =>
      rw [hsettings] at h
      cases hclient : checkClient js settings (readClients js text) input with
      | error error =>
          change (checkClient js settings (readClients js text) input >>= _) = _ at h
          rw [hclient] at h
          cases h
      | ok client =>
          change (checkClient js settings (readClients js text) input >>= _) = _ at h
          rw [hclient] at h
          obtain ⟨rfl, hchecked, -⟩ := checkClient_ok hclient
          obtain ⟨rfl, rfl⟩ := Prod.mk.inj (Except.ok.inj h)
          exact ⟨settings, rfl, hclient, hchecked, rfl, rfl⟩

theorem removeClient_ok (h : removeClient js text vpnAddress = .ok text') :
    text' = writeClients js text (without (readClients js text) vpnAddress ++ []) := by
  unfold removeClient at h
  cases hsettings : readServerSettings js text with
  | error error =>
      rw [hsettings] at h
      cases h
  | ok settings =>
      rw [hsettings] at h
      change (validateClientAddress js vpnAddress settings >>= _) = _ at h
      cases haddress : validateClientAddress js vpnAddress settings with
      | error error =>
          rw [haddress] at h
          cases h
      | ok address =>
          rw [haddress] at h
          change (if _ then _ else _) = _ at h
          split at h
          · cases h
          · rw [List.append_nil]
            exact (Except.ok.inj h).symm

/-! ### Its line -/

theorem isHexDigit_of_lower {c : Char} (h : isLowerHexDigit c = true) :
    Text.isHexDigit c = true ∧ toLower c = c := by
  have hhex : Text.isHexDigit c = true := by
    rw [Text.isHexDigit]
    rw [isLowerHexDigit] at h
    rw [h, Bool.true_or]
  refine ⟨hhex, if_neg ?_⟩
  rintro ⟨hlo, hhi⟩
  have hlo : 65 ≤ c.toNat := hlo
  have hhi : c.toNat ≤ 90 := hhi
  rw [isLowerHexDigit, Bool.or_eq_true, Bool.and_eq_true, decide_eq_true_eq, decide_eq_true_eq] at h
  rcases h with h | ⟨h, -⟩
  · have := digit_bounds h
    omega
  · have h : 97 ≤ c.toNat := h
    omega

/-- The fingerprint is in the spelling of both. -/
theorem Checked.isFingerprint (h : Checked js input) :
    IsFingerprint (input.digits js) ∧ lowerDigits (input.digits js) = input.digits js := by
  have hfilter : (input.digits js).filter (· ≠ ':') = input.digits js := by
    refine List.filter_eq_self.mpr fun c hc => decide_eq_true ?_
    rintro rfl
    exact absurd (h.digits _ hc) (by decide)
  refine ⟨⟨?_, ?_⟩, ?_⟩
  · rw [hfilter]
    exact h.length
  · rw [hfilter]
    exact fun c hc => (isHexDigit_of_lower (h.digits c hc)).1
  · rw [lowerDigits, hfilter, toAsciiLowercase_eq]
    exact (List.map_congr_left fun c hc => (isHexDigit_of_lower (h.digits c hc)).2).trans
      (List.map_id _)

theorem loginId_bounds {t : Text} (h : isLoginId t = true) :
    t ≠ [] ∧ t.length ≤ 64 ∧ ∀ c ∈ t, 45 ≤ c.toNat ∧ c.toNat ≤ 122 := by
  unfold isLoginId at h
  rw [Bool.and_eq_true, Bool.and_eq_true, Bool.not_eq_true', List.isEmpty_eq_false_iff,
    decide_eq_true_eq, List.all_eq_true] at h
  refine ⟨h.1.1, h.1.2, fun c hc => ?_⟩
  have hc := h.2 c hc
  simp only [Bool.or_eq_true, beq_iff_eq] at hc
  rcases hc with (((halphanum | rfl) | rfl) | rfl) | rfl
  · change (c.isUpper || c.isLower || c.isDigit) = true at halphanum
    rw [Bool.or_eq_true, Bool.or_eq_true] at halphanum
    rcases halphanum with (hupper | hlower) | hdigit
    · obtain ⟨hlo, hhi⟩ : 65 ≤ c.toNat ∧ c.toNat ≤ 90 := of_decide_eq_true hupper
      omega
    · obtain ⟨hlo, hhi⟩ := Bool.and_eq_true_iff.mp hlower
      have hlo : 97 ≤ c.toNat := of_decide_eq_true hlo
      have hhi : c.toNat ≤ 122 := of_decide_eq_true hhi
      omega
    · have := digit_bounds hdigit
      omega
  all_goals decide

theorem loginId_plain {t : Text} (h : isLoginId t = true) :
    '#' ∉ t ∧ '\n' ∉ t ∧ ∀ c ∈ t, Text.isWhitespace c = false := by
  obtain ⟨-, -, hbounds⟩ := loginId_bounds h
  refine ⟨fun hmem => absurd (hbounds _ hmem) (by decide),
    fun hmem => absurd (hbounds _ hmem) (by decide), fun c hc => ?_⟩
  have := hbounds c hc
  exact not_isWhitespace_of_toNat (by omega) (by omega)

theorem toNat_decodeUnit (unit : UInt16) :
    JsText.decodeUnit unit = '\uFFFD' ∨ (JsText.decodeUnit unit).toNat = unit.toNat := by
  unfold JsText.decodeUnit
  split
  · exact .inl rfl
  · rename_i hsurrogate
    have hlt : unit.toNat < 0x10000 := unit.toNat_lt
    simp only [JsText.isLead, JsText.isTrail, Bool.or_eq_true, Bool.and_eq_true, decide_eq_true_eq,
      not_or, not_and, Nat.not_lt] at hsurrogate
    have hvalid : unit.toNat.isValidChar := by
      rcases Nat.lt_or_ge unit.toNat 0xd800 with h | h
      · exact .inl h
      · exact .inr (by omega)
    exact .inr (JsText.toNat_ofNat hvalid)

/-- The characters that are written for units. -/
theorem mem_decodeUtf16 {c : Char} {units : JsString} :
    c ∈ JsText.decodeUtf16 units →
      0x10000 ≤ c.toNat ∨ c = '\uFFFD' ∨ ∃ unit ∈ units, c.toNat = unit.toNat := by
  have hunit : ∀ {unit : UInt16} {units : JsString}, unit ∈ units → c = JsText.decodeUnit unit →
      0x10000 ≤ c.toNat ∨ c = '\uFFFD' ∨ ∃ unit ∈ units, c.toNat = unit.toNat := by
    intro unit units hmem hc
    rcases toNat_decodeUnit unit with h | h
    · exact .inr (.inl (hc.trans h))
    · exact .inr (.inr ⟨unit, hmem, hc ▸ h⟩)
  have hlater : ∀ {units all : JsString}, (∀ unit ∈ units, unit ∈ all) →
      (0x10000 ≤ c.toNat ∨ c = '\uFFFD' ∨ ∃ unit ∈ units, c.toNat = unit.toNat) →
      0x10000 ≤ c.toNat ∨ c = '\uFFFD' ∨ ∃ unit ∈ all, c.toNat = unit.toNat := by
    rintro units all hsub (h | h | ⟨unit, hmem, h⟩)
    · exact .inl h
    · exact .inr (.inl h)
    · exact .inr (.inr ⟨unit, hsub unit hmem, h⟩)
  induction units using JsText.decodeUtf16.induct with
  | case1 => exact fun h => absurd h List.not_mem_nil
  | case2 unit => exact fun h => hunit List.mem_cons_self (List.mem_singleton.mp h)
  | case3 lead trail rest hpair ih =>
      intro h
      rw [JsText.decodeUtf16, if_pos hpair] at h
      rcases List.mem_cons.mp h with hc | h
      · left
        simp only [JsText.isLead, JsText.isTrail, Bool.and_eq_true, decide_eq_true_eq] at hpair
        rw [hc, JsText.toNat_ofNat (.inr (by omega))]
        omega
      · exact hlater (fun _ hmem => List.mem_cons_of_mem _ (List.mem_cons_of_mem _ hmem)) (ih h)
  | case4 lead trail rest hpair ih =>
      intro h
      rw [JsText.decodeUtf16, if_neg hpair] at h
      rcases List.mem_cons.mp h with h | h
      · exact hunit List.mem_cons_self h
      · exact hlater (fun _ hmem => List.mem_cons_of_mem _ hmem) (ih h)

/-- What is written for a password has no space in it for the console, nor a mark
of a comment. -/
theorem password_plain {units : JsString} (h : isPassword units = true) :
    '#' ∉ JsText.decodeUtf16 units ∧ ∀ c ∈ JsText.decodeUtf16 units, JsText.isSpace c = false := by
  unfold isPassword at h
  rw [Bool.and_eq_true, List.all_eq_true] at h
  have hunit : ∀ unit ∈ units, JsText.isSpaceCode unit.toNat = false ∧ unit.toNat ≠ 35 := by
    intro unit hunit
    have hall := h.2 unit hunit
    rw [Bool.not_eq_true', Bool.or_eq_false_iff, beq_eq_false_iff_ne] at hall
    exact hall
  constructor
  · intro hmem
    rcases mem_decodeUtf16 hmem with hbig | heq | ⟨unit, hmem, heq⟩
    · exact absurd hbig (by decide)
    · cases heq
    · exact (hunit unit hmem).2 heq.symm
  · intro c hc
    rcases mem_decodeUtf16 hc with hbig | rfl | ⟨unit, hmem, heq⟩
    · unfold JsText.isSpace JsText.isSpaceCode
      simp only [Bool.or_eq_false_iff, Bool.and_eq_false_iff, decide_eq_false_iff_not,
        beq_eq_false_iff_ne]
      omega
    · decide
    · rw [JsText.isSpace, heq]
      exact (hunit unit hmem).1

theorem Checked.secret_plain (h : Checked js input) :
    '#' ∉ JsText.decodeUtf16 input.secret ∧ '\n' ∉ JsText.decodeUtf16 input.secret := by
  by_cases hnil : input.secret = []
  · rw [hnil]
    exact ⟨List.not_mem_nil, List.not_mem_nil⟩
  · obtain ⟨hhash, hspace⟩ := password_plain (h.secret hnil)
    exact ⟨hhash, fun hmem => absurd (hspace _ hmem) (by decide)⟩

/-- The value that is written, and the fields that the server reads of it. -/
theorem value_client (h : Checked js input) :
    '#' ∉ (input.client js).value ∧ '\n' ∉ (input.client js).value ∧
      Text.splitWhitespace (input.client js).value =
        input.digits js ::
          if input.login = [] then []
          else input.login :: Text.splitWhitespace (JsText.decodeUtf16 input.secret) := by
  obtain ⟨hfingerprint, -⟩ := h.isFingerprint
  obtain ⟨hdigitsHash, hdigitsNewline, -, hdigitsSpace⟩ := hexDigits_plain (t := input.digits js)
    fun c hc => (isHexDigit_of_lower (h.digits c hc)).1
  have hdigitsNe : input.digits js ≠ [] := by
    intro hnil
    have hlength := h.length
    rw [hnil] at hlength
    cases hlength
  cases hlogin : input.login with
  | nil =>
      have hvalue : (input.client js).value = input.digits js := by
        rw [Client.value, SaveInput.client, hlogin]
      rw [hvalue, if_pos rfl]
      exact ⟨hdigitsHash, hdigitsNewline, Fields.fields_of_all_not hdigitsNe hdigitsSpace⟩
  | cons c rest =>
      have hid := h.login (by rw [hlogin]; exact List.cons_ne_nil c rest)
      rw [hlogin] at hid
      obtain ⟨hidHash, hidNewline, hidSpace⟩ := loginId_plain hid
      obtain ⟨hsecretHash, hsecretNewline⟩ := h.secret_plain
      have hvalue : (input.client js).value = input.digits js ++ ' ' ::
          (c :: rest ++ ' ' :: JsText.decodeUtf16 input.secret) := by
        rw [Client.value, SaveInput.client, hlogin]
        exact List.append_assoc _ _ _
      have hfree : ∀ {mark : Char}, mark ≠ ' ' → mark ∉ input.digits js → mark ∉ c :: rest →
          mark ∉ JsText.decodeUtf16 input.secret → mark ∉ (input.client js).value := by
        intro mark hmark hdigits hid hsecret hmem
        rw [hvalue] at hmem
        rcases List.mem_append.mp hmem with hmem | hmem
        · exact hdigits hmem
        · rcases List.mem_append.mp ((List.mem_cons.mp hmem).resolve_left hmark) with hmem | hmem
          · exact hid hmem
          · exact hsecret ((List.mem_cons.mp hmem).resolve_left hmark)
      refine ⟨hfree (by decide) hdigitsHash hidHash hsecretHash,
        hfree (by decide) hdigitsNewline hidNewline hsecretNewline, ?_⟩
      · rw [hvalue, if_neg (List.cons_ne_nil c rest), Text.splitWhitespace_eq,
          Fields.fields_word_append hdigitsNe rfl hdigitsSpace,
          Fields.fields_word_append (List.cons_ne_nil c rest) rfl hidSpace]
        rfl

/-- The line of the client, and its entry. -/
theorem entry_client (h : Checked js input) :
    BodyLine (input.client js).line ∧
      iniEntry (input.client js).line =
        some (input.vpnAddress, Text.trim (input.client js).value) := by
  obtain ⟨address, hnumber⟩ := h.address
  have hkey := addressText_of_number hnumber
  obtain ⟨hhash, hnewline, -⟩ := value_client h
  obtain ⟨hheader, hsection, hentry⟩ := iniEntry_line hkey (input.client js).value
  refine ⟨⟨?_, hheader, hsection⟩, ?_⟩
  · rw [Client.line, List.mem_append, List.mem_append]
    simp only [not_or]
    exact ⟨⟨hkey.plain.2.2.1, by decide⟩, hnewline⟩
  · rw [uncommented_eq_self hhash] at hentry
    exact hentry

end Saved

end Web

end AutobricksVpn
