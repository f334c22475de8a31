/-
# `AutobricksVpn.Web.StoredLogin` — a login from the console to the handshake

The login that `saveClient` writes is read by `client_logins`, typed by the user
for `make_login_credentials`, and compared by `login_matches`.  It goes through
(`Works`) if and only if the address has no leading zero and the password is one
that can be typed (`Typable`): the console counts 128 units of UTF-16 where the
client counts 128 bytes, and lets through a NUL, a lone surrogate, and U+0085,
which is white space for the server.
-/
import AutobricksVpn.Client.Login
import AutobricksVpn.Web.ClientEdits

namespace AutobricksVpn

namespace Web

open JsText (Runtime)

/-! ## Bytes of a text -/

section Bytes

variable {t : Text} {c : Char}

theorem asBytes_ofList (t : Text) : asBytes (String.ofList t) = t.flatMap String.utf8EncodeChar := by
  unfold asBytes
  rw [String.toUTF8_eq_toByteArray, String.toByteArray_ofList, List.utf8Encode]
  simp

theorem length_asBytes (t : Text) : (asBytes (String.ofList t)).length = (t.map Char.utf8Size).sum := by
  rw [asBytes_ofList, List.length_flatMap]
  simp only [String.length_utf8EncodeChar]

theorem sum_utf8Size_ascii : (∀ c ∈ t, c.toNat < 128) → (t.map Char.utf8Size).sum = t.length := by
  intro hascii
  induction t with
  | nil => rfl
  | cons c t ih =>
      obtain ⟨hc, ht⟩ := List.forall_mem_cons.mp hascii
      have hsize : c.utf8Size = 1 := Char.utf8Size_eq_one_iff.mpr (Nat.le_of_lt_succ hc)
      rw [List.map_cons, List.sum_cons, hsize, ih ht, List.length_cons, Nat.add_comm]

/-- A byte is zero in the character NUL only. -/
theorem zero_mem_utf8EncodeChar : 0 ∈ String.utf8EncodeChar c ↔ c = '\x00' := by
  have hzero : ∀ n : Nat, 0 = UInt8.ofNat n ↔ n % 256 = 0 := by
    intro n
    rw [← UInt8.toNat_inj, UInt8.toNat_ofNat']
    exact eq_comm
  have hnul : c = '\x00' ↔ c.val.toNat = 0 := by
    rw [← Char.toNat_inj]
    rfl
  rw [hnul]
  unfold String.utf8EncodeChar
  dsimp only
  split
  · rw [List.mem_singleton, hzero]
    omega
  · split
    · simp only [List.mem_cons, List.not_mem_nil, or_false, hzero]
      omega
    · split
      · simp only [List.mem_cons, List.not_mem_nil, or_false, hzero]
        omega
      · simp only [List.mem_cons, List.not_mem_nil, or_false, hzero]
        omega

theorem zero_mem_asBytes : 0 ∈ asBytes (String.ofList t) ↔ '\x00' ∈ t := by
  rw [asBytes_ofList, List.mem_flatMap]
  constructor
  · rintro ⟨c, hc, hzero⟩
    rwa [← zero_mem_utf8EncodeChar.mp hzero]
  · exact fun h => ⟨_, h, zero_mem_utf8EncodeChar.mpr rfl⟩

theorem asBytes_eq_nil : asBytes (String.ofList t) = [] ↔ t = [] := by
  rw [asBytes_ofList, List.flatMap_eq_nil_iff]
  constructor
  · intro h
    cases t with
    | nil => rfl
    | cons c t =>
        have hlength := congrArg List.length (h c List.mem_cons_self)
        rw [String.length_utf8EncodeChar] at hlength
        exact absurd hlength (Nat.ne_of_gt c.utf8Size_pos)
  · rintro rfl c hc
    exact absurd hc List.not_mem_nil

/-- `make_login_credentials`, of texts. -/
theorem makeLoginCredentials_ok {id password : Text} {credentials : LoginCredentials} :
    makeLoginCredentials (String.ofList id) (String.ofList password) = .ok credentials ↔
      (id ≠ [] ∧ (id.map Char.utf8Size).sum ≤ 128 ∧ '\x00' ∉ id) ∧
      (password ≠ [] ∧ (password.map Char.utf8Size).sum ≤ 128 ∧ '\x00' ∉ password) ∧
      credentials.id = asBytes (String.ofList id) ∧
      credentials.password = asBytes (String.ofList password) := by
  unfold makeLoginCredentials
  constructor
  · intro h
    split at h
    · cases h
    · rename_i hchecked
      obtain rfl := Except.ok.inj h
      simp only [asBytes_eq_nil, length_asBytes, zero_mem_asBytes, not_or, Nat.not_lt] at hchecked
      obtain ⟨hid, hidLength, hidNul, hpassword, hlength, hnul⟩ := hchecked
      exact ⟨⟨hid, hidLength, hidNul⟩, ⟨hpassword, hlength, hnul⟩, rfl, rfl⟩
  · rintro ⟨⟨hid, hidLength, hidNul⟩, ⟨hpassword, hlength, hnul⟩, hidBytes, hpasswordBytes⟩
    rw [dif_neg]
    · cases credentials
      cases hidBytes
      cases hpasswordBytes
      rfl
    · simp only [asBytes_eq_nil, length_asBytes, zero_mem_asBytes, not_or, Nat.not_lt]
      exact ⟨hid, hidLength, hidNul, hpassword, hlength, hnul⟩

end Bytes

/-! ## Passwords that can be typed -/

/-- The units are those of a text without U+0085 and NUL, of at most 128 bytes. -/
def Typable (secret : JsString) : Prop :=
  ∃ password : Text, JsText.utf16 password = secret ∧ '\u0085' ∉ password ∧ '\x00' ∉ password ∧
    (password.map Char.utf8Size).sum ≤ 128

/-- The line of a client gives its address a login, and a user who types the
login gets in with it. -/
structure Works (line vpnAddress id : Text) (secret : JsString) (password : Text)
    (address : Ipv4Addr) (logins : AList fun _ : Ipv4Addr => String × String)
    (credentials : LoginCredentials) : Prop where
  typed : JsText.utf16 password = secret
  parsed : Text.parseIpv4 vpnAddress = some address
  read : clientLogins (parseIniEntries (joinLines ["[client]".toList, line]) "client") = .ok logins
  stored : logins.lookup address = some (String.ofList id, String.ofList password)
  made : makeLoginCredentials (String.ofList id) (String.ofList password) = .ok credentials
  matched : loginMatches (loginFrame credentials.id credentials.password) (String.ofList id)
    (String.ofList password) = true

section Stored

variable {js : Runtime} {input : SaveInput} {text text' : Text} {listed : ListedClient}
  {password : Text}

/-- The text that is typed is the one that is written. -/
theorem decode_typed (h : JsText.utf16 password = input.secret) :
    JsText.decodeUtf16 input.secret = password := by
  rw [← h, JsText.decodeUtf16_utf16]

/-- A password is one word for the server if and only if it has no U+0085 in it. -/
theorem word_iff {units : JsString} (h : isPassword units = true)
    (htyped : JsText.utf16 password = units) :
    Text.splitWhitespace password = [password] ↔ '\u0085' ∉ password := by
  have hspace := (password_plain h).2
  rw [← htyped, JsText.decodeUtf16_utf16] at hspace
  have hne : password ≠ [] := by
    rintro rfl
    rw [← htyped] at h
    cases h
  rw [Text.splitWhitespace_eq]
  constructor
  · intro hword hmem
    have hin : password ∈ Fields.fields Text.isWhitespace password := by
      rw [hword]
      exact List.mem_singleton_self _
    exact absurd ((Fields.mem_fields hin).2 _ hmem) (by decide)
  · intro hnel
    refine Fields.fields_of_all_not hne fun c hc => ?_
    rw [← JsText.isSpace_eq]
    · exact hspace c hc
    · rintro rfl
      exact hnel hc
    · rintro rfl
      exact absurd (hspace _ hc) (by decide)

/-- The entry that the server reads from the line. -/
theorem entries_line (h : Checked js input) :
    parseIniEntries (joinLines ["[client]".toList, (input.client js).line]) "client" =
      [(input.vpnAddress, Text.trim (input.client js).value)] := by
  obtain ⟨hbody, hentry⟩ := entry_client h
  have hnewline : ∀ line ∈ ["[client]".toList, (input.client js).line], '\n' ∉ line := by
    intro line hline
    rcases List.mem_cons.mp hline with rfl | hline
    · decide
    · exact List.mem_singleton.mp hline ▸ hbody.noNewline
  have hopened : iniHeader "[client]".toList = some "client".toList := by decide
  have hplain : ∀ line ∈ [(input.client js).line], iniHeader line = none :=
    List.forall_mem_singleton.mpr hbody.noHeader
  rw [parseIniEntries_joinLines (List.cons_ne_nil _ _) hnewline]
  change parseIniLines _ _ ([] ++ "[client]".toList :: ([(input.client js).line] ++ [])) = _
  rw [parseIniLines_section hopened hplain, if_pos (beq_self_eq_true _),
    List.filterMap_cons_some hentry]
  rfl

/-- The login of that entry, when the password is one word. -/
theorem entryLogin_line (h : Checked js input) (hlogin : input.login ≠ []) {address : Ipv4Addr}
    {word : Text} (hparsed : Text.parseIpv4 input.vpnAddress = some address)
    (hword : Text.splitWhitespace (JsText.decodeUtf16 input.secret) = [word]) :
    entryLogin (input.vpnAddress, Text.trim (input.client js).value) =
      some (address, String.ofList input.login, String.ofList word) := by
  obtain ⟨-, -, hfields⟩ := value_client h
  rw [if_neg hlogin, hword] at hfields
  unfold entryLogin
  dsimp only
  rw [Text.splitWhitespace_trim, hfields]
  dsimp only
  rw [hparsed]
  rfl

/-- An id is typed as it is written. -/
theorem loginId_typed {id : Text} (h : isLoginId id = true) :
    (id ≠ [] ∧ (id.map Char.utf8Size).sum ≤ 128 ∧ '\x00' ∉ id) ∧
      0 ∉ asBytes (String.ofList id) := by
  obtain ⟨hne, hlength, hbounds⟩ := loginId_bounds h
  have hnul : '\x00' ∉ id := fun hmem => absurd (hbounds _ hmem).1 (by decide)
  have hascii : ∀ c ∈ id, c.toNat < 128 := fun c hc => Nat.lt_succ_of_le <|
    Nat.le_trans (hbounds c hc).2 (by decide)
  refine ⟨⟨hne, ?_, hnul⟩, fun hzero => hnul (zero_mem_asBytes.mp hzero)⟩
  rw [sum_utf8Size_ascii hascii]
  exact Nat.le_trans hlength (by decide)

theorem works_iff (h : Checked js input) (hlogin : input.login ≠ []) :
    (∃ password address logins credentials, Works (input.client js).line input.vpnAddress
        input.login input.secret password address logins credentials) ↔
      Canonical input.vpnAddress ∧ Typable input.secret := by
  have hsecret : input.secret ≠ [] := fun hnil => hlogin (h.together.mpr hnil)
  have hpassword := h.secret hsecret
  constructor
  · rintro ⟨password, address, logins, credentials, hworks⟩
    have hdecoded := decode_typed hworks.typed
    have hread := hworks.read
    rw [entries_line h] at hread
    obtain ⟨hfields, rfl⟩ := foldlM_clientLogin.mp hread
    have hlength := (hasLoginFields_client h hworks.parsed).mp (hfields _ (List.mem_singleton_self _))
    obtain ⟨word, hword⟩ := List.length_eq_one_iff.mp (hlength.resolve_left hlogin)
    have hentry := entryLogin_line h hlogin hworks.parsed hword
    have hstored := hworks.stored
    rw [List.foldl_cons, List.foldl_nil, withLogin, hentry, AList.lookup_insert] at hstored
    have hsame := (Prod.mk.inj (Option.some.inj hstored)).2
    rw [String.ofList_injective hsame, hdecoded] at hword
    obtain ⟨-, ⟨-, hbytes, hnul⟩, -⟩ := makeLoginCredentials_ok.mp hworks.made
    exact ⟨(parseIpv4_iff.mp hworks.parsed).2, password, hworks.typed,
      (word_iff hpassword hworks.typed).mp hword, hnul, hbytes⟩
  · rintro ⟨hcanonical, password, htyped, hnel, hnul, hbytes⟩
    obtain ⟨address, hnumber⟩ := h.address
    have hparsed := parseIpv4_iff.mpr ⟨hnumber, hcanonical⟩
    have hword := (word_iff hpassword htyped).mpr hnel
    rw [← decode_typed htyped] at hword
    have hentry := entryLogin_line h hlogin hparsed hword
    have hread : clientLogins (parseIniEntries (joinLines ["[client]".toList,
        (input.client js).line]) "client") =
        .ok (withLogin ∅ (input.vpnAddress, Text.trim (input.client js).value)) := by
      rw [entries_line h]
      refine foldlM_clientLogin.mpr ⟨List.forall_mem_singleton.mpr ?_, rfl⟩
      rw [hasLoginFields_client h hparsed, hword]
      exact .inr rfl
    have hid := loginId_typed (h.login hlogin)
    refine ⟨password, address, _, ⟨_, asBytes (String.ofList password), hid.2⟩, htyped, hparsed,
      hread, ?_, ?_, loginMatches_loginFrame hid.2⟩
    · rw [withLogin, hentry, AList.lookup_insert, decode_typed htyped]
    · refine makeLoginCredentials_ok.mpr ⟨hid.1, ⟨?_, hbytes, hnul⟩, rfl, rfl⟩
      rintro rfl
      exact hsecret htyped.symm

/-- A line that is written is a line of the file. -/
theorem line_mem_lines {out : List Text} {line : Text} (hout : ∀ line ∈ out, '\n' ∉ line)
    (hline : line ∈ out) (hne : line ≠ []) (hreturn : line.getLast? ≠ some '\r') :
    line ∈ Text.lines (joinLines out) := by
  obtain ⟨lines, k, rfl, heq⟩ := lines_joinLines (List.ne_nil_of_mem hline) hout
  rw [heq]
  rcases List.mem_append.mp hline with hline | hblank
  · exact List.mem_map.mpr ⟨line, hline, if_neg hreturn⟩
  · exact absurd (List.eq_of_mem_replicate hblank) hne

theorem newline_not_mem_client (h : Checked js input) {client : Client} :
    client ∈ without (readClients js text) input.vpnAddress ++ [input.client js] →
    '\n' ∉ client.line := by
  intro hclient
  rcases List.mem_append.mp hclient with hclient | hclient
  · exact newline_not_mem_readClients (List.mem_filter.mp hclient).1
  · exact List.mem_singleton.mp hclient ▸ (entry_client h).1.noNewline

/-- The last character of the line is the last one of the password. -/
theorem getLast?_line (h : Checked js input) (hlogin : input.login ≠ []) :
    (input.client js).line.getLast? ≠ some '\r' := by
  have hsecret : input.secret ≠ [] := fun hnil => hlogin (h.together.mpr hnil)
  have hspace := (password_plain (h.secret hsecret)).2
  obtain ⟨c, rest, hid⟩ := List.exists_cons_of_ne_nil hlogin
  have hvalue : (input.client js).value =
      input.digits js ++ ' ' :: (c :: rest) ++ ' ' :: JsText.decodeUtf16 input.secret := by
    rw [Client.value, SaveInput.client, hid]
    rfl
  rw [Client.line, hvalue, ← List.append_assoc, List.getLast?_append_of_ne_nil _ (List.cons_ne_nil _ _)]
  intro hlast
  rcases List.mem_cons.mp (List.mem_of_getLast? hlast) with heq | hmem
  · exact absurd heq (by decide)
  · exact absurd (hspace _ hmem) (by decide)

/-- **Logins.**  A login that was saved is in a line of the file, and works if and
only if the address is canonical and the password can be typed. -/
theorem stored_login_works :
    saveClient js text input = .ok (text', listed) → input.login ≠ [] →
    (input.client js).line ∈ Text.lines text' ∧
      ((∃ password address logins credentials, Works (input.client js).line input.vpnAddress
          input.login input.secret password address logins credentials) ↔
        Canonical input.vpnAddress ∧ Typable input.secret) := by
  intro hsave hlogin
  obtain ⟨-, -, -, hchecked, -, rfl⟩ := saveClient_ok hsave
  refine ⟨?_, works_iff hchecked hlogin⟩
  have hne : (input.client js).line ≠ [] := by
    rw [Client.line]
    simp
  have hwritten : (input.client js).line ∈
      clientLines js (without (readClients js text) input.vpnAddress ++ [input.client js]) :=
    List.mem_cons_of_mem _ (List.mem_map_of_mem ((List.mergeSort_perm _ _).mem_iff.mpr
      (List.mem_append_right _ (List.mem_singleton_self _))))
  have hbody : ∀ line ∈ clientLines js (without (readClients js text) input.vpnAddress ++
      [input.client js]), '\n' ∉ line := by
    intro line hline
    rcases List.mem_cons.mp hline with rfl | hline
    · exact bodyLine_managed.1.noNewline
    · obtain ⟨client, hclient, rfl⟩ := List.mem_map.mp hline
      exact newline_not_mem_client hchecked ((List.mergeSort_perm _ _).mem_iff.mp hclient)
  rw [writeClients_eq]
  unfold replaceSection
  have hlines : ∀ line ∈ JsText.lines text, '\n' ∉ line := newline_not_mem_lines
  split
  · refine line_mem_lines (fun line hline => ?_) (List.mem_append_right _ hwritten) hne
      (getLast?_line hchecked hlogin)
    rcases List.mem_append.mp hline with hline | hline
    · rcases List.mem_append.mp hline with hline | hline
      · exact hlines line hline
      · rcases List.mem_cons.mp hline with rfl | hline
        · exact List.not_mem_nil
        · rw [List.mem_singleton.mp hline]
          decide
    · exact hbody line hline
  · refine line_mem_lines (fun line hline => ?_)
      (List.mem_append_left _ (List.mem_append_right _ hwritten)) hne (getLast?_line hchecked hlogin)
    rcases List.mem_append.mp hline with hline | hline
    · rcases List.mem_append.mp hline with hline | hline
      · exact hlines line (List.take_subset _ _ hline)
      · exact hbody line hline
    · exact hlines line (List.drop_subset _ _ hline)

end Stored

/-! ## A password of 43 syllables -/

namespace Sample

/-- A client with a login. -/
def logged : SaveInput :=
  ⟨"10.8.1.3".toList, some (List.replicate 64 'b'), some "kim".toList,
    some (JsText.utf16 "secret".toList)⟩

/-- 43 units, and three bytes for each of them. -/
def syllables : JsString := List.replicate 43 0xac00

def longLogged : SaveInput :=
  ⟨"10.8.1.3".toList, some (List.replicate 64 'b'), some "kim".toList, some syllables⟩

end Sample

theorem stored_login_works_secret :
    ∃ text' listed, saveClient Sample.runtime Sample.commented Sample.logged = .ok (text', listed) ∧
      (Sample.logged.client Sample.runtime).line ∈ Text.lines text' ∧
      ∃ password address logins credentials, Works (Sample.logged.client Sample.runtime).line
        Sample.logged.vpnAddress Sample.logged.login Sample.logged.secret password address logins
        credentials := by
  have hsaves : (saveClient Sample.runtime Sample.commented Sample.logged).isOk = true := by
    decide +kernel
  obtain ⟨⟨text', listed⟩, hsave⟩ := exists_of_isOk hsaves
  obtain ⟨hline, hworks⟩ := stored_login_works hsave (by decide)
  refine ⟨text', listed, hsave, hline, hworks.mpr ⟨by decide +kernel, "secret".toList, rfl, ?_⟩⟩
  decide

theorem long_password_locks_out :
    ∃ text' listed,
      saveClient Sample.runtime Sample.commented Sample.longLogged = .ok (text', listed) ∧
        Sample.longLogged.login ≠ [] ∧
        ¬ ∃ password address logins credentials,
          Works (Sample.longLogged.client Sample.runtime).line Sample.longLogged.vpnAddress
            Sample.longLogged.login Sample.longLogged.secret password address logins credentials := by
  have hsaves : (saveClient Sample.runtime Sample.commented Sample.longLogged).isOk = true := by
    decide +kernel
  obtain ⟨⟨text', listed⟩, hsave⟩ := exists_of_isOk hsaves
  have hlogin : Sample.longLogged.login ≠ [] := by decide
  obtain ⟨-, -, -, hchecked, -, -⟩ := saveClient_ok hsave
  refine ⟨text', listed, hsave, hlogin, fun hworks => ?_⟩
  obtain ⟨-, password, htyped, -, -, hbytes⟩ := (works_iff hchecked hlogin).mp hworks
  rw [← decode_typed htyped] at hbytes
  have hlong : 128 < ((JsText.decodeUtf16 Sample.longLogged.secret).map Char.utf8Size).sum := by
    decide +kernel
  omega

end Web

end AutobricksVpn
