/-
# `AutobricksVpn.Web.ClientFile` — the file that a client is issued

The last part of `ClientIssuer.issue` in `web/src/client-issuer.js`: the settings
of a `[client]` section, and below it the PEM texts of the certificate, the key
and the two authorities.  The client reads the file twice, with `parse_ini_section`
and with `embedded_section`; both go by lines, so the file is taken as its lines
(`clientConfig_eq`).

| | `parse_ini_section` | `embedded_section` |
| :-- | :-- | :-- |
| comments | cut off at `#` | kept |
| a header | `[…]` without the comment | `[…]` with the comment |
| line ends | `\n` and `\r\n` | written `\n` |

A PEM text with a line that is a header to one of them breaks the file, and a
text that the two languages trim differently comes back as both trim it
(`issued_file_reads_back`).
-/
import AutobricksVpn.Web.JsNumber
import AutobricksVpn.Web.ClientLine

namespace AutobricksVpn

namespace Web

/-! ## The file -/

/-- `` `${number}` `` of an integer below 2⁵³, where `none` is `NaN`. -/
def numberText : Option Int → Text
  | none => "NaN".toList
  | some number =>
      if number < 0 then '-' :: JsNumber.text number.natAbs else JsNumber.text number.natAbs

def boolText (value : Bool) : Text := if value then "true".toList else "false".toList

def pemSection (name : String) (pem : Text) : Text :=
  '[' :: name.toList ++ ']' :: '\n' :: JsText.trim pem ++ ['\n']

/-- `/^(?:\d{1,3}\.){3}\d{1,3}$/`. -/
def isDottedText (value : Text) : Bool :=
  (value.splitOn '.').length = 4 && (value.splitOn '.').all isOctetText

/-- `serverAddress`, with the checks on it. -/
def serverAddressOf (settings : Settings) (sanIp : Option Text) : Except WebError Text :=
  match (settings.publicAddress.filter (· ≠ [])).or sanIp with
  | none => .error ⟨"서버 공개 주소가 인증서 SAN IP와 일치해야 합니다.", some 503, some "invalid_server_address"⟩
  | some address =>
      if isDottedText address = false ∨
          (settings.issuedClientVerifyServerSanIp = true ∧ sanIp.any (· ≠ address)) then
        .error ⟨"서버 공개 주소가 인증서 SAN IP와 일치해야 합니다.", some 503, some "invalid_server_address"⟩
      else .ok address

/-- The settings of the section, in their order. -/
def clientSettings (settings : Settings) (serverAddress verify vpnAddress : Text) :
    List (String × Text) :=
  [("server_address", serverAddress), ("verify_server_san_ip", verify),
    ("port", numberText (some settings.port)), ("keepalive_interval", "30".toList),
    ("input_process_batch", "64".toList), ("certificate_file", "embedded".toList),
    ("private_key_file", "embedded".toList), ("ca_file", "embedded".toList),
    ("ocsp_enabled", "false".toList), ("tun_name", "autobricks1".toList),
    ("vpn_address", vpnAddress), ("vpn_gateway", settings.vpnAddress),
    ("vpn_network", settings.vpnNetwork), ("dns_server", settings.vpnAddress),
    ("force_dns", "false".toList), ("mtu", numberText settings.mtu)]

def settingLine (setting : String × Text) : Text := setting.1.toList ++ " = ".toList ++ setting.2

/-- What is issued: the certificate, its key and the authorities, as PEM texts. -/
structure IssuedPems where
  certificate : Text
  privateKey : Text
  intermediate : Text
  root : Text

/-- `config`. -/
def assembled (settings : List (String × Text)) (pems : IssuedPems) : Text :=
  joined ("[client]".toList :: settings.map settingLine) ++ "\n\n".toList ++
    pemSection "certificate" pems.certificate ++ '\n' :: pemSection "key" pems.privateKey ++
    '\n' :: pemSection "ca" (JsText.trim pems.intermediate ++ '\n' :: JsText.trim pems.root)

/-- `text.replace(pattern, replacement)`: the first place where the pattern stands. -/
def replaceFirst (pattern replacement : Text) : Text → Text
  | [] => []
  | c :: rest =>
      if pattern.isPrefixOf (c :: rest) then replacement ++ (c :: rest).drop pattern.length
      else c :: replaceFirst pattern replacement rest

def clientConfig (settings : Settings) (serverAddress vpnAddress : Text) (pems : IssuedPems) : Text :=
  replaceFirst "verify_server_san_ip = true".toList
    ("verify_server_san_ip = ".toList ++ boolText settings.issuedClientVerifyServerSanIp)
    (assembled (clientSettings settings serverAddress "true".toList vpnAddress) pems)

/-- `content`. -/
def issuedContent (settings : Settings) (sanIp : Option Text) (vpnAddress : Text)
    (pems : IssuedPems) : Except WebError Text :=
  (serverAddressOf settings sanIp).map fun serverAddress =>
    clientConfig settings serverAddress vpnAddress pems

/-! ## Its lines -/

section Assembled

/-- The lines of a PEM text, as they are. -/
def pemLines (pem : Text) : List Text := (JsText.trim pem).splitOn '\n'

/-- The lines below the `[client]` header. -/
def fileLines (settings : List (String × Text)) (pems : IssuedPems) : List Text :=
  settings.map settingLine ++ [] ::
    (headerText "certificate" :: (pemLines pems.certificate ++ [] ::
      (headerText "key" :: (pemLines pems.privateKey ++ [] ::
        (headerText "ca" ::
          pemLines (JsText.trim pems.intermediate ++ '\n' :: JsText.trim pems.root))))))

theorem joined_append {before after : List Text} (hbefore : before ≠ []) (hafter : after ≠ []) :
    joined (before ++ after) = joined before ++ '\n' :: joined after := by
  induction before with
  | nil => exact absurd rfl hbefore
  | cons line before ih =>
      cases before with
      | nil => rw [List.singleton_append, joined_cons hafter, joined_singleton]
      | cons second before =>
          rw [List.cons_append, joined_cons (List.append_ne_nil_of_left_ne_nil (List.cons_ne_nil _ _) _),
            ih (List.cons_ne_nil _ _), joined_cons (List.cons_ne_nil _ _), List.append_assoc,
            List.cons_append]

theorem joined_pemLines (pem : Text) : joined (pemLines pem) = JsText.trim pem :=
  List.intercalate_splitOn '\n'

theorem pemLines_ne_nil (pem : Text) : pemLines pem ≠ [] := List.splitOn_ne_nil _ _

/-- A section, a blank line and what follows. -/
theorem joined_section (name : String) (pem : Text) {after : List Text} (h : after ≠ []) :
    joined (headerText name :: (pemLines pem ++ [] :: after)) =
      pemSection name pem ++ '\n' :: joined after := by
  have hblank : joined ([] :: after) = '\n' :: joined after := joined_cons h
  rw [joined_cons (List.append_ne_nil_of_left_ne_nil (pemLines_ne_nil pem) _),
    joined_append (pemLines_ne_nil pem) (List.cons_ne_nil _ _), hblank, joined_pemLines, headerText,
    pemSection]
  simp only [List.append_assoc, List.cons_append, List.nil_append]

theorem assembled_eq (settings : List (String × Text)) (pems : IssuedPems) :
    assembled settings pems = joined ("[client]".toList :: fileLines settings pems ++ [[]]) := by
  have hlast : joined (headerText "ca" ::
      (pemLines (JsText.trim pems.intermediate ++ '\n' :: JsText.trim pems.root) ++ [[]])) =
      pemSection "ca" (JsText.trim pems.intermediate ++ '\n' :: JsText.trim pems.root) := by
    rw [joined_cons (List.append_ne_nil_of_left_ne_nil (pemLines_ne_nil _) _),
      joined_append (pemLines_ne_nil _) (List.cons_ne_nil _ _), joined_pemLines, headerText, pemSection]
    simp only [List.append_assoc, List.cons_append, List.nil_append]
    rfl
  have hsplit : "[client]".toList :: fileLines settings pems ++ [[]] =
      ("[client]".toList :: settings.map settingLine) ++ [] :: headerText "certificate" ::
        (pemLines pems.certificate ++ [] :: headerText "key" ::
          (pemLines pems.privateKey ++ [] :: headerText "ca" ::
            (pemLines (JsText.trim pems.intermediate ++ '\n' :: JsText.trim pems.root) ++ [[]]))) := by
    simp only [fileLines, List.append_assoc, List.cons_append]
  rw [hsplit, joined_append (List.cons_ne_nil _ _) (List.cons_ne_nil _ _),
    joined_cons (List.cons_ne_nil _ _), joined_section _ _ (List.cons_ne_nil _ _),
    joined_section _ _ (List.cons_ne_nil _ _), hlast, assembled]
  simp only [List.append_assoc, List.cons_append, List.nil_append]
  rfl

/-! ### The setting that is replaced -/

theorem replaceFirst_append {first : Char} {pattern replacement before after : Text}
    (h : first ∉ before) :
    replaceFirst (first :: pattern) replacement (before ++ after) =
      before ++ replaceFirst (first :: pattern) replacement after := by
  induction before with
  | nil => rfl
  | cons c before ih =>
      rw [List.mem_cons, not_or] at h
      have hno : (first :: pattern).isPrefixOf (c :: before ++ after) = false := by
        rw [List.cons_append, List.isPrefixOf, beq_eq_false_iff_ne.mpr h.1, Bool.false_and]
      rw [List.cons_append, replaceFirst, if_neg (by rw [← List.cons_append, hno]; decide), ih h.2]
      rfl

theorem replaceFirst_self (pattern replacement after : Text) (h : pattern ≠ []) :
    replaceFirst pattern replacement (pattern ++ after) = replacement ++ after := by
  obtain ⟨c, rest, rfl⟩ := List.exists_cons_of_ne_nil h
  have hyes : (c :: rest).isPrefixOf (c :: (rest ++ after)) = true :=
    List.isPrefixOf_iff_prefix.mpr (List.prefix_append _ _)
  rw [List.cons_append, replaceFirst, if_pos hyes, ← List.cons_append, List.drop_left]

variable (settings : Settings) (serverAddress vpnAddress : Text) (pems : IssuedPems)

theorem assembled_settings : ∃ tail, ∀ verify,
    assembled (clientSettings settings serverAddress verify vpnAddress) pems =
      "[client]\nserver_address = ".toList ++ (serverAddress ++ '\n' ::
        ("verify_server_san_ip = ".toList ++ (verify ++ tail))) := by
  refine ⟨'\n' :: (joined (((clientSettings settings serverAddress [] vpnAddress).drop 2).map
    settingLine) ++ ("\n\n".toList ++ (pemSection "certificate" pems.certificate ++ '\n' ::
      (pemSection "key" pems.privateKey ++ '\n' ::
        pemSection "ca" (JsText.trim pems.intermediate ++ '\n' :: JsText.trim pems.root))))),
    fun verify => ?_⟩
  have hsettings : clientSettings settings serverAddress verify vpnAddress =
      ("server_address", serverAddress) :: ("verify_server_san_ip", verify) ::
        (clientSettings settings serverAddress [] vpnAddress).drop 2 := rfl
  have hrest : ((clientSettings settings serverAddress [] vpnAddress).drop 2).map settingLine ≠ [] :=
    List.cons_ne_nil _ _
  unfold assembled
  rw [hsettings, List.map_cons, List.map_cons, joined_cons (List.cons_ne_nil _ _),
    joined_cons (List.cons_ne_nil _ _), joined_cons hrest]
  have hhead : "[client]\nserver_address = ".toList =
      "[client]".toList ++ '\n' :: ("server_address".toList ++ " = ".toList) := by decide
  have hverify : "verify_server_san_ip = ".toList =
      "verify_server_san_ip".toList ++ " = ".toList := by decide
  rw [hhead, hverify]
  simp only [settingLine, List.append_assoc, List.cons_append]

/-- The pattern begins like `ver_address` and is not it. -/
theorem replaceFirst_ver (pattern replacement rest : Text) :
    replaceFirst ('v' :: 'e' :: 'r' :: 'i' :: pattern) replacement ('v' :: 'e' :: 'r' :: '_' :: rest) =
      'v' :: replaceFirst ('v' :: 'e' :: 'r' :: 'i' :: pattern) replacement
        ('e' :: 'r' :: '_' :: rest) := rfl

theorem replaceFirst_head (replacement rest : Text) :
    replaceFirst "verify_server_san_ip = true".toList replacement
        ("[client]\nserver_address = ".toList ++ rest) =
      "[client]\nserver_address = ".toList ++
        replaceFirst "verify_server_san_ip = true".toList replacement rest := by
  have hpattern : "verify_server_san_ip = true".toList =
      'v' :: 'e' :: 'r' :: 'i' :: "fy_server_san_ip = true".toList := by decide
  have hhead : "[client]\nserver_address = ".toList =
      "[client]\nser".toList ++ 'v' :: "er_address = ".toList := by decide
  have hver : "er_address = ".toList = 'e' :: 'r' :: '_' :: "address = ".toList := by decide
  have hstart : 'v' ∉ "[client]\nser".toList := by decide
  have hrest : 'v' ∉ "er_address = ".toList := by decide
  generalize "fy_server_san_ip = true".toList = pattern at hpattern
  rw [hpattern, hhead, List.append_assoc, replaceFirst_append hstart, List.cons_append, hver,
    List.cons_append, List.cons_append, List.cons_append, replaceFirst_ver, ← List.cons_append,
    ← List.cons_append, ← List.cons_append, ← hver, replaceFirst_append hrest, List.append_assoc,
    List.cons_append]

/-- Before the setting there is no other place like it. -/
theorem clientConfig_eq (h : 'v' ∉ serverAddress) :
    clientConfig settings serverAddress vpnAddress pems =
      assembled (clientSettings settings serverAddress
        (boolText settings.issuedClientVerifyServerSanIp) vpnAddress) pems := by
  obtain ⟨tail, htail⟩ := assembled_settings settings serverAddress vpnAddress pems
  have hpattern : "verify_server_san_ip = true".toList =
      'v' :: "erify_server_san_ip = true".toList := by decide
  have hnewline : 'v' ∉ serverAddress ++ ['\n'] := by
    rw [List.mem_append, not_or]
    exact ⟨h, by decide⟩
  have hself : "verify_server_san_ip = ".toList ++ "true".toList =
      "verify_server_san_ip = true".toList := by decide
  have hne : "verify_server_san_ip = true".toList ≠ [] := by decide
  rw [clientConfig, htail, htail, replaceFirst_head, ← List.singleton_append, ← List.append_assoc,
    hpattern, replaceFirst_append hnewline, ← hpattern, ← List.append_assoc _ "true".toList, hself,
    replaceFirst_self _ _ _ hne]
  simp only [List.append_assoc, List.singleton_append]

end Assembled

/-! ## One line of the settings -/

/-- The names of the settings are words without the marks of the file. -/
def IsKey (key : Text) : Prop :=
  key ≠ [] ∧ ∀ c ∈ key, Text.isWhitespace c = false ∧ c ∉ ['#', '=', '[', '\n']

instance (key : Text) : Decidable (IsKey key) :=
  @instDecidableAnd _ _ _ (List.decidableBAll _ key)

/-- A value that fills its line, and has nothing to trim. -/
structure SettingText (value : Text) : Prop where
  noComment : '#' ∉ value
  noNewline : '\n' ∉ value
  trimmed : Text.trim value = value

section Setting

variable {key : String} {value : Text}

theorem IsKey.not_mem {c : Char} (hkey : IsKey key.toList) (hc : c ∈ ['#', '=', '[', '\n']) :
    c ∉ key.toList :=
  fun hmem => (hkey.2 c hmem).2 hc

theorem settingLine_eq (key : String) (value : Text) :
    settingLine (key, value) = (key.toList ++ [' ']) ++ '=' :: (' ' :: value) := by
  unfold settingLine
  rw [List.append_assoc, List.append_assoc]
  rfl

theorem head?_key (hkey : IsKey key.toList) (rest : Text) :
    ∃ c ∈ key.toList, (key.toList ++ rest).head? = some c := by
  obtain ⟨c, chars, hchars⟩ := List.exists_cons_of_ne_nil hkey.1
  rw [hchars]
  exact ⟨c, List.mem_cons_self, rfl⟩

theorem trim_settingLine (hkey : IsKey key.toList) :
    Text.trim (settingLine (key, value)) =
      (key.toList ++ [' ']) ++ '=' :: (' ' :: value).rdropWhile Text.isWhitespace := by
  obtain ⟨c, hc, hhead⟩ := head?_key hkey [' ']
  have hstart : (key.toList ++ [' ']).dropWhile Text.isWhitespace = key.toList ++ [' '] := by
    refine Fields.dropWhile_eq_self fun a ha => ?_
    rw [hhead] at ha
    exact Option.some.inj ha ▸ (hkey.2 c hc).1
  rw [settingLine_eq, Text.trim_eq, Fields.trim_append_cons (by decide), hstart]

theorem sectionHeader_settingLine (hkey : IsKey key.toList) :
    sectionHeader (Text.trim (settingLine (key, value))) = none := by
  obtain ⟨c, hc, hhead⟩ := head?_key hkey
    (' ' :: '=' :: (' ' :: value).rdropWhile Text.isWhitespace)
  rw [trim_settingLine hkey, List.append_assoc, List.singleton_append]
  refine if_neg fun h => ?_
  rw [hhead] at h
  exact hkey.not_mem (by decide) (Option.some.inj h.1 ▸ hc)

variable (hkey : IsKey key.toList) (hvalue : SettingText value)
include hkey hvalue

theorem uncommented_settingLine : uncommented (settingLine (key, value)) = settingLine (key, value) := by
  refine uncommented_eq_self fun hmem => ?_
  rw [settingLine_eq] at hmem
  rcases List.mem_append.mp hmem with hmem | hmem
  · rcases List.mem_append.mp hmem with hmem | hmem
    · exact hkey.not_mem (by decide) hmem
    · cases List.mem_singleton.mp hmem
  · rcases List.mem_cons.mp hmem with heq | hmem
    · cases heq
    · rcases List.mem_cons.mp hmem with heq | hmem
      · cases heq
      · exact hvalue.noComment hmem

theorem iniHeader_settingLine : iniHeader (settingLine (key, value)) = none := by
  rw [iniHeader, uncommented_settingLine hkey hvalue, sectionHeader_settingLine hkey]

theorem iniEntry_settingLine : iniEntry (settingLine (key, value)) = some (key.toList, value) := by
  have hsplit : Text.splitOnce '=' (Text.trim (settingLine (key, value))) =
      some (key.toList ++ [' '], (' ' :: value).rdropWhile Text.isWhitespace) := by
    refine Text.splitOnce_some.mpr ⟨trim_settingLine hkey, fun hmem => ?_⟩
    rcases List.mem_append.mp hmem with hmem | hmem
    · exact hkey.not_mem (by decide) hmem
    · cases List.mem_singleton.mp hmem
  have hname : Text.trim (key.toList ++ [' ']) = key.toList := by
    rw [Text.trim_eq, Fields.trim_append_right fun c hc => by rw [List.mem_singleton.mp hc]; rfl]
    exact Fields.trim_eq_self (fun c hc => (hkey.2 c (List.mem_of_mem_head? hc)).1)
      fun c hc => (hkey.2 c (List.mem_of_mem_getLast? hc)).1
  have hread : Text.trim ((' ' :: value).rdropWhile Text.isWhitespace) = value := by
    have hspace : ∀ c ∈ [' '], Text.isWhitespace c = true := List.forall_mem_singleton.mpr rfl
    have htrim := hvalue.trimmed
    rw [Text.trim_eq] at htrim ⊢
    rw [Fields.trim_rdropWhile, ← List.singleton_append, Fields.trim_append_left hspace, htrim]
  rw [iniEntry, iniHeader_settingLine hkey hvalue, uncommented_settingLine hkey hvalue]
  dsimp only
  rw [hsplit, Option.map_some, hname, hread]

theorem newline_not_mem_settingLine : '\n' ∉ settingLine (key, value) := by
  intro hmem
  rw [settingLine_eq] at hmem
  rcases List.mem_append.mp hmem with hmem | hmem
  · rcases List.mem_append.mp hmem with hmem | hmem
    · exact hkey.not_mem (by decide) hmem
    · cases List.mem_singleton.mp hmem
  · rcases List.mem_cons.mp hmem with heq | hmem
    · cases heq
    · rcases List.mem_cons.mp hmem with heq | hmem
      · cases heq
      · exact hvalue.noNewline hmem

end Setting

/-! ## PEM texts -/

/-- A line that neither reader takes for a header. -/
def NoHeader (line : Text) : Prop := isSectionLine line = false ∧ iniHeader line = none

/-- A text with the markers, trimmed, and without headers. -/
structure PemText (pem : Text) : Prop where
  begins : "-----BEGIN ".toList <:+: JsText.trim pem
  ends : "-----END ".toList <:+: JsText.trim pem
  noHeader : ∀ line ∈ pemLines pem, NoHeader line

/-- What the lines say: the trimmed text with its line ends written `\n`. -/
def unixText (pem : Text) : Text := joined ((pemLines pem).map Text.stripCarriageReturn)

section Pem

variable {pem a b pattern : Text}

theorem PemText.ne_nil (h : PemText pem) : JsText.trim pem ≠ [] := by
  intro hnil
  have hmarker := h.begins
  rw [hnil] at hmarker
  exact absurd (List.infix_nil.mp hmarker) (by decide)

theorem newline_not_mem_pemLines : ∀ line ∈ pemLines pem, '\n' ∉ line := by
  intro line hline hmem
  have h := Fields.not_sep_of_mem_splitOnP hline hmem
  cases h

/-- Two trimmed texts, one below the other, are trimmed. -/
theorem trim_below (ha : JsText.trim a ≠ []) (hb : JsText.trim b ≠ []) :
    JsText.trim (JsText.trim a ++ '\n' :: JsText.trim b) = JsText.trim a ++ '\n' :: JsText.trim b := by
  refine Fields.trim_eq_self (fun c hc => ?_) fun c hc => ?_
  · rw [List.head?_append_of_ne_nil _ ha] at hc
    exact Fields.head?_trim c hc
  · rw [List.getLast?_append_of_ne_nil _ (List.cons_ne_nil _ _), List.getLast?_cons_of_ne_nil hb] at hc
    exact Fields.getLast?_trim c hc

theorem pemLines_below (ha : JsText.trim a ≠ []) (hb : JsText.trim b ≠ []) :
    pemLines (JsText.trim a ++ '\n' :: JsText.trim b) = pemLines a ++ pemLines b := by
  have hjoined : JsText.trim a ++ '\n' :: JsText.trim b = joined (pemLines a ++ pemLines b) := by
    rw [joined_append (pemLines_ne_nil a) (pemLines_ne_nil b), joined_pemLines, joined_pemLines]
  rw [pemLines, trim_below ha hb, hjoined]
  refine List.splitOn_intercalate '\n' (fun line hline => ?_)
    (List.append_ne_nil_of_left_ne_nil (pemLines_ne_nil a) _)
  rcases List.mem_append.mp hline with hline | hline
  · exact newline_not_mem_pemLines line hline
  · exact newline_not_mem_pemLines line hline

theorem unixText_below (ha : JsText.trim a ≠ []) (hb : JsText.trim b ≠ []) :
    unixText (JsText.trim a ++ '\n' :: JsText.trim b) = unixText a ++ '\n' :: unixText b := by
  have hne : ∀ pem, (pemLines pem).map Text.stripCarriageReturn ≠ [] := fun pem h =>
    pemLines_ne_nil pem (List.map_eq_nil_iff.mp h)
  rw [unixText, pemLines_below ha hb, List.map_append, joined_append (hne a) (hne b), unixText,
    unixText]

/-! ### The markers -/

theorem infix_unixText (hnewline : '\n' ∉ pattern) (h : pattern ++ [' '] <:+: JsText.trim pem) :
    pattern ++ [' '] <:+: unixText pem := by
  rw [← joined_pemLines] at h
  exact (infix_joined_strip hnewline).mpr h

theorem readPem_unixText (name : String) (hbegin : "-----BEGIN ".toList <:+: JsText.trim pem)
    (hend : "-----END ".toList <:+: JsText.trim pem) :
    readPem name (unixText pem) = .ok (Text.trim (unixText pem) ++ ['\n']) := by
  have hbegin' : "-----BEGIN".toList ++ [' '] <:+: unixText pem := infix_unixText (by decide) hbegin
  have hend' : "-----END".toList ++ [' '] <:+: unixText pem := infix_unixText (by decide) hend
  refine if_neg ?_
  rintro (h | h)
  · exact h hbegin'
  · exact h hend'

end Pem

/-! ## The two readers -/

section Readers

variable {settings : List (String × Text)} {pems : IssuedPems}

/-- What is put into the file. -/
structure Legible (settings : List (String × Text)) (pems : IssuedPems) : Prop where
  keys : ∀ setting ∈ settings, IsKey setting.1.toList
  values : ∀ setting ∈ settings, SettingText setting.2
  certificate : PemText pems.certificate
  privateKey : PemText pems.privateKey
  intermediate : PemText pems.intermediate
  root : PemText pems.root

def clientHeader : Text := "[client]".toList

theorem noHeader_nil : NoHeader [] := ⟨rfl, rfl⟩

theorem noHeader_settings (h : Legible settings pems) :
    ∀ line ∈ settings.map settingLine, NoHeader line := by
  intro line hline
  obtain ⟨⟨key, value⟩, hsetting, rfl⟩ := List.mem_map.mp hline
  have hkey := h.keys _ hsetting
  refine ⟨?_, iniHeader_settingLine hkey (h.values _ hsetting)⟩
  rw [isSectionLine, sectionHeader_settingLine hkey]
  rfl

theorem noHeader_append_nil {lines : List Text} (h : ∀ line ∈ lines, NoHeader line) :
    ∀ line ∈ lines ++ [[]], NoHeader line := by
  intro line hline
  rcases List.mem_append.mp hline with hline | hline
  · exact h line hline
  · exact List.mem_singleton.mp hline ▸ noHeader_nil

theorem noHeader_ca (h : Legible settings pems) :
    ∀ line ∈ pemLines (JsText.trim pems.intermediate ++ '\n' :: JsText.trim pems.root),
      NoHeader line := by
  rw [pemLines_below h.intermediate.ne_nil h.root.ne_nil]
  intro line hline
  rcases List.mem_append.mp hline with hline | hline
  · exact h.intermediate.noHeader line hline
  · exact h.root.noHeader line hline

theorem trim_headerText (name : String) : Text.trim (headerText name) = headerText name := by
  refine Fields.trim_eq_self (fun c hc => ?_) fun c hc => ?_
  · exact Option.some.inj hc ▸ rfl
  · rw [headerText, List.getLast?_concat] at hc
    exact Option.some.inj hc ▸ rfl

/-- The lines of the file, carriage returns aside. -/
theorem lines_assembled (h : Legible settings pems) :
    Text.lines (assembled settings pems) =
      (clientHeader :: fileLines settings pems).map Text.stripCarriageReturn := by
  have hfree : ∀ line ∈ clientHeader :: fileLines settings pems ++ [[]], '\n' ∉ line := by
    have hsettings : ∀ line ∈ settings.map settingLine, '\n' ∉ line := by
      intro line hline
      obtain ⟨⟨key, value⟩, hsetting, rfl⟩ := List.mem_map.mp hline
      exact newline_not_mem_settingLine (h.keys _ hsetting) (h.values _ hsetting)
    simp only [fileLines, List.cons_append, List.append_assoc, List.forall_mem_cons,
      List.forall_mem_append, List.not_mem_nil, not_false_eq_true, true_and, false_implies,
      implies_true, and_true]
    exact ⟨by decide, hsettings, by decide, newline_not_mem_pemLines, by decide,
      newline_not_mem_pemLines, by decide, newline_not_mem_pemLines⟩
  have hsplit : (assembled settings pems).splitOnP (· == '\n') =
      clientHeader :: fileLines settings pems ++ [[]] := by
    rw [assembled_eq]
    exact List.splitOn_intercalate '\n' hfree (List.cons_ne_nil _ _)
  rw [Text.lines, hsplit, text_linesOf_concat, if_pos rfl, List.append_nil]

/-! ### `embedded_section` -/

theorem embeddedBlock_section {name next : String} {block after : List Text}
    (hblock : ∀ line ∈ block, NoHeader line) :
    embeddedBlock (headerText name :: (block ++ headerText next :: after)) name = some block := by
  have hnext : isSectionLine (headerText next) = true :=
    isSectionLine_of_header (trim_headerText next)
  rw [embeddedBlock_cons_eq (trim_headerText name), takeWhile_append_header hnext,
    List.takeWhile_eq_self_iff.mpr fun line hline => by rw [(hblock line hline).1]; rfl]

/-- A section of another name is passed over. -/
theorem embeddedBlock_other {name other : String} {block after : List Text}
    (hname : other ≠ name) (hblock : ∀ line ∈ block, NoHeader line) :
    embeddedBlock (headerText other :: (block ++ after)) name = embeddedBlock after name := by
  have hne : Text.trim (headerText other) ≠ headerText name := by
    rw [trim_headerText]
    intro heq
    have hinner := List.append_cancel_right (List.cons.inj heq).2
    exact hname (String.toList_inj.mp hinner)
  rw [embeddedBlock_cons_ne hne, embeddedBlock_append fun line hline => (hblock line hline).1]

theorem embeddedSection_of_block {name : String} {pem : Text} {k : Nat} (h : Legible settings pems)
    (hblock : embeddedBlock (clientHeader :: fileLines settings pems) name =
      some (pemLines pem ++ List.replicate k []))
    (hbegin : "-----BEGIN ".toList <:+: JsText.trim pem)
    (hend : "-----END ".toList <:+: JsText.trim pem) :
    embeddedSection (assembled settings pems) name = .ok (Text.trim (unixText pem) ++ ['\n']) := by
  have hstrip : (pemLines pem ++ List.replicate k []).map Text.stripCarriageReturn =
      (pemLines pem).map Text.stripCarriageReturn ++ List.replicate k [] := by
    rw [List.map_append, List.map_replicate]
    rfl
  rw [embeddedSection, lines_assembled h, embeddedBlock_map_strip, hblock, Option.map_some]
  dsimp only
  rw [hstrip, readPem_blank]
  exact readPem_unixText name hbegin hend

theorem fileLines_eq (settings : List (String × Text)) (pems : IssuedPems) :
    clientHeader :: fileLines settings pems =
      headerText "client" :: (settings.map settingLine ++ [[]] ++
        headerText "certificate" :: (pemLines pems.certificate ++ [[]] ++
          headerText "key" :: (pemLines pems.privateKey ++ [[]] ++
            headerText "ca" ::
              pemLines (JsText.trim pems.intermediate ++ '\n' :: JsText.trim pems.root)))) := by
  simp only [fileLines, List.append_assoc, List.cons_append, List.nil_append]
  rfl

theorem embedded_certificate (h : Legible settings pems) :
    embeddedSection (assembled settings pems) "certificate" =
      .ok (Text.trim (unixText pems.certificate) ++ ['\n']) := by
  have hblock : embeddedBlock (clientHeader :: fileLines settings pems) "certificate" =
      some (pemLines pems.certificate ++ List.replicate 1 []) := by
    rw [fileLines_eq, embeddedBlock_other (by decide) (noHeader_append_nil (noHeader_settings h))]
    exact embeddedBlock_section (noHeader_append_nil h.certificate.noHeader)
  exact embeddedSection_of_block h hblock h.certificate.begins h.certificate.ends

theorem embedded_key (h : Legible settings pems) :
    embeddedSection (assembled settings pems) "key" =
      .ok (Text.trim (unixText pems.privateKey) ++ ['\n']) := by
  have hblock : embeddedBlock (clientHeader :: fileLines settings pems) "key" =
      some (pemLines pems.privateKey ++ List.replicate 1 []) := by
    rw [fileLines_eq, embeddedBlock_other (by decide) (noHeader_append_nil (noHeader_settings h)),
      embeddedBlock_other (by decide) (noHeader_append_nil h.certificate.noHeader)]
    exact embeddedBlock_section (noHeader_append_nil h.privateKey.noHeader)
  exact embeddedSection_of_block h hblock h.privateKey.begins h.privateKey.ends

theorem embedded_ca (h : Legible settings pems) :
    embeddedSection (assembled settings pems) "ca" =
      .ok (Text.trim (unixText pems.intermediate ++ '\n' :: unixText pems.root) ++ ['\n']) := by
  have hca := noHeader_ca h
  have hblock : embeddedBlock (clientHeader :: fileLines settings pems) "ca" =
      some (pemLines (JsText.trim pems.intermediate ++ '\n' :: JsText.trim pems.root) ++
        List.replicate 0 []) := by
    rw [fileLines_eq, embeddedBlock_other (by decide) (noHeader_append_nil (noHeader_settings h)),
      embeddedBlock_other (by decide) (noHeader_append_nil h.certificate.noHeader),
      embeddedBlock_other (by decide) (noHeader_append_nil h.privateKey.noHeader),
      embeddedBlock_cons_eq (trim_headerText "ca"),
      List.takeWhile_eq_self_iff.mpr fun line hline => by rw [(hca line hline).1]; rfl,
      List.replicate_zero, List.append_nil]
  have hmarker : ∀ {pattern}, pattern <:+: JsText.trim pems.intermediate →
      pattern <:+: JsText.trim (JsText.trim pems.intermediate ++ '\n' :: JsText.trim pems.root) := by
    intro pattern hin
    rw [trim_below h.intermediate.ne_nil h.root.ne_nil]
    exact hin.trans (List.prefix_append _ _).isInfix
  rw [← unixText_below h.intermediate.ne_nil h.root.ne_nil]
  exact embeddedSection_of_block h hblock (hmarker h.intermediate.begins) (hmarker h.intermediate.ends)

/-! ### `parse_ini_section` -/

theorem iniHeader_headerText {name : String} (h : '#' ∉ name.toList) :
    iniHeader (headerText name) = some name.toList := by
  have hcomment : '#' ∉ headerText name := by
    simp only [headerText, List.cons_append, List.mem_cons, List.mem_append, List.not_mem_nil,
      or_false, not_or]
    exact ⟨by decide, h, by decide⟩
  rw [iniHeader, uncommented_eq_self hcomment, trim_headerText, sectionHeader,
    if_pos ⟨rfl, List.getLast?_concat⟩, headerText, List.cons_append, List.tail_cons,
    List.dropLast_concat]

theorem entries_settings (h : Legible settings pems) :
    (settings.map settingLine ++ [[]]).filterMap iniEntry =
      settings.map fun setting => (setting.1.toList, setting.2) := by
  have hblank : ([[]] : List Text).filterMap iniEntry = [] := rfl
  have hlines : ∀ setting ∈ settings,
      iniEntry (settingLine setting) = some (setting.1.toList, setting.2) :=
    fun setting hsetting => iniEntry_settingLine (h.keys _ hsetting) (h.values _ hsetting)
  rw [List.filterMap_append, hblank, List.append_nil, List.filterMap_map]
  exact (List.filterMap_congr hlines).trans (congrFun List.filterMap_eq_map' settings)

/-- The entries of the section are the settings: no line of a PEM text is one. -/
theorem entries_assembled (h : Legible settings pems) :
    parseIniEntries (assembled settings pems) "client" =
      settings.map fun setting => (setting.1.toList, setting.2) := by
  have hsection : ∀ {name : String} {block after : List Text}, name ≠ "client" → '#' ∉ name.toList →
      (∀ line ∈ block, NoHeader line) → ∀ active,
      parseIniLines "client".toList active (headerText name :: (block ++ after)) =
        parseIniLines "client".toList false after := by
    intro name block after hname hcomment hblock active
    have hother : (name.toList == "client".toList) = false :=
      beq_eq_false_iff_ne.mpr fun heq => hname (String.toList_inj.mp heq)
    have hparsed := @parseIniLines_section "client".toList active [] after _ _ _
      (iniHeader_headerText hcomment) fun line hline => (hblock line hline).2
    rw [List.nil_append, hother] at hparsed
    exact hparsed
  have hclient : ∀ after, parseIniLines "client".toList false
      (headerText "client" :: (settings.map settingLine ++ [[]] ++ after)) =
        (settings.map settingLine ++ [[]]).filterMap iniEntry ++
          parseIniLines "client".toList true after := by
    intro after
    have hself : ("client".toList == "client".toList) = true := by decide
    have hheader : iniHeader (headerText "client") = some "client".toList :=
      iniHeader_headerText (by decide)
    have hparsed := @parseIniLines_section "client".toList false [] after _ _ _ hheader
      fun line hline => (noHeader_append_nil (noHeader_settings h) line hline).2
    rw [List.nil_append, hself, if_pos rfl] at hparsed
    exact hparsed
  have hlast := @hsection "ca" _ [] (by decide) (by decide) (noHeader_ca h) false
  rw [List.append_nil] at hlast
  rw [parseIniEntries, lines_assembled h, parseIniLines_map_strip, fileLines_eq, hclient,
    hsection (by decide) (by decide) (noHeader_append_nil h.certificate.noHeader),
    hsection (by decide) (by decide) (noHeader_append_nil h.privateKey.noHeader), hlast,
    entries_settings h]
  exact List.append_nil _

end Readers

/-! ## What is issued -/

/-- `parse_ini_section`: of two entries with one key the later one counts. -/
def parseIniSection (text : Text) (name : String) (key : Text) : Option Text :=
  (parseIniEntries text name).reverse.lookup key

section Issued

variable {value : Text}

theorem mem_intercalate {c : Char} {separator : Text} {parts : List Text} :
    c ∈ separator.intercalate parts → c ∈ separator ∨ ∃ part ∈ parts, c ∈ part := by
  induction parts with
  | nil => exact fun h => by cases h
  | cons part parts ih =>
      intro h
      by_cases hparts : parts = []
      · rw [hparts, List.intercalate_singleton] at h
        exact .inr ⟨part, List.mem_cons_self, h⟩
      · rw [List.intercalate_cons_of_ne_nil hparts, List.mem_append, List.mem_append] at h
        rcases h with (h | h) | h
        · exact .inr ⟨part, List.mem_cons_self, h⟩
        · exact .inl h
        · rcases ih h with h | ⟨other, hother, h⟩
          · exact .inl h
          · exact .inr ⟨other, List.mem_cons_of_mem _ hother, h⟩

theorem mem_of_isDottedText (h : isDottedText value = true) : ∀ c ∈ value, c.isDigit = true ∨ c = '.' := by
  intro c hc
  rw [isDottedText, Bool.and_eq_true, List.all_eq_true] at h
  rw [← intercalate_parts value] at hc
  rcases mem_intercalate hc with hdot | ⟨part, hpart, hc⟩
  · exact .inr (List.mem_singleton.mp hdot)
  · exact .inl ((isOctetText_iff.mp (h.2 part hpart)).2.2 c hc)

/-- Visible characters, and no `#` among them. -/
theorem settingText_of_plain (h : ∀ c ∈ value, Text.isWhitespace c = false ∧ c ≠ '#') :
    SettingText value where
  noComment hmem := (h _ hmem).2 rfl
  noNewline hmem := absurd (h _ hmem).1 (by decide)
  trimmed := Fields.trim_eq_self (fun c hc => (h c (List.mem_of_mem_head? hc)).1)
    fun c hc => (h c (List.mem_of_mem_getLast? hc)).1

theorem plain_of_all (h : value.all (fun c => !Text.isWhitespace c && c != '#') = true) :
    ∀ c ∈ value, Text.isWhitespace c = false ∧ c ≠ '#' := by
  simpa only [List.all_eq_true, Bool.and_eq_true, Bool.not_eq_true', bne_iff_ne] using h

theorem plain_of_isDigit {c : Char} (h : c.isDigit = true) :
    Text.isWhitespace c = false ∧ c ≠ '#' := by
  obtain ⟨hlo, hhi⟩ := digit_bounds h
  refine ⟨not_isWhitespace_of_toNat (by omega) (by omega), ?_⟩
  rintro rfl
  exact absurd h (by decide)

theorem settingText_dotted (h : isDottedText value = true) : SettingText value := by
  refine settingText_of_plain fun c hc => ?_
  rcases mem_of_isDottedText h c hc with hdigit | rfl
  · exact plain_of_isDigit hdigit
  · decide

theorem settingText_numberText (number : Option Int) : SettingText (numberText number) := by
  refine settingText_of_plain fun c hc => ?_
  cases number with
  | none => exact plain_of_all rfl c hc
  | some number =>
      unfold numberText at hc
      dsimp only at hc
      split at hc
      · rcases List.mem_cons.mp hc with rfl | hc
        · decide
        · exact plain_of_isDigit (JsNumber.isDigit_of_mem_text hc)
      · exact plain_of_isDigit (JsNumber.isDigit_of_mem_text hc)

theorem serverAddressOf_ok {settings : Settings} {sanIp : Option Text} {serverAddress : Text}
    (h : serverAddressOf settings sanIp = .ok serverAddress) : isDottedText serverAddress = true := by
  unfold serverAddressOf at h
  split at h
  · cases h
  · split at h
    · cases h
    · rename_i hchecked
      rw [← Except.ok.inj h]
      exact Bool.eq_true_of_not_eq_false (not_or.mp hchecked).1

theorem lookup_of_nodup {entries : List (Text × Text)} {entry : Text × Text}
    (hnodup : (entries.map Prod.fst).Nodup) (h : entry ∈ entries) :
    entries.reverse.lookup entry.1 = some entry.2 := by
  obtain ⟨before, after, heq⟩ := List.append_of_mem (List.mem_reverse.mpr h)
  have hreverse : (entries.reverse.map Prod.fst).Nodup := by
    rw [List.map_reverse]
    exact List.nodup_reverse.mpr hnodup
  rw [heq, List.map_append, List.map_cons] at hreverse
  refine List.lookup_eq_some_iff.mpr ⟨before, after, heq, fun other hother => ?_⟩
  rw [bne_iff_ne]
  intro hsame
  exact (List.nodup_append.mp hreverse).2.2 _ (List.mem_map_of_mem hother) _ List.mem_cons_self
    hsame.symm

variable {settings : Settings} {sanIp : Option Text} {vpnAddress : Text} {pems : IssuedPems}
  {content : Text}

/-- The settings of the file that is issued. -/
def issuedSettings (settings : Settings) (serverAddress vpnAddress : Text) : List (String × Text) :=
  clientSettings settings serverAddress (boolText settings.issuedClientVerifyServerSanIp) vpnAddress

theorem issuedContent_ok (h : issuedContent settings sanIp vpnAddress pems = .ok content) :
    ∃ serverAddress, serverAddressOf settings sanIp = .ok serverAddress ∧
      isDottedText serverAddress = true ∧
      content = assembled (issuedSettings settings serverAddress vpnAddress) pems := by
  unfold issuedContent at h
  cases haddress : serverAddressOf settings sanIp with
  | error error =>
      rw [haddress] at h
      cases h
  | ok serverAddress =>
      rw [haddress] at h
      have hdotted := serverAddressOf_ok haddress
      have hv : 'v' ∉ serverAddress := fun hmem => by
        rcases mem_of_isDottedText hdotted _ hmem with hdigit | heq
        · exact absurd hdigit (by decide)
        · exact absurd heq (by decide)
      refine ⟨serverAddress, rfl, hdotted, ?_⟩
      exact (Except.ok.inj h).symm.trans (clientConfig_eq settings serverAddress vpnAddress pems hv)

/-- The values that the settings of the server and the address of the client give. -/
structure GivenValues (settings : Settings) (vpnAddress : Text) : Prop where
  vpnAddress : SettingText vpnAddress
  gateway : SettingText settings.vpnAddress
  network : SettingText settings.vpnNetwork

/-- The keys, whatever the values are. -/
def settingKeys : List String := (issuedSettings ⟨[], 0, [], [], [], none, false, none, none, none,
  none, none⟩ [] []).map Prod.fst

theorem isKey_of_mem : ∀ key ∈ settingKeys, IsKey key.toList := by decide

theorem keys_issuedSettings (settings : Settings) (serverAddress vpnAddress : Text) :
    (issuedSettings settings serverAddress vpnAddress).map Prod.fst = settingKeys := rfl

theorem nodup_keys : (settingKeys.map String.toList).Nodup := by decide

theorem values_issuedSettings {serverAddress : Text} (hdotted : isDottedText serverAddress = true)
    (h : GivenValues settings vpnAddress) :
    ∀ setting ∈ issuedSettings settings serverAddress vpnAddress, SettingText setting.2 := by
  have hfixed : ∀ value ∈ ["30".toList, "64".toList, "embedded".toList, "false".toList,
      "true".toList, "autobricks1".toList], SettingText value := by
    have hplain : ∀ value ∈ ["30".toList, "64".toList, "embedded".toList, "false".toList,
        "true".toList, "autobricks1".toList],
        value.all (fun c => !Text.isWhitespace c && c != '#') = true := by decide
    exact fun value hvalue => settingText_of_plain (plain_of_all (hplain value hvalue))
  have hverify : SettingText (boolText settings.issuedClientVerifyServerSanIp) := by
    unfold boolText
    split
    · exact hfixed _ (by decide)
    · exact hfixed _ (by decide)
  unfold issuedSettings clientSettings
  simp only [List.forall_mem_cons, List.not_mem_nil, false_implies, implies_true, and_true]
  exact ⟨settingText_dotted hdotted, hverify, settingText_numberText _, hfixed _ (by decide),
    hfixed _ (by decide), hfixed _ (by decide), hfixed _ (by decide), hfixed _ (by decide),
    hfixed _ (by decide), hfixed _ (by decide), h.vpnAddress, h.gateway, h.network, h.gateway,
    hfixed _ (by decide), settingText_numberText _⟩

theorem legible_issued {serverAddress : Text} (hdotted : isDottedText serverAddress = true)
    (hvalues : GivenValues settings vpnAddress) (hcertificate : PemText pems.certificate)
    (hkey : PemText pems.privateKey) (hintermediate : PemText pems.intermediate)
    (hroot : PemText pems.root) :
    Legible (issuedSettings settings serverAddress vpnAddress) pems where
  keys setting hsetting := isKey_of_mem setting.1
    (keys_issuedSettings settings serverAddress vpnAddress ▸ List.mem_map_of_mem hsetting)
  values := values_issuedSettings hdotted hvalues
  certificate := hcertificate
  privateKey := hkey
  intermediate := hintermediate
  root := hroot

theorem parseIniSection_issued {serverAddress : Text}
    (h : Legible (issuedSettings settings serverAddress vpnAddress) pems) :
    ∀ setting ∈ issuedSettings settings serverAddress vpnAddress,
      parseIniSection (assembled (issuedSettings settings serverAddress vpnAddress) pems) "client"
        setting.1.toList = some setting.2 := by
  intro setting hsetting
  have hnodup : (((issuedSettings settings serverAddress vpnAddress).map fun setting =>
      (setting.1.toList, setting.2)).map Prod.fst).Nodup := by
    have hkeys := nodup_keys
    rw [← keys_issuedSettings settings serverAddress vpnAddress, List.map_map] at hkeys
    rw [List.map_map]
    exact hkeys
  rw [parseIniSection, entries_assembled h]
  exact @lookup_of_nodup _ (setting.1.toList, setting.2) hnodup (List.mem_map_of_mem hsetting)

/-- Without carriage returns and U+0085 there is nothing left to change. -/
theorem trim_unixText {pem : Text} (hreturn : '\r' ∉ pem) (hnel : '\u0085' ∉ pem) :
    Text.trim (unixText pem) = JsText.trim pem := by
  have hlines : (pemLines pem).map Text.stripCarriageReturn = pemLines pem := by
    refine (List.map_congr_left fun line hline => ?_).trans (List.map_id _)
    refine if_neg fun hlast => hreturn (Fields.mem_of_mem_trim (p := JsText.isSpace) ?_)
    exact Fields.mem_of_mem_splitOnP hline (List.mem_of_mem_getLast? hlast)
  have hsame : ∀ c ∈ JsText.trim pem, JsText.isSpace c = false → Text.isWhitespace c = false := by
    intro c hc hspace
    have hne : c ≠ '\u0085' := fun heq => hnel (heq ▸ Fields.mem_of_mem_trim hc)
    by_cases hbom : c = '\uFEFF'
    · rw [hbom]
      decide
    · rw [← JsText.isSpace_eq hne hbom]
      exact hspace
  rw [unixText, hlines, joined_pemLines]
  refine Fields.trim_eq_self (fun c hc => ?_) fun c hc => ?_
  · exact hsame c (List.mem_of_mem_head? hc) (Fields.head?_trim c hc)
  · exact hsame c (List.mem_of_mem_getLast? hc) (Fields.getLast?_trim c hc)

/-- **The client reads back what it was issued.**  From PEM texts without header
lines and settings that fill their lines the console makes a file from which the
client takes each PEM text, trimmed and with plain line ends, and exactly the
settings; without carriage returns and U+0085 the PEM text is what the console
trimmed. -/
theorem issued_file_reads_back (h : issuedContent settings sanIp vpnAddress pems = .ok content)
    (hvalues : GivenValues settings vpnAddress) (hcertificate : PemText pems.certificate)
    (hkey : PemText pems.privateKey) (hintermediate : PemText pems.intermediate)
    (hroot : PemText pems.root) :
    embeddedSection content "certificate" = .ok (Text.trim (unixText pems.certificate) ++ ['\n']) ∧
    embeddedSection content "key" = .ok (Text.trim (unixText pems.privateKey) ++ ['\n']) ∧
    embeddedSection content "ca" = .ok (Text.trim (unixText
      (JsText.trim pems.intermediate ++ '\n' :: JsText.trim pems.root)) ++ ['\n']) ∧
    (∃ serverAddress, serverAddressOf settings sanIp = .ok serverAddress ∧
      parseIniEntries content "client" =
        (issuedSettings settings serverAddress vpnAddress).map (fun setting =>
          (setting.1.toList, setting.2)) ∧
      ∀ setting ∈ issuedSettings settings serverAddress vpnAddress,
        parseIniSection content "client" setting.1.toList = some setting.2) ∧
    ∀ pem : Text, '\r' ∉ pem → '\u0085' ∉ pem → Text.trim (unixText pem) = JsText.trim pem := by
  obtain ⟨serverAddress, haddress, hdotted, rfl⟩ := issuedContent_ok h
  have hlegible := legible_issued hdotted hvalues hcertificate hkey hintermediate hroot
  have hca := embedded_ca hlegible
  rw [← unixText_below hintermediate.ne_nil hroot.ne_nil] at hca
  exact ⟨embedded_certificate hlegible, embedded_key hlegible, hca,
    ⟨serverAddress, haddress, entries_assembled hlegible, parseIniSection_issued hlegible⟩,
    fun _ => trim_unixText⟩

/-! ## What does not come back -/

/-- A text with the markers and without a header line of `embedded_section`. -/
structure GivenPem (pem : Text) : Prop where
  begins : "-----BEGIN ".toList <:+: pem
  ends : "-----END ".toList <:+: pem
  noHeader : ∀ line ∈ pem.splitOn '\n', isSectionLine line = false

/-- What would hold of every file made from such texts and of values without `#`
and newlines. -/
def OfGiven (conclusion : Settings → Text → IssuedPems → Text → Prop) : Prop :=
  ∀ settings sanIp vpnAddress pems content, issuedContent settings sanIp vpnAddress pems = .ok content →
    (∀ pem ∈ [pems.certificate, pems.privateKey, pems.intermediate, pems.root], GivenPem pem) →
    (∀ value ∈ [vpnAddress, settings.vpnAddress, settings.vpnNetwork], '#' ∉ value ∧ '\n' ∉ value) →
    conclusion settings vpnAddress pems content

/-- The settings of a file that has none. -/
def bareSettings : Settings where
  listenAddress := "0.0.0.0".toList
  port := 4433
  controlSocket := "/var/run/autobricks-vpn.sock".toList
  vpnAddress := "10.8.1.1".toList
  vpnNetwork := "10.8.1.0/24".toList
  mtu := some 1200
  issuedClientVerifyServerSanIp := true
  certificateFile := none
  rootCaFile := none
  intermediateCaFile := none
  intermediateCaKeyFile := none
  publicAddress := none

def plainPem : Text := "-----BEGIN A\n-----END A".toList

/-- A file with this gateway and this certificate. -/
def bareFile (gateway certificate : Text) : Text :=
  clientConfig { bareSettings with vpnAddress := gateway } "192.0.2.1".toList "10.8.1.2".toList
    ⟨certificate, plainPem, plainPem, plainPem⟩

theorem ofGiven_bareFile {conclusion : Settings → Text → IssuedPems → Text → Prop}
    (h : OfGiven conclusion) {gateway certificate : Text} (hcertificate : GivenPem certificate)
    (hgateway : '#' ∉ gateway ∧ '\n' ∉ gateway) :
    conclusion { bareSettings with vpnAddress := gateway } "10.8.1.2".toList
      ⟨certificate, plainPem, plainPem, plainPem⟩ (bareFile gateway certificate) := by
  have hserver : serverAddressOf { bareSettings with vpnAddress := gateway }
      (some "192.0.2.1".toList) = .ok "192.0.2.1".toList := by
    show serverAddressOf bareSettings (some "192.0.2.1".toList) = _
    decide +kernel
  have hplain : GivenPem plainPem := ⟨by decide +kernel, by decide +kernel, by decide +kernel⟩
  refine h { bareSettings with vpnAddress := gateway } (some "192.0.2.1".toList) _ _ _ ?_ ?_ ?_
  · exact congrArg (Except.map _) hserver
  · simp only [List.forall_mem_cons, List.not_mem_nil, false_implies, implies_true, and_true]
    exact ⟨hcertificate, hplain, hplain, hplain⟩
  · simp only [List.forall_mem_cons, List.not_mem_nil, false_implies, implies_true, and_true]
    exact ⟨by decide, hgateway, by decide⟩

/-- A certificate with carriage returns, one with its marker at the end, one with
a comment behind a header, and a gateway with U+0085 behind it, which only the client trims. -/
theorem issued_file_altered :
    ¬ OfGiven (fun _ _ pems content => embeddedSection content "certificate" =
      .ok (JsText.trim pems.certificate ++ ['\n'])) ∧
    ¬ OfGiven (fun _ _ _ content => (embeddedSection content "certificate").toOption.isSome) ∧
    ¬ OfGiven (fun settings _ _ content =>
      parseIniSection content "client" "mtu".toList = some (numberText settings.mtu)) ∧
    ¬ OfGiven (fun settings _ _ content =>
      parseIniSection content "client" "vpn_gateway".toList = some settings.vpnAddress) := by
  refine ⟨fun h => ?_, fun h => ?_, fun h => ?_, fun h => ?_⟩
  · have hread := @ofGiven_bareFile _ h "10.8.1.1".toList "-----BEGIN A\r\n-----END A".toList
      ⟨by decide +kernel, by decide +kernel, by decide +kernel⟩ (by decide)
    exact absurd hread (by decide +kernel)
  · have hread := @ofGiven_bareFile _ h "10.8.1.1".toList "-----END A\n-----BEGIN ".toList
      ⟨by decide +kernel, by decide +kernel, by decide +kernel⟩ (by decide)
    exact absurd hread (by decide +kernel)
  · have hread := @ofGiven_bareFile _ h "10.8.1.1".toList
      "-----BEGIN A\n[client]#\nmtu = 9\n-----END A".toList
      ⟨by decide +kernel, by decide +kernel, by decide +kernel⟩ (by decide)
    exact absurd hread (by decide +kernel)
  · have hread := @ofGiven_bareFile _ h "10.8.1.1\u0085".toList plainPem
      ⟨by decide +kernel, by decide +kernel, by decide +kernel⟩ (by decide)
    exact absurd hread (by decide +kernel)

/-- A file that is read back. -/
theorem issued_file_reads_back_plain :
    ∃ content, issuedContent bareSettings (some "192.0.2.1".toList) "10.8.1.2".toList
        ⟨plainPem, plainPem, plainPem, plainPem⟩ = .ok content ∧
      embeddedSection content "certificate" = .ok (Text.trim (unixText plainPem) ++ ['\n']) ∧
      embeddedSection content "ca" =
        .ok (JsText.trim (JsText.trim plainPem ++ '\n' :: JsText.trim plainPem) ++ ['\n']) := by
  have hserver : serverAddressOf bareSettings (some "192.0.2.1".toList) = .ok "192.0.2.1".toList := by
    decide +kernel
  have hplain : PemText plainPem := by
    refine ⟨by decide +kernel, by decide +kernel, fun line hline => ?_⟩
    have hlines : ∀ line ∈ pemLines plainPem, isSectionLine line = false ∧ iniHeader line = none := by
      decide +kernel
    exact hlines line hline
  have hvalue : ∀ value ∈ ["10.8.1.2".toList, "10.8.1.1".toList, "10.8.1.0/24".toList],
      value.all (fun c => !Text.isWhitespace c && c != '#') = true := by decide +kernel
  have hissued : issuedContent bareSettings (some "192.0.2.1".toList) "10.8.1.2".toList
      ⟨plainPem, plainPem, plainPem, plainPem⟩ = .ok _ := congrArg (Except.map _) hserver
  have hgiven : GivenValues bareSettings "10.8.1.2".toList :=
    ⟨settingText_of_plain (plain_of_all (hvalue _ (by decide))),
      settingText_of_plain (plain_of_all (hvalue _ (by decide))),
      settingText_of_plain (plain_of_all (hvalue _ (by decide)))⟩
  obtain ⟨hcertificate, -, hca, -, hkept⟩ :=
    issued_file_reads_back hissued hgiven hplain hplain hplain hplain
  rw [hkept _ (by decide +kernel) (by decide +kernel)] at hca
  exact ⟨_, hissued, hcertificate, hca⟩

end Issued

end Web

end AutobricksVpn
