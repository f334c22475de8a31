/-
# `AutobricksVpn.Web.ClientStart` — a client starts from the file it was issued

Three programs in a row: the server starts from `server.ini`, the console reads
its settings from the same file and issues a client file, and a client reads that
one.  The console checks its input less strictly than the client does: any three
digits pass for a part of the public address, and zeros may lead a part of the
client's own.  Everything else fits: where these two addresses are well formed the
client starts, with the port, the network, the gateway and the MTU of the server,
and otherwise it stops with an error that says which of them is not
(`issued_file_starts`).
-/
import AutobricksVpn.Web.SameSettings

namespace AutobricksVpn

namespace Web

open JsText (Runtime)

/-! ## What the client finds in its file -/

section Issued

variable {settings : Settings} {serverAddress vpnAddress directory : Text} {pems : IssuedPems}

/-- The files that the client makes of its credentials. -/
def issuedFiles (directory : Text) (pems : IssuedPems) : List (Text × Text) :=
  [(embeddedFile directory "certificate", Text.trim (unixText pems.certificate) ++ ['\n']),
    (embeddedFile directory "key", Text.trim (unixText pems.privateKey) ++ ['\n']),
    (embeddedFile directory "ca",
      Text.trim (unixText pems.intermediate ++ '\n' :: unixText pems.root) ++ ['\n'])]

/-- The settings with the names of these files. -/
def issuedValues (settings : Settings) (serverAddress vpnAddress directory : Text) : Values :=
  fun field =>
    if field = "certificate_file".toList then some (embeddedFile directory "certificate")
    else if field = "private_key_file".toList then some (embeddedFile directory "key")
    else if field = "ca_file".toList then some (embeddedFile directory "ca")
    else (((issuedSettings settings serverAddress vpnAddress).map fun setting =>
      (setting.1.toList, setting.2)).reverse).lookup field

theorem materialize_issued
    (h : Legible (issuedSettings settings serverAddress vpnAddress) pems) :
    materializeEmbeddedCredentials
        (assembled (issuedSettings settings serverAddress vpnAddress) pems) directory
        (parseIniSection (assembled (issuedSettings settings serverAddress vpnAddress) pems)
          "client") =
      .ok { values := issuedValues settings serverAddress vpnAddress directory
            files := issuedFiles directory pems } := by
  have hline : (Text.lines (assembled (issuedSettings settings serverAddress vpnAddress) pems)).any
      (fun line => Text.trim line = headerText "certificate") = true := by
    rw [lines_assembled h, fileLines_eq, List.any_map, List.any_eq_true]
    refine ⟨headerText "certificate", ?_, ?_⟩
    · exact List.mem_cons_of_mem _ (List.mem_append_right _ List.mem_cons_self)
    · decide
  unfold materializeEmbeddedCredentials
  rw [if_pos hline, embedded_certificate h, embedded_key h, embedded_ca h]
  have hvalues : ∀ field, parseIniSection
      (assembled (issuedSettings settings serverAddress vpnAddress) pems) "client" field =
        (((issuedSettings settings serverAddress vpnAddress).map fun setting =>
          (setting.1.toList, setting.2)).reverse).lookup field := fun field => by
    rw [parseIniSection, entries_assembled h]
  simp only [hvalues]
  rfl

/-- What the client makes of its file. -/
def issuedClient (settings : Settings) (server : ServerSettings) (address : Ipv4Addr)
    (vpnAddress directory : Text) : ClientSettings where
  server := address
  port := server.port
  keepaliveInterval := Duration.fromSecs 30
  verifyServerSanIp := settings.issuedClientVerifyServerSanIp
  forceDns := false
  dnsServer := server.vpnAddress
  config := {
    server := false
    certificateFile := embeddedFile directory "certificate"
    privateKeyFile := embeddedFile directory "key"
    caFile := some (embeddedFile directory "ca")
    crlFile := none
    ocspEnabled := false
    ocspUrl := none
    mtu := server.config.mtu }
  tunName := "autobricks1".toList
  vpnAddress := vpnAddress
  vpnGateway := server.vpnAddressText
  vpnNetwork := server.vpnNetwork

/-- The settings of the console are those of the server. -/
structure SameSettings (settings : Settings) (server : ServerSettings) : Prop where
  port : settings.port = (server.port : Int)
  mtu : settings.mtu = some (server.config.mtu : Int)
  vpnAddress : settings.vpnAddress = server.vpnAddressText
  vpnNetwork : settings.vpnNetwork = server.vpnNetwork

theorem parseUnsigned_text {n max : Nat} (h : n ≤ max) :
    Text.parseUnsigned max (JsNumber.text n) = some n := by
  have hplus : (JsNumber.text n).head? ≠ some '+' := by
    intro hhead
    exact absurd (JsNumber.isDigit_of_mem_text (List.mem_of_mem_head? hhead)) (by decide)
  unfold Text.parseUnsigned
  rw [if_neg hplus]
  dsimp only
  rw [JsNumber.parseDigits_text]
  exact Option.filter_eq_some_iff.mpr ⟨rfl, decide_eq_true h⟩

theorem numberText_natCast (n : Nat) : numberText (some (n : Int)) = JsNumber.text n := by
  unfold numberText
  dsimp only
  rw [if_neg (Int.not_lt.mpr (Int.natCast_nonneg n)), Int.natAbs_natCast]

theorem booleanValue_boolText {values : Values} {key : String} {default b : Bool}
    (h : values key.toList = some (boolText b)) : booleanValue values key default = .ok b := by
  unfold booleanValue
  rw [h]
  cases b <;> rfl

theorem trim_embeddedFile (directory : Text) (name : String) :
    Text.trim (embeddedFile directory name) ≠ [] := by
  intro hnil
  have hmem : '/' ∈ Text.trim (embeddedFile directory name) := by
    refine (Fields.mem_trim_iff (p := Text.isWhitespace) rfl).mpr ?_
    exact List.mem_append_left _ (List.mem_append_right _ List.mem_cons_self)
  rw [hnil] at hmem
  cases hmem

variable {server : ServerSettings}

section Found

variable {values : Values} {key default : String} {found : Text}

theorem value_found (h : values key.toList = some found) : value values key default = found := by
  rw [value, h, Option.getD_some]

theorem numberValue_found {max n : Nat} {kind : ErrorKind} (h : values key.toList = some found)
    (hn : Text.parseUnsigned max found = some n) :
    numberValue values key default max kind = .ok n := by
  rw [numberValue_ok, value_found h, hn]

theorem addressValue_found {address : Ipv4Addr} {kind : ErrorKind}
    (h : values key.toList = some found) (haddress : Text.parseIpv4 found = some address) :
    addressValue values key default kind = .ok address := by
  rw [addressValue_ok, value_found h, haddress]

theorem presentValue_found (h : values key.toList = some found) (hne : Text.trim found ≠ []) :
    presentValue values key = some found := by
  unfold presentValue
  rw [h]
  exact Option.filter_eq_some_iff.mpr ⟨rfl, decide_eq_true hne⟩

theorem requiredValue_found (h : values key.toList = some found) (hne : Text.trim found ≠ []) :
    requiredValue values key = .ok found := by
  rw [requiredValue, presentValue_found h hne]

end Found

/-- Where the file has the setting. -/
theorem issuedValues_found {key : String} {found : Text}
    (hkey : key.toList ∉
      ["certificate_file".toList, "private_key_file".toList, "ca_file".toList])
    (h : (key, found) ∈ issuedSettings settings serverAddress vpnAddress) :
    issuedValues settings serverAddress vpnAddress directory key.toList = some found := by
  have hnodup : (((issuedSettings settings serverAddress vpnAddress).map fun setting =>
      (setting.1.toList, setting.2)).map Prod.fst).Nodup := by
    have hkeys := nodup_keys
    rw [← keys_issuedSettings settings serverAddress vpnAddress, List.map_map] at hkeys
    rw [List.map_map]
    exact hkeys
  simp only [List.mem_cons, List.not_mem_nil, or_false, not_or] at hkey
  unfold issuedValues
  rw [if_neg hkey.1, if_neg hkey.2.1, if_neg hkey.2.2]
  exact @lookup_of_nodup _ (key.toList, found) hnodup (List.mem_map_of_mem h)

/-- Where it has not. -/
theorem issuedValues_missing {key : String}
    (hkey : key.toList ∉
      ["certificate_file".toList, "private_key_file".toList, "ca_file".toList])
    (h : key.toList ∉ settingKeys.map String.toList) :
    issuedValues settings serverAddress vpnAddress directory key.toList = none := by
  simp only [List.mem_cons, List.not_mem_nil, or_false, not_or] at hkey
  unfold issuedValues
  rw [if_neg hkey.1, if_neg hkey.2.1, if_neg hkey.2.2, List.lookup_eq_none_iff]
  intro entry hentry
  rw [← keys_issuedSettings settings serverAddress vpnAddress, List.map_map] at h
  obtain ⟨setting, hsetting, rfl⟩ := List.mem_map.mp (List.mem_reverse.mp hentry)
  exact bne_iff_ne.mpr fun heq => h (List.mem_map.mpr ⟨setting, hsetting, heq.symm⟩)

theorem clientSettings_issued (hsame : SameSettings settings server) (hport : server.port ≤ U16_MAX)
    (hmtu : server.config.mtu ≤ U16_MAX)
    (hgateway : Text.parseIpv4 server.vpnAddressText = some server.vpnAddress) :
    AutobricksVpn.clientSettings (issuedValues settings serverAddress vpnAddress directory) =
      match Text.parseIpv4 serverAddress with
      | none => .error (.other "invalid server_address")
      | some address => .ok (issuedClient settings server address vpnAddress directory) := by
  have hportText : numberText (some settings.port) = JsNumber.text server.port := by
    rw [hsame.port, numberText_natCast]
  have hmtuText : numberText settings.mtu = JsNumber.text server.config.mtu := by
    rw [hsame.mtu, numberText_natCast]
  have hfound : ∀ {key : String} {found : Text} (n : Nat),
      (issuedSettings settings serverAddress vpnAddress)[n]? = some (key, found) → key.toList ∉
        ["certificate_file".toList, "private_key_file".toList, "ca_file".toList] →
      issuedValues settings serverAddress vpnAddress directory key.toList = some found :=
    fun n hn hkey => issuedValues_found hkey (List.mem_of_getElem? hn)
  have hserver := hfound 0 rfl (by decide)
  have hverify := hfound 1 rfl (by decide)
  have hportValue := hfound 2 rfl (by decide)
  have hkeepalive := hfound 3 rfl (by decide)
  have hocsp := hfound 8 rfl (by decide)
  have hname := hfound 9 rfl (by decide)
  have hvpn := hfound 10 rfl (by decide)
  have hgatewayValue := hfound 11 rfl (by decide)
  have hnetwork := hfound 12 rfl (by decide)
  have hdns := hfound 13 rfl (by decide)
  have hforce := hfound 14 rfl (by decide)
  have hmtuValue := hfound 15 rfl (by decide)
  have hcertificate : issuedValues settings serverAddress vpnAddress directory
      "certificate_file".toList = some (embeddedFile directory "certificate") := rfl
  have hkey : issuedValues settings serverAddress vpnAddress directory
      "private_key_file".toList = some (embeddedFile directory "key") := rfl
  have hca : issuedValues settings serverAddress vpnAddress directory
      "ca_file".toList = some (embeddedFile directory "ca") := rfl
  have hcrl := @issuedValues_missing settings serverAddress vpnAddress directory "crl_file"
    (by decide) (by decide)
  have hocspUrl := @issuedValues_missing settings serverAddress vpnAddress directory "ocsp_url"
    (by decide) (by decide)
  generalize issuedValues settings serverAddress vpnAddress directory = values at *
  have hcaFile := requiredValue_found hca (trim_embeddedFile directory "ca")
  have hnumber : numberValue values "port" "4433" U16_MAX .other = .ok server.port :=
    numberValue_found hportValue (hportText ▸ parseUnsigned_text hport)
  have hmtuNumber : numberValue values "mtu" "1200" U16_MAX .other = .ok server.config.mtu :=
    numberValue_found hmtuValue (hmtuText ▸ parseUnsigned_text hmtu)
  have hseconds : numberValue values "keepalive_interval" "30" U64_MAX .other = .ok 30 :=
    numberValue_found hkeepalive (by decide)
  have hdnsServer : addressValue values "dns_server" "10.8.1.1" .invalidInput =
      .ok server.vpnAddress := addressValue_found hdns (hsame.vpnAddress ▸ hgateway)
  have hverifySan : booleanValue values "verify_server_san_ip" true =
      .ok settings.issuedClientVerifyServerSanIp := booleanValue_boolText hverify
  have hforceDns : booleanValue values "force_dns" false = .ok false := booleanValue_boolText hforce
  have hocspEnabled : booleanValue values "ocsp_enabled" true = .ok false :=
    booleanValue_boolText hocsp
  unfold AutobricksVpn.clientSettings
  cases hparsed : Text.parseIpv4 serverAddress with
  | none =>
      have hinvalid : addressValue values "server_address" "127.0.0.1" .other =
          .error (.other "invalid server_address") := by
        rw [addressValue, value_found hserver, hparsed]
        rfl
      rw [hinvalid]
      rfl
  | some address =>
      rw [addressValue_found hserver hparsed, hnumber, hseconds, hverifySan, hforceDns, hdnsServer,
        hcaFile, hocspEnabled, hmtuNumber, value_found hcertificate, value_found hkey,
        value_found hname, value_found hvpn, value_found hgatewayValue, value_found hnetwork,
        presentValue, hcrl, presentValue, hocspUrl, hsame.vpnAddress, hsame.vpnNetwork]
      rfl

end Issued

/-! ## From file to file -/

section Starts

variable {js : Runtime} {text directory header : Text} {before inside after : List Text}
  {settings : Settings} {server : ServerSettings}

theorem sameSettings_of_start (hserver : server.ReadFrom (parseIniSection text "server"))
    (hsection : OneSection js text before header inside after)
    (hsettings : readServerSettings js text = .ok settings) : SameSettings settings server := by
  obtain ⟨hport, hmtu, haddressText, -, hnetwork, -⟩ := hserver
  have hget : ∀ key, getEntry (parseSection js text "server") key =
      parseIniSection text "server" key.toList := fun key => getEntry_server hsection key
  unfold readServerSettings at hsettings
  simp only [hget] at hsettings
  unfold value at hport hmtu haddressText hnetwork
  rw [parseInt_of_parseUnsigned hport, parseInt_of_parseUnsigned hmtu] at hsettings
  dsimp only at hsettings
  split at hsettings
  · cases hsettings
  · split at hsettings
    · cases hsettings
    · obtain rfl := Except.ok.inj hsettings
      exact ⟨rfl, rfl, haddressText.symm, hnetwork.symm⟩

theorem plain_of_addressText {key : Text} (h : AddressText key) :
    ∀ c ∈ key, Text.isWhitespace c = false ∧ c ≠ '#' := fun c hc =>
  ⟨h.plain.2.2.2 c hc, fun heq => h.plain.1 (heq ▸ hc)⟩

/-- The spelling of a network fills its line. -/
theorem settingText_of_cidr {value : Text} {network : Ipv4Addr} {prefixLen : Nat}
    (h : Cidr value network prefixLen) : SettingText value := by
  obtain ⟨start, length, hsplit, hstart, hlength⟩ := h.spelt
  obtain ⟨rfl, -⟩ := Text.splitOnce_some.mp hsplit
  refine settingText_of_plain fun c hc => ?_
  rcases List.mem_append.mp hc with hc | hc
  · exact plain_of_addressText (addressText_of_parse hstart) c hc
  · rcases List.mem_cons.mp hc with rfl | hc
    · decide
    · unfold Text.parseU8 at hlength
      have hdigits := (digits_of_parseDigits (Option.filter_eq_some_iff.mp hlength).1).2
      split at hdigits
      · rename_i hplus
        rw [List.eq_cons_of_mem_head? hplus] at hc
        rcases List.mem_cons.mp hc with rfl | hc
        · decide
        · exact plain_of_isDigit (hdigits c hc)
      · exact plain_of_isDigit (hdigits c hc)

/-- The device takes the addresses of the file, if the client's own is one. -/
theorem configureIpv4_issued {address peer value : Text} {gateway network : Ipv4Addr}
    {prefixLen : Nat} (hpeer : Text.parseIpv4 peer = some gateway)
    (h : Cidr value network prefixLen) :
    configureIpv4 address peer value =
      if (Text.parseIpv4 address).isSome then .ok ()
      else .error (.new .invalidInput "invalid IPv4 TUN configuration") := by
  obtain ⟨start, length, hsplit, hstart, hlength⟩ := h.spelt
  unfold configureIpv4 require
  rw [hsplit]
  dsimp only
  rw [hlength]
  dsimp only
  rw [hpeer, hstart]
  simp only [h.bound, Option.isSome_some, and_true, true_and, decide_eq_true_eq]

theorem clientStart_issued {serverAddress vpnAddress : Text} {pems : IssuedPems}
    (hlegible : Legible (issuedSettings settings serverAddress vpnAddress) pems)
    (hsame : SameSettings settings server)
    (hserver : server.ReadFrom (parseIniSection text "server"))
    (hmin : MIN_TUN_MTU ≤ server.config.mtu) (hmax : server.config.mtu ≤ MAX_TUN_MTU) :
    clientStart (assembled (issuedSettings settings serverAddress vpnAddress) pems) directory
        (parseIniSection (assembled (issuedSettings settings serverAddress vpnAddress) pems)
          "client") =
      match Text.parseIpv4 serverAddress, Text.parseIpv4 vpnAddress with
      | none, _ => .error (.other "invalid server_address")
      | some _, none => .error (.new .invalidInput "invalid IPv4 TUN configuration")
      | some address, some _ =>
          .ok (issuedClient settings server address vpnAddress directory,
            issuedFiles directory pems) := by
  obtain ⟨hport, hmtu, haddressText, hgateway, -, hcidr⟩ := hserver
  have hportBound : server.port ≤ U16_MAX := by
    unfold Text.parseUnsigned at hport
    exact of_decide_eq_true (Option.filter_eq_some_iff.mp hport).2
  have hmtuBound : server.config.mtu ≤ U16_MAX := Nat.le_trans hmax (by decide)
  have hvalid : validateMtu server.config.mtu = .ok () :=
    require_ok.mpr (decide_eq_true ⟨hmin, hmax⟩)
  unfold clientStart
  rw [materialize_issued hlegible]
  show (AutobricksVpn.clientSettings (issuedValues settings serverAddress vpnAddress directory) >>=
    fun settings => _) = _
  rw [clientSettings_issued hsame hportBound hmtuBound hgateway]
  cases Text.parseIpv4 serverAddress with
  | none => rfl
  | some address =>
      have hdevice : configureIpv4 vpnAddress server.vpnAddressText server.vpnNetwork = _ :=
        configureIpv4_issued hgateway (parseIpv4Cidr_ok.mp hcidr)
      show (validateMtu server.config.mtu >>= fun _ =>
        configureIpv4 vpnAddress server.vpnAddressText server.vpnNetwork >>= fun _ => _) = _
      rw [hvalid, hdevice]
      cases Text.parseIpv4 vpnAddress with
      | none => rfl
      | some own => rfl

/-- **A client starts from the file it was issued.**  The console reads `server.ini`
as the server did and issues the file: then the client starts with the server's
port, network, gateway and MTU and an address of its own in that network, or one
of the two addresses is malformed and the client says which. -/
theorem issued_file_starts {clients files : List (Text × Text)} {sanIp : Option Text}
    {requested vpnAddress content : Text} {pems : IssuedPems} (place : Text)
    (hserver : serverStart text directory (parseIniSection text "server") clients =
      .ok (server, files))
    (hsection : OneSection js text before header inside after)
    (hsettings : readServerSettings js text = .ok settings)
    (haddress : validateClientAddress js requested settings = .ok vpnAddress)
    (hissued : issuedContent settings sanIp vpnAddress pems = .ok content)
    (hpems : ∀ pem ∈ [pems.certificate, pems.privateKey, pems.intermediate, pems.root],
      PemText pem) :
    ∃ serverAddress, serverAddressOf settings sanIp = .ok serverAddress ∧
      clientStart content place (parseIniSection content "client") =
        (match Text.parseIpv4 serverAddress, Text.parseIpv4 vpnAddress with
        | none, _ => .error (.other "invalid server_address")
        | some _, none => .error (.new .invalidInput "invalid IPv4 TUN configuration")
        | some address, some _ =>
            .ok (issuedClient settings server address vpnAddress place, issuedFiles place pems)) ∧
      ∀ own, Text.parseIpv4 vpnAddress = some own →
        ipv4InCidr own server.networkAddress server.networkPrefix = true ∧
        own ≠ server.vpnAddress ∧ own ≠ server.networkAddress ∧
        own ≠ server.networkAddress ||| ~~~ prefixMask server.networkPrefix := by
  obtain ⟨hread, hmin, hmax⟩ := serverStart_ok hserver
  have hsame := sameSettings_of_start hread hsection hsettings
  have hcidr : Cidr settings.vpnNetwork server.networkAddress server.networkPrefix :=
    hsame.vpnNetwork ▸ parseIpv4Cidr_ok.mp hread.cidr
  obtain ⟨rfl, hother, -⟩ := validateClientAddress_some haddress
  obtain ⟨number, hnumber, hinside, hfirst, hlast⟩ := validateClientAddress_ok hcidr haddress
  obtain ⟨serverAddress, hpublic, hdotted, rfl⟩ := issuedContent_ok hissued
  simp only [List.forall_mem_cons, List.not_mem_nil, false_implies, implies_true, and_true] at hpems
  obtain ⟨hcertificate, hkey, hintermediate, hroot⟩ := hpems
  have hvalues : GivenValues settings vpnAddress :=
    { vpnAddress := settingText_of_plain (plain_of_addressText (addressText_of_number hnumber))
      gateway := by
        rw [hsame.vpnAddress]
        exact settingText_of_plain (plain_of_addressText (addressText_of_parse hread.address))
      network := settingText_of_cidr hcidr }
  have hlegible := legible_issued hdotted hvalues hcertificate hkey hintermediate hroot
  refine ⟨serverAddress, hpublic, clientStart_issued hlegible hsame hread hmin hmax, ?_⟩
  intro own hown
  obtain rfl := Option.some.inj (hnumber.symm.trans (parseIpv4_iff.mp hown).1)
  refine ⟨hinside, fun heq => hother ?_, hfirst, hlast⟩
  rw [hsame.vpnAddress]
  exact eq_of_parseIpv4 hown (heq ▸ hread.address)

/-- A file with nothing but the authority. -/
def Sample.authority : Text := "[server]\nca_file = ca.pem\n\n[client]\n".toList

theorem issued_file_starts_plain :
    ∃ server content, clientStart content "/tmp/a".toList (parseIniSection content "client") =
      .ok (issuedClient bareSettings server (Ipv4Addr.new 192 0 2 1) "10.8.1.2".toList
          "/tmp/a".toList,
        issuedFiles "/tmp/a".toList ⟨plainPem, plainPem, plainPem, plainPem⟩) := by
  have hstarts : (serverStart Sample.authority "/tmp/s".toList
      (parseIniSection Sample.authority "server") []).isOk = true := by decide +kernel
  obtain ⟨server, files, hserver⟩ : ∃ server files, serverStart Sample.authority "/tmp/s".toList
      (parseIniSection Sample.authority "server") [] = .ok (server, files) := by
    cases hresult : serverStart Sample.authority "/tmp/s".toList
        (parseIniSection Sample.authority "server") [] with
    | error error =>
        rw [hresult] at hstarts
        cases hstarts
    | ok started => exact ⟨started.1, started.2, rfl⟩
  have hsection : OneSection Sample.runtime Sample.authority [] "[server]".toList
      ["ca_file = ca.pem".toList, []] ["[client]".toList] :=
    { lines := by decide +kernel
      before := fun _ hline => absurd hline List.not_mem_nil
      header := by decide +kernel
      inside := by
        have hline : ∀ line ∈ ["ca_file = ca.pem".toList, []], isHeaderLine line = false ∧
            iniHeader line = none ∧ line.all (fun c => c != '\u0085' && c != '\uFEFF') = true ∧
            '#' ∉ line ∧ (JsText.trim line).head? ≠ some ';' := by decide +kernel
        intro line hmem
        obtain ⟨hheader, hsection, hspaces, hcomment, hsemicolon⟩ := hline line hmem
        refine ⟨hheader, hsection, fun c hc => ?_, fun h => absurd h hcomment,
          fun h => absurd h hsemicolon⟩
        simpa only [Bool.and_eq_true, bne_iff_ne] using List.all_eq_true.mp hspaces c hc
      next := by decide +kernel
      after := by decide +kernel }
  have hpublic : serverAddressOf bareSettings (some "192.0.2.1".toList) =
      .ok "192.0.2.1".toList := by decide +kernel
  have hissued : issuedContent bareSettings (some "192.0.2.1".toList) "10.8.1.2".toList
      ⟨plainPem, plainPem, plainPem, plainPem⟩ = .ok _ := congrArg (Except.map _) hpublic
  have hplain : PemText plainPem := by
    have hlines : ∀ line ∈ pemLines plainPem,
        isSectionLine line = false ∧ iniHeader line = none := by decide +kernel
    exact ⟨by decide +kernel, by decide +kernel, hlines⟩
  have hsettings : readServerSettings Sample.runtime Sample.authority = .ok bareSettings := by
    decide +kernel
  have haddress : validateClientAddress Sample.runtime "10.8.1.2".toList bareSettings =
      .ok "10.8.1.2".toList := by decide +kernel
  have hparsed : Text.parseIpv4 "192.0.2.1".toList = some (Ipv4Addr.new 192 0 2 1) ∧
      Text.parseIpv4 "10.8.1.2".toList = some (Ipv4Addr.new 10 8 1 2) := by decide +kernel
  obtain ⟨serverAddress, hfound, hstart, -⟩ := issued_file_starts "/tmp/a".toList hserver
    hsection hsettings haddress hissued (by simpa using hplain)
  obtain rfl := Except.ok.inj (hpublic.symm.trans hfound)
  rw [hparsed.1, hparsed.2] at hstart
  exact ⟨server, _, hstart⟩

end Starts

end Web

end AutobricksVpn
