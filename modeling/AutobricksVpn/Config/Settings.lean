/-
# `AutobricksVpn.Config.Settings` — what the programs read from their files

The first part of `run_with_login` of `src/client/mod.rs` and of `run` of
`src/server.rs`: single values with their defaults and ranges, the credentials
that stand in the file itself, and the checks of the TUN device on its numbers.
Each step returns the settings or the first error; the calls into the system
between the steps (the temporary directory, the sockets, the device itself) are
taken to succeed.

Both programs have `value`, `required_value` and `boolean_value`, with the same
text.
-/
import AutobricksVpn.Config.Clients
import AutobricksVpn.Config.Embedded

namespace AutobricksVpn

/-- `HashMap<String, String>`. -/
abbrev Values := Text → Option Text

/-- `str::parse` of the unsigned type with this greatest value: a leading plus sign is
allowed. -/
def Text.parseUnsigned (max : Nat) (t : Text) : Option Nat :=
  let digits := if t.head? = some '+' then t.tail else t
  (Text.parseDigits digits).filter (· ≤ max)

/-- `u16::MAX`. -/
def U16_MAX : Nat := 65535

/-- `u64::MAX`, and `usize::MAX` where addresses have 64 bits. -/
def U64_MAX : Nat := 18446744073709551615

/-! ## Values -/

def value (values : Values) (key default : String) : Text :=
  (values key.toList).getD default.toList

/-- `values.get(key).filter(|value| !value.trim().is_empty())`. -/
def presentValue (values : Values) (key : String) : Option Text :=
  (values key.toList).filter fun value => Text.trim value ≠ []

def requiredValue (values : Values) (key : String) : Except IoError Text :=
  match presentValue values key with
  | some value => .ok value
  | none => .error (.new .invalidInput s!"{key} is required and must not be empty")

def booleanValue (values : Values) (key : String) (default : Bool) : Except IoError Bool :=
  match values key.toList with
  | none => .ok default
  | some value =>
      let lower := Text.toAsciiLowercase (Text.trim value)
      if ["true".toList, "1".toList, "yes".toList, "on".toList].contains lower then .ok true
      else if ["false".toList, "0".toList, "no".toList, "off".toList].contains lower then .ok false
      else .error (.new .invalidInput s!"{key} must be true or false")

/-- `value(values, key, default).parse()`, of a number. -/
def numberValue (values : Values) (key default : String) (max : Nat) (kind : ErrorKind) :
    Except IoError Nat :=
  match Text.parseUnsigned max (value values key default) with
  | some number => .ok number
  | none => .error (.new kind s!"invalid {key}")

/-- `value(values, key, default).parse()`, of an address. -/
def addressValue (values : Values) (key default : String) (kind : ErrorKind) :
    Except IoError Ipv4Addr :=
  match Text.parseIpv4 (value values key default) with
  | some address => .ok address
  | none => .error (.new kind s!"invalid {key}")

/-- A check that ends the program. -/
def require (holds : Bool) (kind : ErrorKind) (message : String) : Except IoError Unit :=
  if holds then .ok () else .error (.new kind message)

def durationValue (values : Values) (key : String) (default minimum maximum : Nat) :
    Except IoError Duration := do
  let seconds ← numberValue values key (toString default) U64_MAX .invalidInput
  require (minimum ≤ seconds ∧ seconds ≤ maximum) .invalidInput
    s!"{key} must be between {minimum} and {maximum} seconds"
  return Duration.fromSecs seconds

/-! ## Credentials in the file -/

/-- What is read, and the files in the temporary directory. -/
structure Materialized where
  values : Values
  files : List (Text × Text)

def embeddedFile (directory : Text) (name : String) : Text :=
  directory ++ '/' :: name.toList ++ ".pem".toList

def materializeEmbeddedCredentials (text directory : Text) (values : Values) :
    Except IoError Materialized :=
  if (Text.lines text).any fun line => Text.trim line = headerText "certificate" then do
    let certificate ← embeddedSection text "certificate"
    let key ← embeddedSection text "key"
    let ca ← embeddedSection text "ca"
    return {
      values := fun field =>
        if field = "certificate_file".toList then some (embeddedFile directory "certificate")
        else if field = "private_key_file".toList then some (embeddedFile directory "key")
        else if field = "ca_file".toList then some (embeddedFile directory "ca")
        else values field
      files := [(embeddedFile directory "certificate", certificate),
        (embeddedFile directory "key", key), (embeddedFile directory "ca", ca)] }
  else if ["certificate_file", "private_key_file", "ca_file"].any fun field =>
      values field.toList = some "embedded".toList then
    .error (.new .invalidInput "missing [certificate]")
  else .ok { values := values, files := [] }

/-! ## The TUN device -/

def MIN_TUN_MTU : Nat := 576

def MAX_TUN_MTU : Nat := 1500

/-- `Tun::configure_mtu`, up to the system command. -/
def validateMtu (mtu : Nat) : Except IoError Unit :=
  require (MIN_TUN_MTU ≤ mtu ∧ mtu ≤ MAX_TUN_MTU) .invalidInput
    s!"MTU must be between {MIN_TUN_MTU} and {MAX_TUN_MTU}"

/-- `Tun::configure_ipv4`, up to the system commands. -/
def configureIpv4 (address peer network : Text) : Except IoError Unit :=
  match Text.splitOnce '/' network with
  | none => .error (.new .invalidInput "network must be CIDR")
  | some (networkAddress, prefixText) =>
      match Text.parseU8 prefixText with
      | none => .error (.new .invalidInput "invalid network prefix")
      | some prefixLen =>
          require (prefixLen ≤ 32 ∧ (Text.parseIpv4 address).isSome ∧
              (Text.parseIpv4 peer).isSome ∧ (Text.parseIpv4 networkAddress).isSome)
            .invalidInput "invalid IPv4 TUN configuration"

/-! ## The client -/

/-- `Config`. -/
structure Config where
  server : Bool
  certificateFile : Text
  privateKeyFile : Text
  caFile : Option Text
  crlFile : Option Text
  ocspEnabled : Bool
  ocspUrl : Option Text
  mtu : Nat
  deriving DecidableEq

structure ClientSettings where
  server : Ipv4Addr
  port : Nat
  keepaliveInterval : Duration
  verifyServerSanIp : Bool
  forceDns : Bool
  dnsServer : Ipv4Addr
  config : Config
  tunName : Text
  vpnAddress : Text
  vpnGateway : Text
  vpnNetwork : Text
  deriving DecidableEq

def clientSettings (values : Values) : Except IoError ClientSettings := do
  let server ← addressValue values "server_address" "127.0.0.1" .other
  let port ← numberValue values "port" "4433" U16_MAX .other
  let keepaliveInterval ← numberValue values "keepalive_interval" "30" U64_MAX .other
  require (5 ≤ keepaliveInterval ∧ keepaliveInterval ≤ 90) .other
    "keepalive_interval must be between 5 and 90 seconds"
  let verifyServerSanIp ← booleanValue values "verify_server_san_ip" true
  let forceDns ← booleanValue values "force_dns" false
  let dnsServer ← addressValue values "dns_server" "10.8.1.1" .invalidInput
  let caFile ← requiredValue values "ca_file"
  let ocspEnabled ← booleanValue values "ocsp_enabled" true
  let mtu ← numberValue values "mtu" "1200" U16_MAX .other
  return {
    server := server
    port := port
    keepaliveInterval := Duration.fromSecs keepaliveInterval
    verifyServerSanIp := verifyServerSanIp
    forceDns := forceDns
    dnsServer := dnsServer
    config := {
      server := false
      certificateFile := value values "certificate_file" "client-cert.pem"
      privateKeyFile := value values "private_key_file" "client-key.pem"
      caFile := some caFile
      crlFile := presentValue values "crl_file"
      ocspEnabled := ocspEnabled
      ocspUrl := presentValue values "ocsp_url"
      mtu := mtu }
    tunName := value values "tun_name" "autobricks1"
    vpnAddress := value values "vpn_address" "10.8.1.2"
    vpnGateway := value values "vpn_gateway" "10.8.1.1"
    vpnNetwork := value values "vpn_network" "10.8.1.0/24" }

/-- The client, up to its first connection: its settings, and the files with its
credentials.  `values` is the section `[client]` of the text. -/
def clientStart (text directory : Text) (values : Values) :
    Except IoError (ClientSettings × List (Text × Text)) := do
  let materialized ← materializeEmbeddedCredentials text directory values
  let settings ← clientSettings materialized.values
  validateMtu settings.config.mtu
  configureIpv4 settings.vpnAddress settings.vpnGateway settings.vpnNetwork
  return (settings, materialized.files)

/-! ## The server -/

structure ServerSettings where
  maxClients : Nat
  maxPendingHandshakes : Nat
  port : Nat
  listen : Ipv4Addr
  config : Config
  verifyClientSanIp : Bool
  allowBroadcast : Bool
  allowMulticast : Bool
  maxSessionLifetime : Duration
  configReloadInterval : Duration
  controlSocketPath : Text
  controlSocketGroup : Option Text
  vpnAddressText : Text
  vpnAddress : Ipv4Addr
  vpnNetwork : Text
  networkAddress : Ipv4Addr
  networkPrefix : Nat
  logins : AList fun _ : Ipv4Addr => String × String
  bindings : AList fun _ : Ipv4Addr => String
  tunName : Text

def serverSettings (values : Values) (clients : List (Text × Text)) :
    Except IoError ServerSettings := do
  let maxClients ← numberValue values "max_clients" "64" U64_MAX .other
  require (1 ≤ maxClients ∧ maxClients ≤ 1024) .other "max_clients must be between 1 and 1024"
  let maxPendingHandshakes ← numberValue values "max_pending_handshakes" "16" U64_MAX .other
  require (1 ≤ maxPendingHandshakes ∧ maxPendingHandshakes ≤ 256) .other
    "max_pending_handshakes must be between 1 and 256"
  let port ← numberValue values "port" "4433" U16_MAX .other
  let listen ← addressValue values "listen_address" "0.0.0.0" .other
  let caFile ← requiredValue values "ca_file"
  let ocspEnabled ← booleanValue values "ocsp_enabled" true
  let mtu ← numberValue values "mtu" "1200" U16_MAX .other
  let verifyClientSanIp ← booleanValue values "verify_client_san_ip" false
  let allowBroadcast ← booleanValue values "allow_broadcast" false
  let allowMulticast ← booleanValue values "allow_multicast" false
  let maxSessionLifetime ← durationValue values "max_session_lifetime" 3600 60 604800
  let configReloadInterval ← durationValue values "config_reload_interval" 30 5 3600
  let vpnAddress ← addressValue values "vpn_address" "10.8.1.1" .invalidInput
  let vpnNetwork := value values "vpn_network" "10.8.1.0/24"
  let (networkAddress, networkPrefix) ← parseIpv4Cidr vpnNetwork
  require (ipv4InCidr vpnAddress networkAddress networkPrefix) .invalidInput
    "vpn_address is outside vpn_network"
  let logins ← clientLogins clients
  let bindings ← validateClientBindings clients vpnAddress vpnNetwork
  return {
    maxClients := maxClients
    maxPendingHandshakes := maxPendingHandshakes
    port := port
    listen := listen
    config := {
      server := true
      certificateFile := value values "certificate_file" "server-cert.pem"
      privateKeyFile := value values "private_key_file" "server-key.pem"
      caFile := some caFile
      crlFile := presentValue values "crl_file"
      ocspEnabled := ocspEnabled
      ocspUrl := presentValue values "ocsp_url"
      mtu := mtu }
    verifyClientSanIp := verifyClientSanIp
    allowBroadcast := allowBroadcast
    allowMulticast := allowMulticast
    maxSessionLifetime := maxSessionLifetime
    configReloadInterval := configReloadInterval
    controlSocketPath := value values "control_socket" "/var/run/autobricks-vpn.sock"
    controlSocketGroup := values "control_socket_group".toList
    vpnAddressText := value values "vpn_address" "10.8.1.1"
    vpnAddress := vpnAddress
    vpnNetwork := vpnNetwork
    networkAddress := networkAddress
    networkPrefix := networkPrefix
    logins := logins
    bindings := bindings
    tunName := value values "tun_name" "autobricks0" }

/-- The server, up to the start of its threads. -/
def serverStart (text directory : Text) (values : Values) (clients : List (Text × Text)) :
    Except IoError (ServerSettings × List (Text × Text)) := do
  let materialized ← materializeEmbeddedCredentials text directory values
  let settings ← serverSettings materialized.values clients
  validateMtu settings.config.mtu
  configureIpv4 settings.vpnAddressText settings.vpnAddressText settings.vpnNetwork
  return (settings, materialized.files)

/-! ## What a start tells of the file -/

section Starts

variable {values : Values} {text directory : Text}

theorem require_ok {holds : Bool} {kind : ErrorKind} {message : String} :
    require holds kind message = .ok () ↔ holds = true := by
  cases holds <;> simp [require]

theorem numberValue_ok {key default : String} {max n : Nat} {kind : ErrorKind} :
    numberValue values key default max kind = .ok n ↔
      Text.parseUnsigned max (value values key default) = some n := by
  unfold numberValue
  cases Text.parseUnsigned max (value values key default) <;> simp

theorem addressValue_ok {key default : String} {address : Ipv4Addr} {kind : ErrorKind} :
    addressValue values key default kind = .ok address ↔
      Text.parseIpv4 (value values key default) = some address := by
  unfold addressValue
  cases Text.parseIpv4 (value values key default) <;> simp

/-- Only the three file names may come from elsewhere. -/
theorem materialize_values {materialized : Materialized} {key : Text}
    (hkey : key ∉ ["certificate_file".toList, "private_key_file".toList, "ca_file".toList])
    (h : materializeEmbeddedCredentials text directory values = .ok materialized) :
    materialized.values key = values key := by
  simp only [List.mem_cons, List.not_mem_nil, or_false, not_or] at hkey
  obtain ⟨hcertificate, hprivate, hca⟩ := hkey
  unfold materializeEmbeddedCredentials at h
  split at h
  · obtain ⟨certificate, -, h⟩ := bind_ok h
    obtain ⟨privateKey, -, h⟩ := bind_ok h
    obtain ⟨ca, -, h⟩ := bind_ok h
    rw [← Except.ok.inj h]
    dsimp only
    rw [if_neg hcertificate, if_neg hprivate, if_neg hca]
  · split at h
    · cases h
    · rw [← Except.ok.inj h]

/-- What the console needs of the settings that the server accepts. -/
structure ServerSettings.ReadFrom (server : ServerSettings) (values : Values) : Prop where
  port : Text.parseUnsigned U16_MAX (value values "port" "4433") = some server.port
  mtu : Text.parseUnsigned U16_MAX (value values "mtu" "1200") = some server.config.mtu
  addressText : server.vpnAddressText = value values "vpn_address" "10.8.1.1"
  address : Text.parseIpv4 server.vpnAddressText = some server.vpnAddress
  network : server.vpnNetwork = value values "vpn_network" "10.8.1.0/24"
  cidr : parseIpv4Cidr server.vpnNetwork = .ok (server.networkAddress, server.networkPrefix)

theorem serverSettings_ok {clients : List (Text × Text)} {server : ServerSettings}
    (h : serverSettings values clients = .ok server) : server.ReadFrom values := by
  unfold serverSettings at h
  obtain ⟨maxClients, -, h⟩ := bind_ok h
  obtain ⟨-, -, h⟩ := bind_ok h
  obtain ⟨maxPendingHandshakes, -, h⟩ := bind_ok h
  obtain ⟨-, -, h⟩ := bind_ok h
  obtain ⟨port, hport, h⟩ := bind_ok h
  obtain ⟨listen, -, h⟩ := bind_ok h
  obtain ⟨caFile, -, h⟩ := bind_ok h
  obtain ⟨ocspEnabled, -, h⟩ := bind_ok h
  obtain ⟨mtu, hmtu, h⟩ := bind_ok h
  obtain ⟨verifyClientSanIp, -, h⟩ := bind_ok h
  obtain ⟨allowBroadcast, -, h⟩ := bind_ok h
  obtain ⟨allowMulticast, -, h⟩ := bind_ok h
  obtain ⟨maxSessionLifetime, -, h⟩ := bind_ok h
  obtain ⟨configReloadInterval, -, h⟩ := bind_ok h
  obtain ⟨vpnAddress, haddress, h⟩ := bind_ok h
  obtain ⟨⟨networkAddress, networkPrefix⟩, hcidr, h⟩ := bind_ok h
  obtain ⟨-, -, h⟩ := bind_ok h
  obtain ⟨logins, -, h⟩ := bind_ok h
  obtain ⟨bindings, -, h⟩ := bind_ok h
  obtain rfl := Except.ok.inj h
  exact ⟨numberValue_ok.mp hport, numberValue_ok.mp hmtu, rfl, addressValue_ok.mp haddress, rfl,
    hcidr⟩

theorem serverStart_ok {clients : List (Text × Text)} {server : ServerSettings}
    {files : List (Text × Text)}
    (h : serverStart text directory values clients = .ok (server, files)) :
    server.ReadFrom values ∧ MIN_TUN_MTU ≤ server.config.mtu ∧ server.config.mtu ≤ MAX_TUN_MTU := by
  unfold serverStart at h
  obtain ⟨materialized, hmaterialized, h⟩ := bind_ok h
  obtain ⟨settings, hsettings, h⟩ := bind_ok h
  obtain ⟨⟨⟩, hmtu, h⟩ := bind_ok h
  obtain ⟨-, -, h⟩ := bind_ok h
  obtain ⟨rfl, -⟩ := Prod.mk.inj (Except.ok.inj h)
  have hvalue : ∀ key default, key ∈ ["port", "mtu", "vpn_address", "vpn_network"] →
      value materialized.values key default = value values key default := by
    intro key default hkey
    have hother : ∀ key ∈ ["port", "mtu", "vpn_address", "vpn_network"], key.toList ∉
        ["certificate_file".toList, "private_key_file".toList, "ca_file".toList] := by decide
    rw [value, value, materialize_values (hother key hkey) hmaterialized]
  obtain ⟨hport, hmtuText, haddressText, haddress, hnetwork, hcidr⟩ := serverSettings_ok hsettings
  rw [hvalue _ _ (by decide)] at hport hmtuText haddressText hnetwork
  exact ⟨⟨hport, hmtuText, haddressText, haddress, hnetwork, hcidr⟩,
    of_decide_eq_true (require_ok.mp hmtu)⟩

end Starts

end AutobricksVpn
