/-
# `AutobricksVpn.Web.ServerConfig` — the console edits the `[client]` section

`web/src/server-config.js`.  The console has an INI reader of its own
(`sectionBounds`, `parseSection`), with which it finds its settings and the
clients, and a writer that puts the clients, one to a line, in the place of what
stood between the header of the section and the next one.

The text of the file is an argument, and the text that is written a result.  The
calls return, or throw a `WebError`.
-/
import AutobricksVpn.Config.Clients
import AutobricksVpn.Web.JsText

namespace AutobricksVpn

namespace Web

open JsText (Runtime)

/-- An `Error`, with the properties that `Object.assign` gave it. -/
structure WebError where
  message : String
  status : Option Nat
  code : Option String
  deriving DecidableEq

/-! ## Sections -/

/-- `/^\s*\[[^\]]+\]\s*$/`. -/
def isHeaderLine (line : Text) : Bool :=
  match line.dropWhile JsText.isSpace with
  | '[' :: rest =>
      match rest.dropWhile (· ≠ ']') with
      | ']' :: after => !(rest.takeWhile (· ≠ ']')).isEmpty && after.all JsText.isSpace
      | _ => false
  | _ => false

/-- The line of the header and the line after the last of the section. -/
def sectionBounds (js : Runtime) (lines : List Text) (name : String) : Option (Nat × Nat) :=
  let header := '[' :: name.toList ++ [']']
  match lines.findIdx? fun line => js.toLowerCase (JsText.trim line) == header with
  | none => none
  | some start =>
      let next := ((lines.drop (start + 1)).findIdx? isHeaderLine).map (start + 1 + ·)
      some (start, next.getD lines.length)

def parseLine (line : Text) : Option (Text × Text) :=
  let content := JsText.trim line
  if content = [] ∨ content.head? = some '#' ∨ content.head? = some ';' then none
  else (Text.splitOnce '=' content).map fun (key, value) => (JsText.trim key, JsText.trim value)

def parseSection (js : Runtime) (text : Text) (name : String) : List (Text × Text) :=
  let lines := JsText.lines text
  match sectionBounds js lines name with
  | none => []
  | some (start, stop) => ((lines.take stop).drop (start + 1)).filterMap parseLine

/-! ## Settings -/

structure Settings where
  listenAddress : Text
  port : Int
  controlSocket : Text
  vpnAddress : Text
  vpnNetwork : Text
  mtu : Option Int
  issuedClientVerifyServerSanIp : Bool
  certificateFile : Option Text
  rootCaFile : Option Text
  intermediateCaFile : Option Text
  intermediateCaKeyFile : Option Text
  publicAddress : Option Text
  deriving DecidableEq

/-- `entries.get`: a later entry of a `Map` replaces an earlier one. -/
def getEntry (entries : List (Text × Text)) (key : String) : Option Text :=
  (entries.reverse.find? fun entry => entry.1 == key.toList).map (·.2)

def readServerSettings (js : Runtime) (text : Text) : Except WebError Settings :=
  let get := getEntry (parseSection js text "server")
  let issuedClientVerifyServerSanIp :=
    Text.toAsciiLowercase ((get "issued_client_verify_server_san_ip").getD "true".toList)
  match JsText.parseInt ((get "port").getD "4433".toList) with
  | none => .error ⟨"server.ini contains an invalid port", none, none⟩
  | some port =>
      if port < 1 ∨ 65535 < port then .error ⟨"server.ini contains an invalid port", none, none⟩
      else if issuedClientVerifyServerSanIp ≠ "true".toList ∧
          issuedClientVerifyServerSanIp ≠ "false".toList then
        .error ⟨"server.ini contains an invalid issued_client_verify_server_san_ip", none, none⟩
      else
        .ok {
          listenAddress := (get "listen_address").getD "0.0.0.0".toList
          port := port
          controlSocket := (get "control_socket").getD "/var/run/autobricks-vpn.sock".toList
          vpnAddress := (get "vpn_address").getD "10.8.1.1".toList
          vpnNetwork := (get "vpn_network").getD "10.8.1.0/24".toList
          mtu := JsText.parseInt ((get "mtu").getD "1200".toList)
          issuedClientVerifyServerSanIp := issuedClientVerifyServerSanIp == "true".toList
          certificateFile := get "certificate_file"
          rootCaFile := get "root_ca_file"
          intermediateCaFile := get "intermediate_ca_file"
          intermediateCaKeyFile := get "intermediate_ca_key_file"
          publicAddress := get "public_address" }

/-! ## Addresses and fingerprints -/

/-- `\d{1,3}`. -/
def isOctetText (part : Text) : Bool := !part.isEmpty && part.length ≤ 3 && part.all (·.isDigit)

def ipv4Number (value : Text) : Option Ipv4Addr :=
  let parts := value.splitOn '.'
  if parts.length ≠ 4 ∨ ¬ parts.all isOctetText then none
  else
    let numbers := parts.map fun part => (Text.parseDigits part).getD 0
    if numbers.any (255 < ·) then none
    else some (numbers.foldl (fun number part => number * 256 + BitVec.ofNat 32 part) 0)

/-- `(0xffffffff << (32 - prefix)) >>> 0`: of the places of a shift the whole part
counts, modulo 32. -/
def shiftMask (prefixLen : Rat) : Option Ipv4Addr :=
  if 0 ≤ prefixLen ∧ prefixLen ≤ 32 then
    some (BitVec.allOnes 32 <<< ((32 - prefixLen).floor.toNat % 32))
  else none

def invalidVpnAddress (settings : Settings) : WebError :=
  ⟨s!"vpnAddress must be a client address in {String.ofList settings.vpnNetwork}.", some 400,
    some "invalid_vpn_address"⟩

def validateClientAddress (js : Runtime) (value : Text) (settings : Settings) :
    Except WebError Text :=
  let pieces := settings.vpnNetwork.splitOn '/'
  -- `Number(undefined)` is no number.
  let mask := (pieces[1]?.bind js.number).bind shiftMask
  match ipv4Number value, ipv4Number (pieces.headD []), mask with
  | some addressNumber, some networkNumber, some mask =>
      let subnet := networkNumber &&& mask
      if addressNumber &&& mask ≠ subnet ∨ addressNumber = subnet ∨
          addressNumber = (subnet ||| ~~~mask) ∨ value = settings.vpnAddress then
        .error (invalidVpnAddress settings)
      else .ok value
  | _, _, _ => .error (invalidVpnAddress settings)

/-- `replaceAll(":", "").toLowerCase()`. -/
def normalized (js : Runtime) (fingerprint : Text) : Text :=
  js.toLowerCase (fingerprint.filter (· ≠ ':'))

/-- `[0-9a-f]`. -/
def isLowerHexDigit (c : Char) : Bool := c.isDigit || ('a' ≤ c && c ≤ 'f')

/-- The argument is `none` when it is no string. -/
def validateFingerprint (js : Runtime) (value : Option Text) : Except WebError Text :=
  let digits := (value.map (normalized js)).getD []
  if digits.length = 64 ∧ digits.all isLowerHexDigit then .ok digits
  else
    .error ⟨"fingerprint must contain 64 SHA-256 hexadecimal digits.", some 400,
      some "invalid_fingerprint"⟩

/-! ## Clients -/

/-- A client as the console has it; what is `undefined` is `none`. -/
structure Client where
  vpnAddress : Text
  fingerprint : Text
  loginId : Option Text
  password : Option Text
  deriving DecidableEq

/-- What is shown of a client: there is no password in it. -/
structure ListedClient where
  vpnAddress : Text
  fingerprint : Text
  /-- With `requiresLogin: true`. -/
  loginId : Option Text
  deriving DecidableEq

def Client.listed (client : Client) : ListedClient :=
  ⟨client.vpnAddress, client.fingerprint, client.loginId.filter (· ≠ [])⟩

def readClient (js : Runtime) (entry : Text × Text) : Client :=
  let fields := JsText.splitSpaces entry.2
  { vpnAddress := entry.1
    fingerprint := normalized js (fields.headD [])
    loginId := fields[1]?
    password := fields[2]? }

def readClients (js : Runtime) (text : Text) : List Client :=
  (parseSection js text "client").map (readClient js)

def listClients (js : Runtime) (text : Text) : List ListedClient :=
  (readClients js text).map Client.listed

/-! ## Writing -/

/-- What stands behind the equals sign. -/
def Client.value (client : Client) : Text :=
  match client.loginId with
  | none | some [] => client.fingerprint
  | some loginId =>
      client.fingerprint ++ ' ' :: loginId ++ ' ' :: client.password.getD "undefined".toList

def Client.line (client : Client) : Text := client.vpnAddress ++ " = ".toList ++ client.value

def managedLine : Text :=
  "# Managed by Autobricks VPN Web. The VPN server reloads this section.".toList

def sortClients (js : Runtime) (clients : List Client) : List Client :=
  clients.mergeSort fun left right => (js.localeCompare left.vpnAddress right.vpnAddress).isLE

/-- The lines of the section, below its header. -/
def clientLines (js : Runtime) (clients : List Client) : List Text :=
  managedLine :: (sortClients js clients).map Client.line

/-- The newlines at the end replaced by one. -/
def joinLines (lines : List Text) : Text :=
  (['\n'].intercalate lines).rdropWhile (· == '\n') ++ ['\n']

def writeClients (js : Runtime) (text : Text) (clients : List Client) : Text :=
  let lines := JsText.lines text
  let body := clientLines js clients
  joinLines <|
    match sectionBounds js lines "client" with
    | none => lines ++ [[], "[client]".toList] ++ body
    | some (start, stop) => lines.take (start + 1) ++ body ++ lines.drop stop

/-! ## Edits -/

/-- The argument of `saveClient`: `fingerprint` is `none` when it is no string,
`loginId` and `password` when they are `null` or `undefined`. -/
structure SaveInput where
  vpnAddress : Text
  fingerprint : Option Text
  loginId : Option Text
  password : Option JsString

/-- `/^[A-Za-z0-9_.@-]{1,64}$/`. -/
def isLoginId (t : Text) : Bool :=
  !t.isEmpty && t.length ≤ 64 &&
    t.all fun c => c.isAlphanum || c == '_' || c == '.' || c == '@' || c == '-'

/-- `/^[^\s#]{1,128}$/`. -/
def isPassword (units : JsString) : Bool :=
  !units.isEmpty && units.length ≤ 128 &&
    units.all fun unit => !(JsText.isSpaceCode unit.toNat || unit.toNat == '#'.toNat)

/-- The client to be saved, next to those that there are. -/
def checkClient (js : Runtime) (settings : Settings) (clients : List Client) (input : SaveInput) :
    Except WebError Client := do
  let vpnAddress ← validateClientAddress js input.vpnAddress settings
  let fingerprint ← validateFingerprint js input.fingerprint
  if clients.any fun client =>
      client.fingerprint == fingerprint && client.vpnAddress != vpnAddress then
    throw ⟨"fingerprint is already assigned to another VPN address.", some 409,
      some "fingerprint_exists"⟩
  let loginId := (input.loginId.map JsText.trim).getD []
  let password := input.password.getD []
  if loginId.isEmpty ≠ password.isEmpty ∨ (loginId ≠ [] ∧ ¬ isLoginId loginId) ∨
      (password ≠ [] ∧ ¬ isPassword password) then
    throw ⟨"ID와 암호를 함께 입력하세요. 공백과 #은 사용할 수 없습니다.", some 400,
      some "invalid_login"⟩
  return ⟨vpnAddress, fingerprint, some loginId, some (JsText.decodeUtf16 password)⟩

/-- The clients without those of an address. -/
def without (clients : List Client) (vpnAddress : Text) : List Client :=
  clients.filter (·.vpnAddress ≠ vpnAddress)

def saveClient (js : Runtime) (text : Text) (input : SaveInput) :
    Except WebError (Text × ListedClient) := do
  let settings ← readServerSettings js text
  let clients := readClients js text
  let client ← checkClient js settings clients input
  let updated := without clients client.vpnAddress ++ [client]
  return (writeClients js text updated, client.listed)

def removeClient (js : Runtime) (text : Text) (vpnAddress : Text) : Except WebError Text := do
  let settings ← readServerSettings js text
  let _ ← validateClientAddress js vpnAddress settings
  let clients := readClients js text
  let updated := without clients vpnAddress
  if updated.length = clients.length then
    throw ⟨"client binding was not found.", some 404, some "client_not_found"⟩
  return writeClients js text updated

end Web

end AutobricksVpn
