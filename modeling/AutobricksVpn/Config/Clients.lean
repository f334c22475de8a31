/-
# `AutobricksVpn.Config.Clients` — the `[client]` section

How the two tables of the server are read from the configuration file:
`parse_ini_entries` and `validate_client_bindings` of `src/lib.rs`,
`client_logins` of `src/server.rs`, and the chain in which a reload goes
through them (`reloadRules`).  Any link that fails ends the chain with its
error (`reloadRules_error`); when all hold, the rules are the tables of the file
(`reloadRules_ok_iff`).
-/
import AutobricksVpn.Config.Text
import AutobricksVpn.Server.Session

namespace AutobricksVpn

/-! ## The file -/

/-- The section header on a line, if it is one. -/
def sectionHeader (line : Text) : Option Text :=
  if line.head? = some '[' ∧ line.getLast? = some ']' then some line.tail.dropLast else none

/-- The loop over the lines; `active` says whether the section is the one asked for. -/
def parseIniLines (name : Text) : Bool → List Text → List (Text × Text)
  | _, [] => []
  | active, rawLine :: rest =>
      let line := Text.trim (rawLine.takeWhile (· ≠ '#'))
      if line = [] then parseIniLines name active rest
      else
        match sectionHeader line with
        | some header => parseIniLines name (header == name) rest
        | none =>
            match active, Text.splitOnce '=' line with
            | true, some (key, value) =>
                (Text.trim key, Text.trim value) :: parseIniLines name active rest
            | _, _ => parseIniLines name active rest

def parseIniEntries (text : Text) (name : String) : List (Text × Text) :=
  parseIniLines name.toList false (Text.lines text)

/-! ## Logins -/

def clientLogin (logins : AList fun _ : Ipv4Addr => String × String) (entry : Text × Text) :
    Except IoError (AList fun _ : Ipv4Addr => String × String) :=
  match Text.splitWhitespace entry.2 with
  | [_] => .ok logins
  | [_, id, password] =>
      match Text.parseIpv4 entry.1 with
      | some address => .ok (logins.insert address (String.ofList id, String.ofList password))
      | none => .error (.other "invalid client address")
  | _ => .error (.new .invalidInput s!"invalid login fields for {String.ofList entry.1}")

def clientLogins (entries : List (Text × Text)) :
    Except IoError (AList fun _ : Ipv4Addr => String × String) :=
  entries.foldlM clientLogin ∅

/-! ## Bindings -/

def parseIpv4Cidr (value : Text) : Except IoError (Ipv4Addr × Nat) :=
  match Text.splitOnce '/' value with
  | none => .error (.new .invalidInput "network must be CIDR")
  | some (address, length) =>
      match Text.parseIpv4 address with
      | none => .error (.new .invalidInput "invalid IPv4 network")
      | some address =>
          match (Text.parseU8 length).filter (· ≤ 32) with
          | none => .error (.new .invalidInput "invalid network prefix")
          | some length =>
              if address &&& prefixMask length ≠ address then
                .error (.new .invalidInput "CIDR address contains host bits")
              else .ok (address, length)

def ipv4InCidr (address network : Ipv4Addr) (prefixLen : Nat) : Bool :=
  address &&& prefixMask prefixLen == network

def normalizeSha256Fingerprint (value : Text) : Except IoError Text :=
  let normalized := Text.toAsciiLowercase (value.filter (· ≠ ':'))
  if normalized.length = 64 ∧ normalized.all Text.isHexDigit then .ok normalized
  else
    .error (.new .invalidInput "fingerprint must contain exactly 64 hexadecimal SHA-256 digits")

/-- The loop: the fingerprints seen so far are the values of the table. -/
def bindClients (serverAddress : Ipv4Addr) (network : Text) (networkAddress : Ipv4Addr)
    (networkPrefix : Nat) :
    List (Text × Text) → AList (fun _ : Ipv4Addr => String) →
      Except IoError (AList fun _ : Ipv4Addr => String)
  | [], bindings => .ok bindings
  | (ip, value) :: rest, bindings =>
      match Text.parseIpv4 ip with
      | none => .error (.new .invalidInput s!"invalid client VPN address: {String.ofList ip}")
      | some address =>
          let shown := address.display
          if !ipv4InCidr address networkAddress networkPrefix then
            .error (.new .invalidInput
              s!"client address {shown} is outside {String.ofList network}")
          else if address = serverAddress then
            .error (.new .invalidInput s!"client address {shown} conflicts with the server")
          else if (bindings.lookup address).isSome then
            .error (.new .invalidInput s!"duplicate client address: {shown}")
          else
            match normalizeSha256Fingerprint ((Text.splitWhitespace value).headD []) with
            | .error error =>
                let reason := error.message
                .error (.new .invalidInput s!"invalid fingerprint for {shown}: {reason}")
            | .ok fingerprint =>
                if bindings.entries.any (·.2 == String.ofList fingerprint) then
                  .error (.new .invalidInput s!"duplicate client fingerprint for {shown}")
                else
                  bindClients serverAddress network networkAddress networkPrefix rest
                    (bindings.insert address (String.ofList fingerprint))

def validateClientBindings (entries : List (Text × Text)) (serverAddress : Ipv4Addr)
    (network : Text) : Except IoError (AList fun _ : Ipv4Addr => String) :=
  match parseIpv4Cidr network with
  | .error error => .error error
  | .ok (networkAddress, networkPrefix) =>
      bindClients serverAddress network networkAddress networkPrefix entries ∅

/-! ## A reload -/

/-- The rules a reload comes to: the file as it was read, and whether the
acceptor could be made. -/
def reloadRules (vpnAddress : Ipv4Addr) (vpnNetwork : Text) (file : Except IoError Text)
    (acceptor : Except IoError Unit) : Except IoError Rules := do
  let entries := parseIniEntries (← file) "client"
  let logins ← clientLogins entries
  let bindings ← validateClientBindings entries vpnAddress vpnNetwork
  acceptor
  return { bindings := bindings, logins := logins }

/-- A link of the chain fails. -/
inductive ReloadFails (vpnAddress : Ipv4Addr) (vpnNetwork : Text) :
    Except IoError Text → Except IoError Unit → Prop
  | reading {error : IoError} {acceptor : Except IoError Unit} :
      ReloadFails vpnAddress vpnNetwork (.error error) acceptor
  | logins {text : Text} {error : IoError} {acceptor : Except IoError Unit} :
      clientLogins (parseIniEntries text "client") = .error error →
      ReloadFails vpnAddress vpnNetwork (.ok text) acceptor
  | bindings {text : Text} {error : IoError} {acceptor : Except IoError Unit} :
      validateClientBindings (parseIniEntries text "client") vpnAddress vpnNetwork = .error error →
      ReloadFails vpnAddress vpnNetwork (.ok text) acceptor
  | acceptor {text : Text} {error : IoError} :
      ReloadFails vpnAddress vpnNetwork (.ok text) (.error error)

/-- Every link holds, and these are the tables of the file. -/
inductive ReloadSucceeds (vpnAddress : Ipv4Addr) (vpnNetwork : Text) :
    Except IoError Text → Except IoError Unit → Rules → Prop
  | tables {text : Text} {logins : AList fun _ : Ipv4Addr => String × String}
      {bindings : AList fun _ : Ipv4Addr => String} :
      clientLogins (parseIniEntries text "client") = .ok logins →
      validateClientBindings (parseIniEntries text "client") vpnAddress vpnNetwork = .ok bindings →
      ReloadSucceeds vpnAddress vpnNetwork (.ok text) (.ok ())
        { bindings := bindings, logins := logins }

theorem reloadRules_error {vpnAddress : Ipv4Addr} {vpnNetwork : Text} {file : Except IoError Text}
    {acceptor : Except IoError Unit} :
    ReloadFails vpnAddress vpnNetwork file acceptor →
    ∃ error, reloadRules vpnAddress vpnNetwork file acceptor = .error error := by
  intro h
  -- Whatever comes after a link that fails is not looked at.
  have hbind : ∀ {α β : Type} (x : Except IoError α) (f : α → Except IoError β),
      (∀ a, x = .ok a → ∃ error, f a = .error error) → ∃ error, x >>= f = .error error := by
    intro α β x f hf
    cases x with
    | error error => exact ⟨error, rfl⟩
    | ok a => exact hf a rfl
  refine hbind file _ fun text hfile => hbind _ _ fun logins hlogins => hbind _ _ fun bindings hb =>
    ?_
  cases h with
  | reading => cases hfile
  | logins h =>
      obtain rfl := Except.ok.inj hfile
      cases h.symm.trans hlogins
  | bindings h =>
      obtain rfl := Except.ok.inj hfile
      cases h.symm.trans hb
  | acceptor => exact ⟨_, rfl⟩

/-- A link fails, or none does. -/
theorem reload_cases (vpnAddress : Ipv4Addr) (vpnNetwork : Text) (file : Except IoError Text)
    (acceptor : Except IoError Unit) :
    ReloadFails vpnAddress vpnNetwork file acceptor ∨
      ∃ new, ReloadSucceeds vpnAddress vpnNetwork file acceptor new := by
  cases file with
  | error error => exact .inl .reading
  | ok text =>
      cases hlogins : clientLogins (parseIniEntries text "client") with
      | error error => exact .inl (.logins hlogins)
      | ok logins =>
          cases hbindings : validateClientBindings (parseIniEntries text "client") vpnAddress
              vpnNetwork with
          | error error => exact .inl (.bindings hbindings)
          | ok bindings =>
              cases acceptor with
              | error error => exact .inl .acceptor
              | ok _ => exact .inr ⟨_, .tables hlogins hbindings⟩

theorem bind_ok {α β : Type} {x : Except IoError α} {f : α → Except IoError β} {b : β} :
    (x >>= f) = .ok b → ∃ a, x = .ok a ∧ f a = .ok b := by
  intro h
  cases x with
  | error error => cases h
  | ok a => exact ⟨a, rfl, h⟩

/-- A reload comes to rules when every link holds, and to the tables of the file. -/
theorem reloadRules_ok_iff {vpnAddress : Ipv4Addr} {vpnNetwork : Text} {file : Except IoError Text}
    {acceptor : Except IoError Unit} {new : Rules} :
    reloadRules vpnAddress vpnNetwork file acceptor = .ok new ↔
      ReloadSucceeds vpnAddress vpnNetwork file acceptor new := by
  constructor
  · intro h
    obtain ⟨text, hfile, h⟩ := bind_ok h
    obtain ⟨logins, hlogins, h⟩ := bind_ok h
    obtain ⟨bindings, hbindings, h⟩ := bind_ok h
    obtain ⟨_, hacceptor, h⟩ := bind_ok h
    rw [hfile, hacceptor, ← Except.ok.inj h]
    exact .tables hlogins hbindings
  · rintro ⟨hlogins, hbindings⟩
    show clientLogins _ >>= _ = _
    rw [hlogins]
    show validateClientBindings _ _ _ >>= _ = _
    rw [hbindings]
    rfl

end AutobricksVpn
