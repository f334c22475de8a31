/-
# `AutobricksVpn.Client.Login` — the login of a client

`authenticate` of `src/client/mod.rs` and the functions it calls, cut at the
turns of its loops: a turn is one call into wolfSSL, one look at the clock and
one wait for the socket, whose outcomes it takes as arguments.

The client waits for an answer twice, for the challenge and for the verdict on
its login, and takes the first message it reads for it (`readTurn`).  An answer
that is not one of the expected messages ends the connection with
`PermissionDenied`, the one error after which `run_with_login` does not
connect again (`retry`).
-/
import AutobricksVpn.Net.Auth
import AutobricksVpn.Net.IoError

namespace AutobricksVpn

/-! ## What the client asks of the system -/

/-- The numbers `poll` can fail with, other than `EINTR`. -/
inductive PollErrno where
  | EFAULT
  | EINVAL
  | ENOMEM
  deriving DecidableEq

inductive PollOutcome where
  | ready
  | elapsed
  | interrupted
  | failed (errno : PollErrno)
  deriving DecidableEq

/-- `io::Error::last_os_error`. -/
def PollErrno.error : PollErrno → IoError
  | .EFAULT => { kind := .uncategorized, rawOsError := some 14, message := "Bad address" }
  | .EINVAL => { kind := .invalidInput, rawOsError := some 22, message := "Invalid argument" }
  | .ENOMEM => { kind := .outOfMemory, rawOsError := some 12, message := "Cannot allocate memory" }

def waitForUdp : PollOutcome → Except IoError Bool
  | .ready => .ok true
  | .elapsed => .ok false
  | .interrupted => .ok true
  | .failed errno => .error errno.error

/-- What wolfSSL answers to a read or a write. -/
inductive WolfSsl (ρ : Type) where
  | value (value : ρ)
  | want
  | failed (code : Int)

/-- The error of `Dtls::read` and `Dtls::write`. -/
def ioError (code : Int) : IoError := IoError.other s!"wolfSSL I/O failed: {code}"

/-- `Dtls::read`: no plaintext is a read of zero bytes. -/
def dtlsRead : WolfSsl Packet → Except IoError Packet
  | .value plaintext => .ok plaintext
  | .want => .error (IoError.new .wouldBlock "")
  | .failed code => .error (ioError code)

def dtlsWrite : WolfSsl Nat → Except IoError Nat
  | .value written => .ok written
  | .want => .error (IoError.new .wouldBlock "")
  | .failed code => .error (ioError code)

/-! ## Credentials -/

/-- `LoginCredentials`.  The id holds no NUL: the credentials are made by
`make_login_credentials` only. -/
structure LoginCredentials where
  id : List UInt8
  password : List UInt8
  nulFree : 0 ∉ id

/-- A string holds the character NUL when its bytes hold a zero. -/
def makeLoginCredentials (id password : String) : Except IoError LoginCredentials :=
  if h : asBytes id = [] ∨ 128 < (asBytes id).length ∨ 0 ∈ asBytes id ∨
      asBytes password = [] ∨ 128 < (asBytes password).length ∨ 0 ∈ asBytes password then
    .error (IoError.new .invalidInput "invalid login input")
  else
    .ok { id := asBytes id, password := asBytes password
          nulFree := fun hzero => h (.inr (.inr (.inl hzero))) }

/-- `cached_login`, with the answers to the two prompts. -/
def cachedLogin (cache : Option LoginCredentials) (id password : Except IoError String) :
    Except IoError LoginCredentials :=
  match cache with
  | some credentials => .ok credentials
  | none =>
      match id, password with
      | .error error, _ => .error error
      | .ok _, .error error => .error error
      | .ok id, .ok password => makeLoginCredentials id password

/-! ## `authenticate` -/

def LOGIN_STEP_TIMEOUT : Duration := Duration.fromSecs 10

/-- Where `authenticate` is; `connecting` is before it is called. -/
inductive AuthenticatePc where
  | connecting
  | awaitChallenge (deadline : Instant)
  | logIn
  | sendLogin (frame : Packet) (deadline : Instant)
  | awaitVerdict (deadline : Instant)
  | ended (result : Except IoError Unit)
  deriving DecidableEq

/-- The bytes a read of `read_auth_response` can take. -/
def AUTH_RESPONSE_BUFFER : Nat := 512

/-- One turn of `read_auth_response`: `none` when it goes on. -/
def readAuthResponse (deadline now : Instant) (read : WolfSsl Packet) (wait : PollOutcome) :
    Option (Except IoError Packet) :=
  match dtlsRead read with
  | .ok plaintext =>
      if plaintext = [] then waitForMore else some (.ok (plaintext.take AUTH_RESPONSE_BUFFER))
  | .error error => if error.kind = .wouldBlock then waitForMore else some (.error error)
where
  waitForMore : Option (Except IoError Packet) :=
    if deadline ≤ now then some (.error (IoError.new .timedOut "login response timed out"))
    else
      match waitForUdp wait with
      | .ok _ => none
      | .error error => some (.error error)

/-- The answer to the handshake. -/
def challengeAnswered (response : Packet) : AuthenticatePc :=
  if response = AUTH_OK then .ended (.ok ())
  else if response ≠ AUTH_REQUIRED then
    .ended (.error (IoError.new .permissionDenied "invalid login challenge"))
  else .logIn

/-- The answer to the login. -/
def verdictAnswered (response : Packet) : AuthenticatePc :=
  if response = AUTH_OK then .ended (.ok ())
  else if response = AUTH_FAILED then
    .ended (.error (IoError.new .permissionDenied "login failed"))
  else .ended (.error (IoError.new .permissionDenied "invalid login response"))

namespace AuthenticatePc

/-- The deadline of the client that waits for an answer. -/
def deadline? : AuthenticatePc → Option Instant
  | .awaitChallenge deadline => some deadline
  | .awaitVerdict deadline => some deadline
  | .connecting | .logIn | .sendLogin _ _ | .ended _ => none

/-- The answer the client waits for has come. -/
def answered (response : Packet) : AuthenticatePc → AuthenticatePc
  | .awaitChallenge _ => challengeAnswered response
  | .awaitVerdict _ => verdictAnswered response
  | pc => pc

end AuthenticatePc

/-- A turn of a client that waits for an answer. -/
def readTurn (now : Instant) (read : WolfSsl Packet) (wait : PollOutcome) (pc : AuthenticatePc) :
    AuthenticatePc :=
  match pc.deadline? with
  | none => pc
  | some deadline =>
      match readAuthResponse deadline now read wait with
      | none => pc
      | some (.ok response) => pc.answered response
      | some (.error error) => .ended (.error error)

/-- The credentials are at hand, or asked for. -/
def logInTurn (now : Instant) (login : Except IoError LoginCredentials) : AuthenticatePc :=
  match login with
  | .ok credentials =>
      .sendLogin (loginFrame credentials.id credentials.password) (now + LOGIN_STEP_TIMEOUT)
  | .error error => .ended (.error error)

/-- A turn of the loop that sends the login. -/
def writeTurn (frame : Packet) (deadline now : Instant) (write : WolfSsl Nat) (wait : PollOutcome) :
    AuthenticatePc :=
  match dtlsWrite write with
  | .ok written =>
      if written = frame.length then .awaitVerdict (now + LOGIN_STEP_TIMEOUT)
      else .ended (.error (IoError.other "partial login message"))
  | .error error =>
      if error.kind = .wouldBlock then
        if deadline ≤ now then .ended (.error (IoError.new .timedOut "login send timed out"))
        else
          match waitForUdp wait with
          | .ok _ => .sendLogin frame deadline
          | .error error => .ended (.error error)
      else .ended (.error error)

/-! ## `run_with_login` -/

def RETRY_DELAY : Duration := Duration.fromSecs 3

def reconnectDelay (error : IoError) : Duration :=
  if error.kind = .timedOut then 0 else RETRY_DELAY

/-- What `run_with_login` makes of the error of a connection: the time until
the next one, or `none` when it returns the error. -/
def retry (error : IoError) : Option Duration :=
  if error.kind = .permissionDenied then none else some (reconnectDelay error)

/-- The login went well, is not over, or ends in an error after which the
client connects again. -/
def AuthenticatePc.Tolerant (pc : AuthenticatePc) : Prop :=
  ∀ error, pc = .ended (.error error) →
    error.kind ≠ .permissionDenied ∧ ∃ delay, retry error = some delay

/-! ## Which answers end the client -/

theorem retry_of_kind {error : IoError} :
    error.kind ≠ .permissionDenied → ∃ delay, retry error = some delay :=
  fun h => ⟨_, if_neg h⟩

theorem AuthenticatePc.tolerant_ended {error : IoError} :
    error.kind ≠ .permissionDenied → (AuthenticatePc.ended (.error error)).Tolerant := by
  intro h e he
  obtain rfl := Except.error.inj (AuthenticatePc.ended.inj he)
  exact ⟨h, retry_of_kind h⟩

theorem AuthenticatePc.not_tolerant_denied {message : String} :
    ¬ (AuthenticatePc.ended (.error (IoError.new .permissionDenied message))).Tolerant :=
  fun h => (h _ rfl).1 rfl

theorem waitForUdp_kind {wait : PollOutcome} {error : IoError} :
    waitForUdp wait = .error error → error.kind ≠ .permissionDenied := by
  intro h
  cases wait with
  | ready | elapsed | interrupted => exact nomatch h
  | failed errno =>
      obtain rfl := Except.error.inj h
      cases errno <;> decide

theorem waitForMore_kind {deadline now : Instant} {wait : PollOutcome}
    {r : Except IoError Packet} :
    readAuthResponse.waitForMore deadline now wait = some r →
    ∃ error, r = .error error ∧ error.kind ≠ .permissionDenied := by
  intro h
  unfold readAuthResponse.waitForMore at h
  split at h
  · exact ⟨_, (Option.some.inj h).symm, by decide⟩
  · split at h
    · exact nomatch h
    · rename_i error hwait
      exact ⟨error, (Option.some.inj h).symm, waitForUdp_kind hwait⟩

/-- A turn of the wait answers the message read, or an error that is no refusal. -/
theorem readAuthResponse_cases {deadline now : Instant} {read : WolfSsl Packet} {wait : PollOutcome}
    {r : Except IoError Packet} :
    readAuthResponse deadline now read wait = some r →
    (∃ plaintext, read = .value plaintext ∧ plaintext ≠ [] ∧
      r = .ok (plaintext.take AUTH_RESPONSE_BUFFER)) ∨
    ∃ error, r = .error error ∧ error.kind ≠ .permissionDenied := by
  intro h
  unfold readAuthResponse at h
  cases read with
  | value plaintext =>
      dsimp only [dtlsRead] at h
      split at h
      · exact .inr (waitForMore_kind h)
      · rename_i hne
        exact .inl ⟨plaintext, rfl, hne, (Option.some.inj h).symm⟩
  | want => exact .inr (waitForMore_kind h)
  | failed code => exact .inr ⟨_, (Option.some.inj h).symm, by simp [ioError]⟩

/-- A turn goes on waiting, takes the message read for the answer, or ends in
an error that is no refusal. -/
theorem readTurn_cases {now : Instant} {read : WolfSsl Packet} {wait : PollOutcome}
    {pc : AuthenticatePc} :
    readTurn now read wait pc = pc ∨
    (∃ plaintext, read = .value plaintext ∧ plaintext ≠ [] ∧
      readTurn now read wait pc = pc.answered (plaintext.take AUTH_RESPONSE_BUFFER)) ∨
    ∃ error, error.kind ≠ .permissionDenied ∧ readTurn now read wait pc = .ended (.error error) := by
  unfold readTurn
  cases pc.deadline? with
  | none => exact .inl rfl
  | some deadline =>
      dsimp only
      cases hr : readAuthResponse deadline now read wait with
      | none => exact .inl rfl
      | some r =>
          rcases readAuthResponse_cases hr with ⟨plaintext, hread, hne, rfl⟩ | ⟨error, rfl, hkind⟩
          · exact .inr (.inl ⟨plaintext, hread, hne, rfl⟩)
          · exact .inr (.inr ⟨error, hkind, rfl⟩)

/-- A client that waits takes any message that is not empty for the answer. -/
theorem readTurn_value {now : Instant} {plaintext : Packet} {wait : PollOutcome}
    {pc : AuthenticatePc} :
    pc.deadline?.isSome = true → plaintext ≠ [] →
    readTurn now (.value plaintext) wait pc =
      pc.answered (plaintext.take AUTH_RESPONSE_BUFFER) := by
  intro hwaiting hne
  obtain ⟨deadline, hdeadline⟩ := Option.isSome_iff_exists.mp hwaiting
  have hread : readAuthResponse deadline now (.value plaintext) wait =
      some (.ok (plaintext.take AUTH_RESPONSE_BUFFER)) := if_neg hne
  simp only [readTurn, hdeadline, hread]

/-- No expected answer is the start of a packet. -/
theorem take_ne_answer {packet : Packet} {n : Nat} (hpacket : (ipv4PacketAddresses packet).isSome = true)
    {rest : Packet} : packet.take n ≠ 0xff :: rest := by
  intro heq
  obtain ⟨⟨source, destination⟩, hsome⟩ := Option.isSome_iff_exists.mp hpacket
  obtain ⟨-, hversion, -⟩ := ipv4PacketAddresses_some hsome
  have hsplit : packet = (0xff :: rest) ++ packet.drop n := by
    rw [← heq, List.take_append_drop]
  rw [hsplit] at hversion
  have h255 : (0xff : UInt8) >>> 4 = 4 := hversion
  exact absurd h255 (by decide)

/-- A packet of the tunnel is no answer. -/
theorem AuthenticatePc.not_tolerant_answered {packet : Packet} {pc : AuthenticatePc} :
    (ipv4PacketAddresses packet).isSome = true → pc.deadline?.isSome = true →
    ¬ (pc.answered (packet.take AUTH_RESPONSE_BUFFER)).Tolerant := by
  intro hpacket hwaiting
  have hok : packet.take AUTH_RESPONSE_BUFFER ≠ AUTH_OK := take_ne_answer hpacket
  have hrequired : packet.take AUTH_RESPONSE_BUFFER ≠ AUTH_REQUIRED := take_ne_answer hpacket
  have hfailed : packet.take AUTH_RESPONSE_BUFFER ≠ AUTH_FAILED := take_ne_answer hpacket
  cases pc with
  | awaitChallenge _ =>
      rw [AuthenticatePc.answered, challengeAnswered, if_neg hok, if_pos hrequired]
      exact AuthenticatePc.not_tolerant_denied
  | awaitVerdict _ =>
      rw [AuthenticatePc.answered, verdictAnswered, if_neg hok, if_neg hfailed]
      exact AuthenticatePc.not_tolerant_denied
  | connecting | logIn | sendLogin | ended => exact nomatch hwaiting

/-- A turn that sends the login ends in no refusal. -/
theorem writeTurn_cases {frame : Packet} {deadline now : Instant} {write : WolfSsl Nat}
    {wait : PollOutcome} :
    (∃ deadline', writeTurn frame deadline now write wait = .awaitVerdict deadline') ∨
    writeTurn frame deadline now write wait = .sendLogin frame deadline ∨
    ∃ error, error.kind ≠ .permissionDenied ∧
      writeTurn frame deadline now write wait = .ended (.error error) := by
  unfold writeTurn
  cases write with
  | value written =>
      dsimp only [dtlsWrite]
      split
      · exact .inl ⟨_, rfl⟩
      · exact .inr (.inr ⟨_, by simp, rfl⟩)
  | want =>
      dsimp only [dtlsWrite]
      rw [if_pos (IoError.kind_new _ _)]
      split
      · exact .inr (.inr ⟨_, by simp, rfl⟩)
      · split
        · exact .inr (.inl rfl)
        · rename_i error hwait
          exact .inr (.inr ⟨error, waitForUdp_kind hwait, rfl⟩)
  | failed code =>
      dsimp only [dtlsWrite]
      rw [if_neg (by simp [ioError])]
      exact .inr (.inr ⟨_, by simp [ioError], rfl⟩)

/-! ## Login frames -/

theorem makeLoginCredentials_ok {id password : String} {credentials : LoginCredentials} :
    makeLoginCredentials id password = .ok credentials →
    credentials.id = asBytes id ∧ credentials.password = asBytes password := by
  intro h
  unfold makeLoginCredentials at h
  split at h
  · cases h
  · obtain rfl := Except.ok.inj h
    exact ⟨rfl, rfl⟩

/-- **Login frames are unambiguous.**  The frame `authenticate` sends for
credentials it accepts is matched by the configured pair with the same id and
the same password, and by no other pair of strings; and where the configured
id has no zero byte the server accepts the frame of its pair and no other
message. -/
theorem login_frames_unambiguous :
    (∀ {id password : String} {credentials : LoginCredentials},
      makeLoginCredentials id password = .ok credentials →
      ∀ (now : Instant) (id' password' : String), ∃ frame deadline,
        logInTurn now (.ok credentials) = .sendLogin frame deadline ∧
        frame = AUTH_LOGIN_PREFIX ++ asBytes id ++ 0 :: asBytes password ∧
        (loginMatches frame id' password' = true ↔ id = id' ∧ password = password')) ∧
    ∀ (packet : Packet) {id password : String}, 0 ∉ asBytes id →
      (loginMatches packet id password = true ↔
        packet = AUTH_LOGIN_PREFIX ++ asBytes id ++ 0 :: asBytes password) := by
  constructor
  · intro id password credentials h now id' password'
    obtain ⟨hid, hpassword⟩ := makeLoginCredentials_ok h
    refine ⟨loginFrame credentials.id credentials.password, _, rfl, ?_, ?_⟩
    · rw [hid, hpassword, loginFrame]
    · rw [loginMatches_loginFrame_iff credentials.nulFree, hid, hpassword, asBytes_inj, asBytes_inj]
  · intro packet id password hnul
    constructor
    · exact eq_loginFrame_of_loginMatches
    · rintro rfl
      exact loginMatches_loginFrame hnul

/-- A password that holds the byte of the prefix, and the frame it is sent in. -/
theorem login_frames_unambiguous_alice :
    (∃ frame deadline,
      logInTurn 0 (makeLoginCredentials "alice" "\xffsecret") = .sendLogin frame deadline ∧
      (loginMatches frame "alice" "\xffsecret" = true ↔
        "alice" = "alice" ∧ "\xffsecret" = "\xffsecret")) ∧
    (loginMatches (loginFrame (asBytes "alice") (asBytes "secret")) "alice" "secret" = true ↔
      loginFrame (asBytes "alice") (asBytes "secret") =
        AUTH_LOGIN_PREFIX ++ asBytes "alice" ++ 0 :: asBytes "secret") := by
  constructor
  · obtain ⟨credentials, hcredentials⟩ : ∃ credentials,
        makeLoginCredentials "alice" "\xffsecret" = .ok credentials := ⟨_, rfl⟩
    obtain ⟨frame, deadline, hframe, -, hmatches⟩ :=
      login_frames_unambiguous.1 hcredentials 0 "alice" "\xffsecret"
    exact ⟨frame, deadline, hcredentials ▸ hframe, hmatches⟩
  · exact login_frames_unambiguous.2 _ (by decide +kernel)

end AutobricksVpn
