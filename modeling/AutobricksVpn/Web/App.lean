/-
# `AutobricksVpn.Web.App` — the requests that change the clients

The handlers of `web/src/app.js` for `POST /api/clients/issue`, and for `PUT` and
`DELETE /api/clients/:vpnAddress`.  A handler runs until it awaits the answer to a
`RELOAD` command, and from there when the answer is in; between two of its parts
there may be parts of others.  So what happens is a list of events: a request
arrives (`arrives`), or a command that was awaited has settled (`settles`).

The registry, `ServerConfig` over the text of its file (`serverConfig`), is an
argument, as it is for `createApp`.  What `ClientIssuer.issue` gives is a part of
the event: it draws keys, and calls OpenSSL.
-/
import AutobricksVpn.Web.ServerConfig
import Mathlib.Logic.Function.Basic

namespace AutobricksVpn

namespace Web

open JsText (Runtime)

/-! ## What the handlers are given -/

/-- `clientRegistry`, whose state is in a `σ`. -/
structure Registry (σ : Type) where
  readClients : σ → List Client
  saveClient : σ → SaveInput → Except WebError (σ × ListedClient)
  removeClient : σ → Text → Except WebError σ

def Registry.listClients {σ : Type} (R : Registry σ) (registry : σ) : List ListedClient :=
  (R.readClients registry).map Client.listed

def serverConfig (js : Runtime) : Registry Text where
  readClients := readClients js
  saveClient := saveClient js
  removeClient := removeClient js

/-- The arguments of `createApp` that there are. -/
structure Connected where
  clientRegistry : Bool
  clientIssuer : Bool
  vpnControl : Bool

/-- The body of an issue request, but for what only `issue` reads. -/
structure IssueBody where
  vpnAddress : Text
  loginId : Option Text
  password : Option JsString

/-- What `issue` returns, beside the address, which is that of the body. -/
structure Issued where
  fingerprint : Text
  filename : String
  content : String

/-- The argument of `saveClient` in the issue handler. -/
def IssueBody.input (body : IssueBody) (issued : Issued) : SaveInput :=
  ⟨body.vpnAddress, some issued.fingerprint, body.loginId, body.password⟩

inductive Request where
  | issue (body : IssueBody)
  | put (input : SaveInput)
  | delete (vpnAddress : Text)

/-- How a `RELOAD` ends: with a `result.ok` that holds or not, or the promise is
rejected. -/
inductive Reloaded where
  | ok
  | notOk
  | rejected (message : String)

inductive Response where
  | attachment (filename content : String)
  | client (client : ListedClient)
  | noContent
  | error (status : Nat) (code : String) (message : Option String)

def Response.isError : Response → Bool
  | .error _ _ _ => true
  | .attachment _ _ | .client _ | .noContent => false

/-- The last `app.use`. -/
def errorResponse (error : WebError) : Response :=
  match error.status, error.code with
  | some status, some code => .error status code (some error.message)
  | _, _ => .error 500 "internal_server_error" none

/-- Where a handler is: the command it awaits, with what it has at hand. -/
inductive Handler where
  | issueReady (body : IssueBody)
  | issueReload (body : IssueBody) (issued : Issued)
  | deleteReady (vpnAddress : Text)
  | deleteReload
  | ended (response : Response)

/-! ## The parts of the handlers -/

section Parts

variable {σ : Type} (R : Registry σ)

/-- An answer that is none of an awaited command. -/
def unavailable (code : String) : Handler := .ended (.error 503 code none)

def failed (error : WebError) : Handler := .ended (errorResponse error)

/-- From the first await of the issue handler to the second. -/
def issueReady (registry : σ) (body : IssueBody) (ready : Reloaded)
    (issuance : Except WebError Issued) : σ × Handler :=
  match ready with
  | .rejected message => (registry, failed ⟨message, none, none⟩)
  | .notOk =>
      (registry, failed ⟨"VPN 서버를 새 바이너리로 다시 시작해야 발급할 수 있습니다.", some 503,
        some "vpn_reload_unavailable"⟩)
  | .ok =>
      if (R.listClients registry).any fun client => client.vpnAddress == body.vpnAddress then
        (registry, failed ⟨"이미 등록된 VPN 주소입니다.", some 409, some "client_exists"⟩)
      else
        match issuance with
        | .error error => (registry, failed error)
        | .ok issued =>
            match R.saveClient registry (body.input issued) with
            | .error error => (registry, failed error)
            | .ok (registry, _) => (registry, .issueReload body issued)

/-- The `catch` around the second await. -/
def rollback (registry : σ) (vpnAddress : Text) (message : String) : σ × Handler :=
  match R.removeClient registry vpnAddress with
  | .error error => (registry, failed error)
  | .ok registry =>
      (registry, failed ⟨s!"발급한 클라이언트를 등록할 수 없습니다: {message}", some 503,
        some "vpn_reload_failed"⟩)

def issueReload (registry : σ) (body : IssueBody) (issued : Issued) (result : Reloaded) :
    σ × Handler :=
  match result with
  | .ok => (registry, .ended (.attachment issued.filename issued.content))
  | .notOk => rollback R registry body.vpnAddress "VPN 서버가 설정 갱신을 거부했습니다."
  | .rejected message => rollback R registry body.vpnAddress message

def putClient (registry : σ) (input : SaveInput) : σ × Handler :=
  match R.saveClient registry input with
  | .error error => (registry, failed error)
  | .ok (registry, client) => (registry, .ended (.client client))

def deleteReady (registry : σ) (vpnAddress : Text) (ready : Reloaded) : σ × Handler :=
  match ready with
  | .rejected message =>
      (registry, failed ⟨s!"VPN 서버를 새 바이너리로 다시 시작한 뒤 삭제할 수 있습니다: {message}",
        some 503, some "vpn_reload_unavailable"⟩)
  | .notOk =>
      (registry, failed ⟨"VPN 서버를 새 바이너리로 다시 시작한 뒤 삭제할 수 있습니다.", some 503,
        some "vpn_reload_unavailable"⟩)
  | .ok =>
      match R.removeClient registry vpnAddress with
      | .error error => (registry, failed error)
      | .ok registry => (registry, .deleteReload)

def deleteReload (result : Reloaded) : Handler :=
  match result with
  | .ok => .ended .noContent
  | .notOk =>
      failed ⟨"Client registration was removed, but VPN server reload failed.", some 503,
        some "vpn_reload_failed"⟩
  | .rejected message =>
      failed ⟨s!"Client registration was removed, but VPN server reload failed: {message}",
        some 503, some "vpn_reload_failed"⟩

/-- A handler up to its first await. -/
def arrive (connected : Connected) (registry : σ) (request : Request) : σ × Handler :=
  match request with
  | .issue body =>
      if connected.clientRegistry && connected.clientIssuer && connected.vpnControl then
        (registry, .issueReady body)
      else (registry, unavailable "signer_not_configured")
  | .put input =>
      if connected.clientRegistry then putClient R registry input
      else (registry, unavailable "server_config_not_connected")
  | .delete vpnAddress =>
      if connected.clientRegistry && connected.vpnControl then (registry, .deleteReady vpnAddress)
      else (registry, unavailable "vpn_control_not_connected")

/-- A handler from the await it is at; one that has ended does nothing more. -/
def settle (registry : σ) (handler : Handler) (reloaded : Reloaded)
    (issuance : Except WebError Issued) : σ × Handler :=
  match handler with
  | .issueReady body => issueReady R registry body reloaded issuance
  | .issueReload body issued => issueReload R registry body issued reloaded
  | .deleteReady vpnAddress => deleteReady R registry vpnAddress reloaded
  | .deleteReload => (registry, deleteReload reloaded)
  | .ended response => (registry, .ended response)

/-! ## Events -/

/-- The requests are numbered.  `issuance` is what `issue` gives, if it is called. -/
inductive AppEvent where
  | arrives (id : Nat) (request : Request)
  | settles (id : Nat) (reloaded : Reloaded) (issuance : Except WebError Issued)

def AppEvent.id : AppEvent → Nat
  | .arrives id _ => id
  | .settles id _ _ => id

structure AppState (σ : Type) where
  registry : σ
  handlers : Nat → Option Handler

/-- No request has arrived. -/
def AppState.start (registry : σ) : AppState σ := ⟨registry, fun _ => none⟩

/-- The handler of a request is at the end of a part. -/
def AppState.set (s : AppState σ) (id : Nat) (result : σ × Handler) : AppState σ :=
  ⟨result.1, Function.update s.handlers id (some result.2)⟩

/-- A request arrives once, and settles when it has arrived. -/
def handle (connected : Connected) (s : AppState σ) : AppEvent → AppState σ
  | .arrives id request =>
      match s.handlers id with
      | none => s.set id (arrive R connected s.registry request)
      | some _ => s
  | .settles id reloaded issuance =>
      match s.handlers id with
      | some handler => s.set id (settle R s.registry handler reloaded issuance)
      | none => s

def serve (connected : Connected) (s : AppState σ) (events : List AppEvent) : AppState σ :=
  events.foldl (handle R connected) s

end Parts

end Web

end AutobricksVpn
