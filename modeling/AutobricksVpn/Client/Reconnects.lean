/-
# `AutobricksVpn.Client.Reconnects` — when a client gives up, and when it tries again

What a step of the client does to its connection is said once (`Effect`), with the
reason for which a connection is lost (`Reason`): the system has reported an error, a
deadline has passed, the server has refused the client, or the error is the client's
own and neither a timeout nor a refusal.  While the threads run the client is a run of
`ClientTunnel` (`run_connection`), whose results apply to it.

From these: how the client ends (`client_ends`, `refused_by_server`), that it does not
try again before its time (`attempts_apart`), and that it has one login only
(`one_login`).
-/
import AutobricksVpn.Client.Life
import Mathlib.Data.List.Chain
import Mathlib.Data.List.Pairwise

namespace AutobricksVpn

/-! ## Which errors a connection can end with -/

namespace ClientTunnel

/-- The errors the workers make themselves satisfy `P`. -/
structure OwnErrors (P : IoError → Prop) : Prop where
  poll : ∀ errno : PollErrno, P errno.error
  tunWrite : ∀ written expected, P (partialTunWriteOf written expected)
  udpWrite : ∀ written expected, P (partialUdpWrite written expected)

/-- An error reported by the system or by wolfSSL satisfies `P`. -/
def Act.Reports (P : IoError → Prop) : Act → Prop
  | .udpRead (.recv (.error error)) => P error
  | .tunRead (.read (.error error)) => P error
  | .decrypt (.read (.error error)) => P error
  | .decrypt (.inject (.error error)) => P error
  | .tunWrite (.write (.error error)) => P error
  | .encrypt (.write (.error error)) => P error
  | .udpWrite (.send (.error error)) => P error
  | _ => True

section Errors

variable {P : IoError → Prop} {interval : Duration} {sh sh' : Shared} {s s' : State} {a : Act}
  {error : IoError} {log evs : List Event}

theorem OwnErrors.wait (hown : OwnErrors P) {outcome : PollOutcome} :
    waitForUdp outcome = .error error → P error := by
  intro h
  cases outcome with
  | ready | elapsed | interrupted => cases h
  | failed errno =>
      cases h
      exact hown.poll errno

theorem udpReadStep_storing {pc pc' : UdpReadPc} {call : UdpReadCall} (hown : OwnErrors P)
    (hcall : (Act.udpRead call).Reports P) :
    udpReadStep sh pc call = some (sh', pc', evs) → pc'.phase = .storing error → P error := by
  fun_cases udpReadStep sh pc call
  all_goals rintro ⟨⟩ hphase
  case case3 hwait =>
      cases hphase
      exact hown.wait hwait
  case case7 =>
      cases hphase
      exact hcall
  all_goals first | cases hphase | (split at hphase <;> cases hphase)

theorem tunReadStep_storing {pc pc' : TunReadPc} {call : TunReadCall} (hown : OwnErrors P)
    (hcall : (Act.tunRead call).Reports P) :
    tunReadStep sh pc call = some (sh', pc', evs) → pc'.phase = .storing error → P error := by
  fun_cases tunReadStep sh pc call
  all_goals rintro ⟨⟩ hphase
  case case5 errno =>
      cases hphase
      exact hown.poll errno
  case case9 =>
      cases hphase
      exact hcall
  all_goals first | cases hphase | (split at hphase <;> cases hphase)

theorem decryptStep_storing {d d' : Decrypt} {call : DecryptCall}
    (hcall : (Act.decrypt call).Reports P) :
    decryptStep sh d call = some (sh', d', evs) → d'.pc.phase = .storing error → P error := by
  fun_cases decryptStep sh d call
  all_goals rintro ⟨⟩ hphase
  case case23 | case27 =>
      cases hphase
      exact hcall
  case case9 =>
      unfold Decrypt.popped at hphase
      split at hphase
      · cases hphase
      · dsimp only at hphase
        split at hphase <;> cases hphase
  all_goals first | cases hphase | (split at hphase <;> cases hphase)

theorem tunWriteStep_storing {pc pc' : TunWritePc} {call : TunWriteCall} (hown : OwnErrors P)
    (hcall : (Act.tunWrite call).Reports P) :
    tunWriteStep sh pc call = some (sh', pc', evs) → pc'.phase = .storing error → P error := by
  fun_cases tunWriteStep sh pc call
  all_goals rintro ⟨⟩ hphase
  case case8 written _ =>
      cases hphase
      exact hown.tunWrite _ _
  case case10 =>
      cases hphase
      exact hcall
  all_goals first | cases hphase | (split at hphase <;> cases hphase)

theorem encryptStep_storing {pc pc' : EncryptPc} {call : EncryptCall}
    (hcall : (Act.encrypt call).Reports P) :
    encryptStep sh pc call = some (sh', pc', evs) → pc'.phase = .storing error → P error := by
  fun_cases encryptStep sh pc call
  all_goals rintro ⟨⟩ hphase
  case case11 =>
      cases hphase
      exact hcall
  all_goals first | cases hphase | (split at hphase <;> cases hphase)

theorem udpWriteStep_storing {pc pc' : UdpWritePc} {call : UdpWriteCall} (hown : OwnErrors P)
    (hcall : (Act.udpWrite call).Reports P) :
    udpWriteStep sh pc call = some (sh', pc', evs) → pc'.phase = .storing error → P error := by
  fun_cases udpWriteStep sh pc call
  all_goals rintro ⟨⟩ hphase
  case case12 =>
      cases hphase
      exact hown.udpWrite _ _
  case case14 =>
      cases hphase
      exact hcall
  all_goals first | cases hphase | (split at hphase <;> cases hphase)

/-- A worker that has met an error satisfying `P` has met it in this step or before. -/
theorem step_storing (hown : OwnErrors P) (hreports : a.Reports P) {thread : Thread} :
    step interval s a = some (s', evs) → s'.phase thread = .storing error →
    s.phase thread = .storing error ∨ P error := by
  intro h hphase
  have huntouched := step_untouched h
  by_cases hrole : a.role = .worker thread
  · refine .inr ?_
    cases thread with
    | udpRead =>
        obtain ⟨call, rfl⟩ := Act.udpRead_of_role hrole
        exact udpReadStep_storing hown hreports (step_udpRead h) hphase
    | tunRead =>
        obtain ⟨call, rfl⟩ := Act.tunRead_of_role hrole
        exact tunReadStep_storing hown hreports (step_tunRead h) hphase
    | decrypt =>
        obtain ⟨call, rfl⟩ := Act.decrypt_of_role hrole
        exact decryptStep_storing hreports (step_decrypt h) hphase
    | tunWrite =>
        obtain ⟨call, rfl⟩ := Act.tunWrite_of_role hrole
        exact tunWriteStep_storing hown hreports (step_tunWrite h) hphase
    | encrypt =>
        obtain ⟨call, rfl⟩ := Act.encrypt_of_role hrole
        exact encryptStep_storing hreports (step_encrypt h) hphase
    | udpWrite =>
        obtain ⟨call, rfl⟩ := Act.udpWrite_of_role hrole
        exact udpWriteStep_storing hown hreports (step_udpWrite h) hphase
  · refine .inl ?_
    rw [← hphase]
    cases thread with
    | udpRead => exact (congrArg UdpReadPc.phase (huntouched.udpRead hrole)).symm
    | tunRead => exact (congrArg TunReadPc.phase (huntouched.tunRead hrole)).symm
    | decrypt => exact (congrArg (fun d => d.pc.phase) (huntouched.decrypt hrole)).symm
    | tunWrite => exact (congrArg TunWritePc.phase (huntouched.tunWrite hrole)).symm
    | encrypt => exact (congrArg EncryptPc.phase (huntouched.encrypt hrole)).symm
    | udpWrite => exact (congrArg UdpWritePc.phase (huntouched.udpWrite hrole)).symm

/-- Every error on its way to the main thread satisfies `P`. -/
structure State.Reported (P : IoError → Prop) (log : List Event) (s : State) : Prop where
  storing : ∀ thread error, s.phase thread = .storing error → P error
  sending : ∀ thread error, s.phase thread = .sending error → P error
  sent : ∀ error ∈ failures log, P error

theorem MainEffect.failures {ended : Thread → Bool} {pc pc' : MainPc}
    (h : MainEffect ended sh pc sh' pc' evs) : failures evs = [] := by
  cases h with
  | work _ _ hquiet | leave _ hquiet _ => exact hquiet.failures
  | receive => rfl
  | cleanup hstep => exact (cleanupStep_frame hstep).failures

/-- An error that a worker sends is one that it has met. -/
theorem StepEffect.reported {role : Role} (h : StepEffect s role s' evs)
    (hstoring : ∀ thread error, s'.phase thread = .storing error →
      s.phase thread = .storing error ∨ P error)
    (hs : s.Reported P log) : s'.Reported P (log ++ evs) := by
  have hstored : ∀ thread error, s'.phase thread = .storing error → P error :=
    fun thread error hphase => (hstoring thread error hphase).elim (hs.storing thread error) id
  have hsilent : failures evs = [] → ∀ error ∈ failures (log ++ evs), P error := by
    intro hevs
    rw [failures_append, hevs, List.append_nil]
    exact hs.sent
  cases h with
  | tick | interrupt => exact ⟨hstored, hs.sending, hsilent rfl⟩
  | dtlsSend => exact ⟨hstored, hs.sending, hsilent (failures_map _)⟩
  | main heffect => exact ⟨hstored, hs.sending, hsilent heffect.failures⟩
  | @worker _ _ thread heffect hother hmain =>
      have hsending : (∀ error, s'.phase thread = .sending error → P error) →
          ∀ t error, s'.phase t = .sending error → P error := by
        intro hthread t error hphase
        by_cases ht : t = thread
        · exact hthread error (ht ▸ hphase)
        · exact hs.sending t error ((hother t ht).symm.trans hphase)
      have hquietly : (∀ error, s'.phase thread ≠ .sending error) → failures evs = [] →
          s'.Reported P (log ++ evs) := fun hnot hevs =>
        ⟨hstored, hsending fun error hphase => absurd hphase (hnot error), hsilent hevs⟩
      generalize hbefore : s.phase thread = before at heffect
      generalize hafter : s'.phase thread = after at heffect
      generalize s'.shared = sh' at heffect
      cases heffect with
      | work hquiet | leave hquiet => exact hquietly (by simp [hafter]) hquiet.failures
      | quit hquiet _ hquit =>
          exact hquietly (by rcases hquit with rfl | rfl <;> simp [hafter]) hquiet.failures
      | fail => exact hquietly (by simp [hafter]) rfl
      | close hcall hclose =>
          exact hquietly (by rcases hclose with rfl | rfl <;> simp [hafter]) (failures_map _)
      | store =>
          refine ⟨hstored, hsending fun error hphase => ?_, hsilent rfl⟩
          cases hafter.symm.trans hphase
          exact hs.storing thread _ hbefore
      | @send error _ hsent =>
          refine ⟨hstored, hsending fun error hphase => ?_, fun error' hmem => ?_⟩
          · rcases hsent with rfl | rfl | rfl <;> cases hafter.symm.trans hphase
          · rw [failures_append, List.mem_append] at hmem
            rcases hmem with hmem | hmem
            · exact hs.sent error' hmem
            · rw [List.mem_singleton.mp hmem]
              exact hs.sending thread error hbefore

/-- An error a connection ends with is its own, or was reported to it. -/
theorem run_reported (hown : OwnErrors P) {configured : Duration} {running : Bool} {now : Instant}
    {as : List Act}
    (h : (machine configured running now).Run (fun _ a => a.Reports P) as log s) :
    s.Reported P log := by
  refine h.invariant (fun log s => s.Reported P log) ?_ fun {log s a s' evs} hs hreports hstep => ?_
  · refine ⟨fun thread error hphase => ?_, fun thread error hphase => ?_, fun error hmem => ?_⟩
    · cases (start_phase running now thread).symm.trans hphase
    · cases (start_phase running now thread).symm.trans hphase
    · exact absurd hmem List.not_mem_nil
  · have hstep : step (effectiveKeepaliveInterval configured) s a = some (s', evs) := hstep
    exact (step_effect hstep).reported
      (fun thread error hphase => step_storing hown hreports hstep hphase) hs

/-- The error of a connection is the silence of the server, or the closed queue, or
satisfies `P`. -/
theorem run_error (hown : OwnErrors P) {configured : Duration} {running : Bool} {now : Instant}
    {as : List Act} (h : (machine configured running now).Run (fun _ a => a.Reports P) as log s)
    {rest : List Cleanup} (hpc : s.main.pc = .cleanup (.error error) rest) :
    error = notResponding ∨ error = rawTxClosed ∨ P error := by
  rcases (run_sound h).verdict _ _ hpc with hsilent | hhead | ⟨hrefused, -⟩
  · exact .inl hsilent
  · exact .inr (.inr ((run_reported hown h).sent error (List.mem_of_mem_head? hhead)))
  · exact .inr (.inl hrefused)

theorem step_later :
    step interval s a = some (s', evs) → s.shared.now ≤ s'.shared.now := by
  intro h
  cases a with
  | tick d =>
      obtain ⟨rfl, -⟩ := Prod.mk.inj (Option.some.inj h)
      exact Nat.le_add_right _ _
  | interrupt =>
      obtain ⟨rfl, -⟩ := Prod.mk.inj (Option.some.inj h)
      exact Nat.le_refl _
  | dtlsSend | udpRead | tunRead | decrypt | tunWrite | encrypt | udpWrite | main =>
      exact ((step_effect h).now (by simp [Act.role])).ge

/-- The server was silent for the liveness timeout before it is given up. -/
structure State.Silent (started : Instant) (s : State) : Prop where
  activity : started ≤ s.shared.activity
  heard : s.shared.activity ≤ s.shared.now
  silent : ∀ error rest, s.main.pc = .cleanup (.error error) rest → error.kind = .timedOut →
    started + SERVER_LIVENESS_TIMEOUT ≤ s.shared.now

/-- No error that the system reports is a timeout. -/
def NotTimedOut (error : IoError) : Prop := error.kind ≠ .timedOut

theorem notTimedOut_own : OwnErrors NotTimedOut where
  poll errno := by cases errno <;> simp [NotTimedOut, PollErrno.error]
  tunWrite _ _ := by simp [NotTimedOut, partialTunWriteOf]
  udpWrite _ _ := by simp [NotTimedOut, partialUdpWrite]

theorem StepEffect.silent {role : Role} {started : Instant} (h : StepEffect s role s' evs)
    (hlater : s.shared.now ≤ s'.shared.now)
    (hactivity : s'.shared.activity = s.shared.activity ∨ s'.shared.activity = s.shared.now)
    (herrors : ∀ error ∈ s.shared.errors, error.kind ≠ .timedOut) (hs : s.Silent started) :
    s'.Silent started := by
  have hheard := hs.heard
  have hpast : started ≤ s'.shared.activity ∧ s'.shared.activity ≤ s'.shared.now := by
    rcases hactivity with hactivity | hactivity <;> rw [hactivity]
    · exact ⟨hs.activity, hheard.trans hlater⟩
    · exact ⟨hs.activity.trans hheard, hlater⟩
  refine ⟨hpast.1, hpast.2, fun error rest hpc hkind => ?_⟩
  have hkeep : ∀ rest, s.main.pc = .cleanup (.error error) rest →
      started + SERVER_LIVENESS_TIMEOUT ≤ s'.shared.now := fun rest hbefore =>
    (hs.silent error rest hbefore hkind).trans hlater
  cases h with
  | tick | interrupt | dtlsSend => exact hkeep rest hpc
  | worker _ _ hmain => exact hkeep rest (hmain ▸ hpc)
  | @main sh m _ heffect =>
      have hpc : m.pc = .cleanup (.error error) rest := hpc
      rw [hpc] at heffect
      generalize hbefore : s.main.pc = before at heffect
      cases heffect with
      | work _ hloops => exact hloops.elim
      | leave _ _ hreason =>
          cases hreason with
          | silent hsilent =>
              have hfirst := hs.activity
              refine le_trans ?_ hlater
              unfold Instant Duration at *
              omega
          | refused => cases hkind
      | receive hreceived =>
          exact absurd hkind (herrors error (hreceived ▸ List.mem_cons_self))
      | cleanup => exact hkeep _ hbefore

/-- Where the system reports no timeout, a connection that ends with one has lasted as
long as the liveness timeout. -/
theorem run_silent {configured : Duration} {running : Bool} {now : Instant} {as : List Act}
    (h : (machine configured running now).Run (fun _ a => a.Reports NotTimedOut) as log s) :
    s.Silent now := by
  refine h.invariant₂ (fun log s => s.Channel log ∧ s.Reported NotTimedOut log)
    (fun _ s => s.Silent now)
    (fun h => ⟨(run_sound h).channel, run_reported notTimedOut_own h⟩)
    ⟨Nat.le_refl _, Nat.le_refl _, fun _ _ hpc => by cases hpc⟩ ?_
  rintro log s a s' evs ⟨hchannel, hreported⟩ hs - hstep
  refine (step_effect hstep).silent (step_later hstep) (step_activity hstep) ?_ hs
  intro error hmem
  refine hreported.sent error ?_
  rcases hchannel with hlog | ⟨received, rest, -, hlog⟩ <;> rw [hlog]
  · exact hmem
  · exact List.mem_cons_of_mem _ hmem

end Errors

end ClientTunnel

/-! ## What a step of the client does -/

namespace ClientLife

/-- Until when the client waits for an answer, or tries to send. -/
def limit : AuthenticatePc → Option Instant
  | .awaitChallenge deadline => some deadline
  | .sendLogin _ deadline => some deadline
  | .awaitVerdict deadline => some deadline
  | .connecting | .logIn | .ended _ => none

def Pc.limit : Pc → Option Instant
  | .handshake deadline => some deadline
  | .shake deadline => some deadline
  | .elapse deadline => some deadline
  | .wait deadline => some deadline
  | .retransmit deadline => some deadline
  | .authenticate pc => ClientLife.limit pc
  | .top | .setUp | .shaken | .verify | .start | .tunnel _ | .failed _ | .asleep _ | .returned _ =>
      none

/-- In `connect`. -/
def Pc.Connects : Pc → Prop
  | .setUp | .handshake _ | .shake _ | .elapse _ | .wait _ | .retransmit _ | .shaken | .verify
  | .authenticate _ | .start => True
  | .top | .tunnel _ | .failed _ | .asleep _ | .returned _ => False

def invalidChallenge : IoError := IoError.new .permissionDenied "invalid login challenge"

def loginFailed : IoError := IoError.new .permissionDenied "login failed"

def invalidResponse : IoError := IoError.new .permissionDenied "invalid login response"

/-- What the client takes for a refusal of the server. -/
def refusals (settings : Settings) : List IoError :=
  [sanMismatch settings.server, invalidChallenge, loginFailed, invalidResponse]

/-- The error that the system reports with the action. -/
def Act.error? : Act → Option IoError
  | .setUp (.error error) => some error
  | .verify (.error error) => some error
  | .start (.error error) => some error
  | .logIn (.error error) _ => some error
  | .logIn (.ok _) (.error error) => some error
  | _ => none

/-- Why a connection is lost. -/
inductive Reason (settings : Settings) (s : State) (a : Act) : IoError → Prop
  | reported {error : IoError} : a.error? = some error → Reason settings s a error
  | elapsed {error : IoError} {deadline : Instant} :
      error.kind = .timedOut → s.pc.limit = some deadline → deadline ≤ s.now →
      Reason settings s a error
  | refused {error : IoError} : error ∈ refusals settings → Reason settings s a error
  | own {error : IoError} : error.kind ≠ .timedOut → error.kind ≠ .permissionDenied →
      Reason settings s a error
  | tunnel {tunnel : ClientTunnel.State} {error : IoError} :
      s.pc = .tunnel tunnel → tunnel.main.pc = .cleanup (.error error) [] →
      Reason settings s a error

inductive Effect (settings : Settings) (s : State) : Act → State → List Event → Prop
  | tick {d : Duration} :
      (∀ tunnel, s.pc ≠ .tunnel tunnel) →
      Effect settings s (.tick d) { s with now := s.now + d } []
  | interrupt :
      (∀ tunnel, s.pc ≠ .tunnel tunnel) →
      Effect settings s .interrupt { s with running := false } []
  | begin {a : Act} :
      s.pc = .top → s.running = true →
      Effect settings s a { s with pc := .setUp, begun := s.now } [.begun s.now]
  | finished {a : Act} :
      s.pc = .top → s.running = false →
      Effect settings s a { s with pc := .returned (.ok ()) } []
  | connect {a : Act} {pc : Pc} :
      s.pc.Connects → pc.Connects →
      (∀ deadline, pc.limit = some deadline →
        s.pc.limit = some deadline ∨ s.now + LOGIN_STEP_TIMEOUT ≤ deadline) →
      Effect settings s a { s with pc := pc } []
  | login {a : Act} {credentials : LoginCredentials} {asked : List Event} :
      s.pc.Connects → (s.cache = some credentials ∧ asked = [] ∨ s.cache = none ∧ asked = [.prompted]) →
      Effect settings s a
        { s with
          pc := .authenticate (logInTurn s.now (.ok credentials)), cache := some credentials }
        (asked ++ [.login (loginFrame credentials.id credentials.password)])
  | unanswered {a : Act} {error : IoError} :
      s.pc.Connects → s.cache = none → Reason settings s a error →
      Effect settings s a { s with pc := .failed error } [.prompted]
  | start {a : Act} :
      s.pc = .start →
      Effect settings s a { s with pc := .tunnel (ClientTunnel.State.start s.running s.now) }
        [.started]
  | tunnel {action : ClientTunnel.Act} {tunnel tunnel' : ClientTunnel.State}
      {evs : List ClientTunnel.Event} :
      s.pc = .tunnel tunnel →
      ClientTunnel.step (ClientTunnel.effectiveKeepaliveInterval settings.keepaliveInterval) tunnel
        action = some (tunnel', evs) →
      Effect settings s (.tunnel action)
        { s with
          pc := .tunnel tunnel', running := tunnel'.shared.running, now := tunnel'.shared.now }
        (evs.map .tunnel)
  | done {a : Act} {tunnel : ClientTunnel.State} :
      s.pc = .tunnel tunnel → tunnel.main.pc = .cleanup (.ok ()) [] →
      Effect settings s a { s with pc := .returned (.ok ()) } []
  | fail {a : Act} {error : IoError} :
      (s.pc.Connects ∨ ∃ tunnel, s.pc = .tunnel tunnel) → Reason settings s a error →
      Effect settings s a { s with pc := .failed error } []
  | lost {a : Act} {error : IoError} :
      s.pc = .failed error →
      Effect settings s a { s with pc := s.afterError error } [.lost error]
  | wake {a : Act} {wake : Instant} :
      s.pc = .asleep wake → wake ≤ s.now → Effect settings s a { s with pc := .top } []

section Steps

variable {settings : Settings} {s s' : State} {a : Act} {evs : List Event}

theorem goStep_effect : goStep settings s = some (s', evs) → Effect settings s .go s' evs := by
  fun_cases goStep settings s
  all_goals rintro ⟨⟩
  case case1 hpc hrunning => exact .begin hpc hrunning
  case case2 hpc hrunning => exact .finished hpc (Bool.eq_false_iff.mpr hrunning)
  case case3 hpc =>
      have hconnects : s.pc.Connects := hpc ▸ trivial
      by_cases hrunning : s.running = true
      · rw [if_pos hrunning]
        exact .connect hconnects trivial fun _ hlimit => .inl (hpc ▸ hlimit)
      · rw [if_neg hrunning]
        exact .connect hconnects trivial fun _ hlimit => by cases hlimit
  case case4 deadline hpc =>
      have hconnects : s.pc.Connects := hpc ▸ trivial
      by_cases hover : deadline ≤ s.now
      · rw [if_pos hover]
        exact .fail (.inl hconnects) (.elapsed rfl (by rw [hpc]; rfl) hover)
      · rw [if_neg hover]
        exact .connect hconnects trivial fun _ hlimit => .inl (hpc ▸ hlimit)
  case case5 hpc _ =>
      have hconnects : s.pc.Connects := hpc ▸ trivial
      cases settings.verifyServerSanIp with
      | true => exact .connect hconnects trivial fun _ hlimit => by cases hlimit
      | false =>
          refine .connect hconnects trivial fun deadline hlimit => .inr ?_
          cases hlimit
          exact Nat.le_refl _
  case case6 hpc _ => exact .fail (.inl (hpc ▸ trivial)) (.own (by decide) (by decide))
  case case7 tunnel hpc _ hmain => exact .done hpc hmain
  case case8 tunnel hpc error hmain => exact .fail (.inr ⟨tunnel, hpc⟩) (.tunnel hpc hmain)
  case case10 error hpc => exact .lost hpc
  case case11 wake hpc hwake => exact .wake hpc hwake

/-- One call of the handshake: it succeeds, or its error ends the connection. -/
theorem called_effect {ρ : Type} {result : Except IoError ρ} {next : ρ → Pc}
    (hconnects : s.pc.Connects) (herror : ∀ error, result = .error error → Reason settings s a error)
    (hnext : ∀ value, result = .ok value → Effect settings s a { s with pc := next value } []) :
    Effect settings s a (s.called result next) [] := by
  cases result with
  | ok value => exact hnext value rfl
  | error error => exact .fail (.inl hconnects) (herror error rfl)

/-- What the client waits for, or why it stops. -/
theorem ofAuthenticate_effect {pc : AuthenticatePc} (hconnects : s.pc.Connects)
    (herror : ∀ error, pc = .ended (.error error) → Reason settings s a error)
    (hlimit : ∀ deadline, limit pc = some deadline →
      s.pc.limit = some deadline ∨ s.now + LOGIN_STEP_TIMEOUT ≤ deadline) :
    Effect settings s a { s with pc := .ofAuthenticate pc } [] := by
  cases pc with
  | ended result =>
      cases result with
      | ok _ => exact .connect hconnects trivial fun _ hlimit => by cases hlimit
      | error error => exact .fail (.inl hconnects) (herror error rfl)
  | connecting | awaitChallenge | logIn | sendLogin | awaitVerdict =>
      exact .connect hconnects trivial hlimit

theorem waitForUdp_reason {outcome : PollOutcome} {error : IoError} :
    waitForUdp outcome = .error error → Reason settings s a error := by
  intro h
  cases outcome with
  | ready | elapsed | interrupted => cases h
  | failed errno =>
      cases h
      exact .own (by cases errno <;> decide) (by cases errno <;> decide)

theorem challengeAnswered_reason {response : Packet} {error : IoError} :
    challengeAnswered response = .ended (.error error) → Reason settings s a error := by
  unfold challengeAnswered
  split
  · intro h
    cases h
  · split
    · intro h
      cases h
      exact .refused (by simp [refusals, invalidChallenge])
    · intro h
      cases h

theorem verdictAnswered_reason {response : Packet} {error : IoError} :
    verdictAnswered response = .ended (.error error) → Reason settings s a error := by
  unfold verdictAnswered
  split
  · intro h
    cases h
  · split
    · intro h
      cases h
      exact .refused (by simp [refusals, loginFailed])
    · intro h
      cases h
      exact .refused (by simp [refusals, invalidResponse])

theorem readAuthResponse_reason {deadline : Instant} {read : WolfSsl Packet} {wait : PollOutcome}
    {error : IoError} (hlimit : s.pc.limit = some deadline) :
    readAuthResponse deadline s.now read wait = some (.error error) → Reason settings s a error := by
  have hmore : readAuthResponse.waitForMore deadline s.now wait = some (.error error) →
      Reason settings s a error := by
    unfold readAuthResponse.waitForMore
    split
    · intro h
      cases h
      exact .elapsed rfl hlimit ‹_›
    · split
      · intro h
        cases h
      · rename_i hwait
        intro h
        cases h
        exact waitForUdp_reason hwait
  unfold readAuthResponse
  cases read with
  | value plaintext =>
      dsimp only [dtlsRead]
      split
      · exact hmore
      · intro h
        cases h
  | want => exact hmore
  | failed code =>
      intro h
      cases h
      exact .own (by simp [ioError]) (by simp [ioError])

theorem limit_of_deadline {pc : AuthenticatePc} {deadline : Instant} :
    pc.deadline? = some deadline → limit pc = some deadline := by
  cases pc <;> first | exact id | exact fun h => by cases h

theorem answered_effect {pc : AuthenticatePc} {response : Packet} (hpc : s.pc = .authenticate pc)
    (hwaiting : pc.deadline?.isSome = true) :
    Effect settings s a { s with pc := .ofAuthenticate (pc.answered response) } [] := by
  have hconnects : s.pc.Connects := hpc ▸ trivial
  cases pc with
  | awaitChallenge _ =>
      refine ofAuthenticate_effect hconnects (fun error => challengeAnswered_reason) ?_
      intro deadline hlimit
      simp only [AuthenticatePc.answered, challengeAnswered] at hlimit
      split at hlimit
      · cases hlimit
      · split at hlimit <;> cases hlimit
  | awaitVerdict _ =>
      refine ofAuthenticate_effect hconnects (fun error => verdictAnswered_reason) ?_
      intro deadline hlimit
      simp only [AuthenticatePc.answered, verdictAnswered] at hlimit
      split at hlimit
      · cases hlimit
      · split at hlimit <;> cases hlimit
  | connecting | logIn | sendLogin | ended => cases hwaiting

theorem readTurn_effect {read : WolfSsl Packet} {wait : PollOutcome} {pc : AuthenticatePc}
    (hpc : s.pc = .authenticate pc) (hwaiting : pc.deadline?.isSome = true) :
    Effect settings s a { s with pc := .ofAuthenticate (readTurn s.now read wait pc) } [] := by
  have hconnects : s.pc.Connects := hpc ▸ trivial
  obtain ⟨deadline, hdeadline⟩ := Option.isSome_iff_exists.mp hwaiting
  have hlimit : s.pc.limit = some deadline := by
    rw [hpc]
    exact limit_of_deadline hdeadline
  simp only [readTurn, hdeadline]
  cases hread : readAuthResponse deadline s.now read wait with
  | none =>
      refine ofAuthenticate_effect hconnects ?_ fun _ hlimit => .inl (hpc ▸ hlimit)
      rintro error rfl
      cases hdeadline
  | some result =>
      cases result with
      | error error => exact .fail (.inl hconnects) (readAuthResponse_reason hlimit hread)
      | ok response => exact answered_effect hpc hwaiting

theorem writeTurn_effect {frame : Packet} {deadline : Instant} {outcome : WolfSsl Nat}
    {wait : PollOutcome} (hpc : s.pc = .authenticate (.sendLogin frame deadline)) :
    Effect settings s a
      { s with pc := .ofAuthenticate (writeTurn frame deadline s.now outcome wait) } [] := by
  have hconnects : s.pc.Connects := hpc ▸ trivial
  have hlimit : s.pc.limit = some deadline := by
    rw [hpc]
    rfl
  unfold writeTurn
  cases outcome with
  | value written =>
      dsimp only [dtlsWrite]
      split
      · refine .connect hconnects trivial fun deadline hlimit => .inr ?_
        cases hlimit
        exact Nat.le_refl _
      · exact .fail (.inl hconnects) (.own (by simp) (by simp))
  | want =>
      dsimp only [dtlsWrite]
      rw [if_pos (IoError.kind_new _ _)]
      split
      · exact .fail (.inl hconnects) (.elapsed rfl hlimit ‹_›)
      · split
        · exact .connect hconnects trivial fun _ hlimit => .inl (hpc ▸ hlimit)
        · rename_i hwait
          exact .fail (.inl hconnects) (waitForUdp_reason hwait)
  | failed code =>
      dsimp only [dtlsWrite]
      rw [if_neg (by simp [ioError])]
      exact .fail (.inl hconnects) (.own (by simp [ioError]) (by simp [ioError]))

theorem cachedLogin_reason {id password : Except IoError String} {error : IoError} :
    cachedLogin none id password = .error error →
    Reason settings s (.logIn id password) error := by
  unfold cachedLogin
  cases id with
  | error error =>
      intro h
      cases h
      exact .reported rfl
  | ok id =>
      cases password with
      | error error =>
          intro h
          cases h
          exact .reported rfl
      | ok password =>
          dsimp only
          unfold makeLoginCredentials
          split
          · intro h
            cases h
            exact .own (by decide) (by decide)
          · intro h
            cases h

theorem logInTurn_effect {id password : Except IoError String} (hpc : s.pc = .authenticate .logIn) :
    Effect settings s (.logIn id password)
      { s with
        pc := .ofAuthenticate (logInTurn s.now (cachedLogin s.cache id password))
        cache := cacheAfter s.cache (cachedLogin s.cache id password) }
      (promptOf s.cache ++ frameOf (logInTurn s.now (cachedLogin s.cache id password))) := by
  have hconnects : s.pc.Connects := hpc ▸ trivial
  cases hcache : s.cache with
  | some credentials => exact .login hconnects (.inl ⟨hcache, rfl⟩)
  | none =>
      cases hlogin : cachedLogin none id password with
      | ok credentials => exact .login hconnects (.inr ⟨hcache, rfl⟩)
      | error error =>
          have hcache' : s.cache = cacheAfter none (.error error) := hcache
          rw [← hcache']
          exact .unanswered hconnects hcache (cachedLogin_reason hlogin)

theorem step_effect : step settings s a = some (s', evs) → Effect settings s a s' evs := by
  fun_cases step settings s a
  case case5 => exact goStep_effect
  all_goals rintro ⟨⟩
  case case2 hpc => exact .tick hpc
  case case4 hpc => exact .interrupt hpc
  case case6 result hpc =>
      have hconnects : s.pc.Connects := hpc ▸ trivial
      refine called_effect hconnects (fun error herror => ?_) fun _ _ => ?_
      · exact .reported (herror ▸ rfl)
      · refine .connect hconnects trivial fun deadline hlimit => .inr ?_
        cases hlimit
        exact Nat.add_le_add_left (by decide) _
  case case8 outcome deadline hpc =>
      have hconnects : s.pc.Connects := hpc ▸ trivial
      refine called_effect hconnects (fun error herror => ?_) fun finished _ => ?_
      · cases outcome with
        | done | want => cases herror
        | failed code =>
            cases herror
            exact .own (by simp) (by simp)
      · cases finished with
        | true => exact .connect hconnects trivial fun _ hlimit => by cases hlimit
        | false => exact .connect hconnects trivial fun _ hlimit => .inl (hpc ▸ hlimit)
  case case10 outcome deadline hpc =>
      have hconnects : s.pc.Connects := hpc ▸ trivial
      refine called_effect hconnects (fun error herror => waitForUdp_reason herror)
        fun ready _ => ?_
      cases ready <;> exact .connect hconnects trivial fun _ hlimit => .inl (hpc ▸ hlimit)
  case case12 failure deadline hpc =>
      have hconnects : s.pc.Connects := hpc ▸ trivial
      refine called_effect hconnects (fun error herror => ?_) fun _ _ => ?_
      · cases failure with
        | none => cases herror
        | some code =>
            cases herror
            exact .own (by simp) (by simp)
      · exact .connect hconnects trivial fun _ hlimit => .inl (hpc ▸ hlimit)
  case case14 result hpc =>
      have hconnects : s.pc.Connects := hpc ▸ trivial
      refine called_effect hconnects (fun error herror => .reported (herror ▸ rfl)) fun san _ => ?_
      cases san with
      | true =>
          refine .connect hconnects trivial fun deadline hlimit => .inr ?_
          cases hlimit
          exact Nat.le_refl _
      | false => exact .fail (.inl hconnects) (.refused (by simp [refusals]))
  case case16 hpc hwaiting => exact readTurn_effect hpc hwaiting
  case case19 hpc _ _ => exact logInTurn_effect hpc
  case case21 hpc => exact writeTurn_effect hpc
  case case23 hpc _ => exact .start hpc
  case case24 hpc error => exact .fail (.inl (hpc ▸ trivial)) (.reported rfl)
  case case26 hpc _ _ hstep => exact .tunnel hpc hstep

end Steps

/-- The client gives up, or tries again at once, or later. -/
theorem afterError_cases (s : State) (error : IoError) :
    (error.kind = .permissionDenied ∧ s.afterError error = .returned (.error error)) ∨
    (error.kind = .timedOut ∧ s.afterError error = .top) ∨
    (error.kind ≠ .permissionDenied ∧ error.kind ≠ .timedOut ∧
      s.afterError error = .asleep (s.now + RETRY_DELAY)) := by
  by_cases hdenied : error.kind = .permissionDenied
  · exact .inl ⟨hdenied, by rw [State.afterError, retry, if_pos hdenied]⟩
  · by_cases htimedOut : error.kind = .timedOut
    · refine .inr (.inl ⟨htimedOut, ?_⟩)
      rw [State.afterError, retry, if_neg hdenied, reconnectDelay, if_pos htimedOut]
      rfl
    · refine .inr (.inr ⟨hdenied, htimedOut, ?_⟩)
      rw [State.afterError, retry, if_neg hdenied, reconnectDelay, if_neg htimedOut]
      exact if_neg (by decide)

/-! ## The threads of a connection -/

/-- The events of the running connection. -/
inductive Connection (settings : Settings) (Q : ClientTunnel.Act → Prop) (log : List Event)
    (s : State) (tunnel : ClientTunnel.State) : Prop
  | intro {running : Bool} {started : Instant} {before : List Event}
      {as : List ClientTunnel.Act} {events : List ClientTunnel.Event} :
      log = before ++ .started :: events.map .tunnel →
      s.begun ≤ started →
      s.running = tunnel.shared.running → s.now = tunnel.shared.now →
      (ClientTunnel.machine settings.keepaliveInterval running started).Run (fun _ a => Q a) as
        events tunnel →
      Connection settings Q log s tunnel

section Runs

variable {settings : Settings} {cache : Option LoginCredentials} {now : Instant}
  {G : State → Act → Prop} {Q : ClientTunnel.Act → Prop} {as : List Act} {log : List Event}
  {s : State}

/-- A run of the client is, while it is connected, a run of the connection. -/
theorem run_connection (hG : ∀ s action, G s (.tunnel action) → Q action)
    (h : (machine settings cache now).Run G as log s) :
    s.begun ≤ s.now ∧ ∀ tunnel, s.pc = .tunnel tunnel → Connection settings Q log s tunnel := by
  refine h.invariant (fun log s => s.begun ≤ s.now ∧
    ∀ tunnel, s.pc = .tunnel tunnel → Connection settings Q log s tunnel)
    ⟨Nat.le_refl _, fun _ hpc => by cases hpc⟩ ?_
  rintro log s a s' evs ⟨hbegun, hs⟩ hguard hstep
  cases step_effect hstep with
  | tick hpc => exact ⟨hbegun.trans (Nat.le_add_right _ _), fun tunnel h => absurd h (hpc tunnel)⟩
  | interrupt hpc => exact ⟨hbegun, fun tunnel h => absurd h (hpc tunnel)⟩
  | begin => exact ⟨Nat.le_refl _, fun _ hpc => by cases hpc⟩
  | finished | done | fail | wake | login | unanswered => exact ⟨hbegun, fun _ hpc => by cases hpc⟩
  | @connect _ pc _ hconnects =>
      refine ⟨hbegun, fun tunnel (hpc : pc = _) => ?_⟩
      rw [hpc] at hconnects
      exact hconnects.elim
  | lost =>
      refine ⟨hbegun, fun tunnel hpc => ?_⟩
      rcases afterError_cases s _ with ⟨-, hnext⟩ | ⟨-, hnext⟩ | ⟨-, -, hnext⟩ <;>
        cases hnext.symm.trans hpc
  | start hpc =>
      refine ⟨hbegun, fun tunnel hpc => ?_⟩
      cases hpc
      exact .intro rfl hbegun rfl rfl .start
  | @tunnel action tunnel tunnel' events hpc hstep' =>
      obtain @⟨_, _, before, _, events', hlog, hstarted, hrunning, hnow, hrun⟩ := hs tunnel hpc
      have hlater := ClientTunnel.step_later hstep'
      refine ⟨hbegun.trans (hnow.le.trans hlater), fun tunnel hpc => ?_⟩
      cases hpc
      have hlog' : log ++ events.map .tunnel =
          before ++ .started :: (events' ++ events).map .tunnel := by
        rw [hlog, List.append_assoc, List.cons_append, List.map_append]
      exact .intro hlog' hstarted rfl rfl (hrun.next (hG s action hguard) hstep')

/-- The errors that the system reports satisfy `P`. -/
def Act.Reports (P : IoError → Prop) : Act → Prop
  | .tunnel action => action.Reports P
  | a => ∀ error, a.error? = some error → P error

theorem Act.Reports.error {P : IoError → Prop} {a : Act} (h : a.Reports P) {error : IoError} :
    a.error? = some error → P error := by
  cases a with
  | tunnel action => exact fun herror => by cases herror
  | tick | interrupt | go | setUp | handshake | wait | retransmit | verify | read | logIn | write
  | start => exact h error

/-! ## How the client ends -/

/-- What the end of the client stands for. -/
def State.Ended (log : List Event) (s : State) : Prop :=
  ∀ result, s.pc = .returned result →
    (∀ error, result = .error error →
      error.kind = .permissionDenied ∧ log.getLast? = some (.lost error)) ∧
    (result = .ok () → s.running = false ∨ ∃ before events,
      log = before ++ .started :: events.map .tunnel ∧ ClientTunnel.failures events ≠ [])

theorem Effect.ended {a : Act} {s' : State} {evs : List Event} (h : Effect settings s a s' evs)
    (hconnection : ∀ tunnel, s.pc = .tunnel tunnel →
      Connection settings (fun _ => True) log s tunnel)
    (hs : s.Ended log) : s'.Ended (log ++ evs) := by
  intro result hpc
  cases h with
  | begin | login | unanswered | start | tunnel | fail | wake => cases hpc
  | @connect _ pc _ hconnects =>
      have hpc : pc = .returned result := hpc
      rw [hpc] at hconnects
      exact hconnects.elim
  | tick =>
      rw [List.append_nil]
      exact hs result hpc
  | interrupt =>
      rw [List.append_nil]
      exact ⟨(hs result hpc).1, fun _ => .inl rfl⟩
  | finished _ hrunning =>
      cases hpc
      exact ⟨fun _ herror => (by cases herror), fun _ => .inl hrunning⟩
  | @done _ tunnel hbefore hmain =>
      cases hpc
      refine ⟨fun _ herror => (by cases herror), fun _ => ?_⟩
      obtain @⟨_, _, before, _, events, hlog, -, hrunning, -, hrun⟩ := hconnection tunnel hbefore
      rcases (ClientTunnel.stopped_or_failed hrun hmain).2 with hstopped | hfailed
      · exact .inl (hrunning.trans hstopped)
      · exact .inr ⟨before, events, by rw [List.append_nil, hlog], hfailed⟩
  | @lost _ error =>
      have hpc : s.afterError error = .returned result := hpc
      rcases afterError_cases s error with ⟨hkind, hnext⟩ | ⟨-, hnext⟩ | ⟨-, -, hnext⟩
      · cases hnext.symm.trans hpc
        refine ⟨fun error' herror => ?_, fun hok => by cases hok⟩
        cases herror
        exact ⟨hkind, List.getLast?_concat⟩
      · cases hnext.symm.trans hpc
      · cases hnext.symm.trans hpc

/-- The step that ends the client without an error is the return of its last connection. -/
theorem Effect.left {a : Act} {s' : State} {evs : List Event} (h : Effect settings s a s' evs)
    (hconnection : ∀ tunnel, s.pc = .tunnel tunnel →
      Connection settings (fun _ => True) log s tunnel)
    (hgoes : ∀ result, s.pc ≠ .returned result) (hpc : s'.pc = .returned (.ok ()))
    (hrunning : s'.running = true) :
    ∃ tunnel before events, s.pc = .tunnel tunnel ∧
      log = before ++ .started :: events.map .tunnel ∧
      tunnel.shared.errors = ClientTunnel.failures events ∧
      ClientTunnel.failures events ≠ [] := by
  cases h with
  | begin | login | unanswered | start | tunnel | fail | wake => cases hpc
  | @connect _ pc _ hconnects =>
      have hpc : pc = .returned (.ok ()) := hpc
      rw [hpc] at hconnects
      exact hconnects.elim
  | tick | interrupt => exact absurd hpc (hgoes _)
  | finished _ hstopped => exact absurd (hstopped.symm.trans hrunning) (by decide)
  | @done _ tunnel hbefore hmain =>
      obtain @⟨_, _, before, _, events, hlog, -, hkept, -, hrun⟩ := hconnection tunnel hbefore
      obtain ⟨hunreceived, hfailed⟩ := ClientTunnel.stopped_or_failed hrun hmain
      refine ⟨tunnel, before, events, hbefore, hlog, hunreceived, hfailed.resolve_left ?_⟩
      rw [← hkept, hrunning]
      decide
  | @lost _ error =>
      have hpc : s.afterError error = .returned (.ok ()) := hpc
      rcases afterError_cases s error with ⟨-, hnext⟩ | ⟨-, hnext⟩ | ⟨-, -, hnext⟩ <;>
        cases hnext.symm.trans hpc

/-- The first attempt fails before the handshake; at the second, after the retry delay,
the server refuses the login. -/
def refusedActs : List Act :=
  [.go, .setUp (.error (IoError.other "Network is unreachable")), .go,
    .tick (Duration.fromSecs 3), .go, .go, .setUp (.ok ()), .go, .handshake .want, .go,
    .wait .ready, .go, .handshake .done, .go, .verify (.ok true),
    .read (.value AUTH_REQUIRED) .ready, .logIn (.ok "alice") (.ok "secret"),
    .write (.value (loginFrame (asBytes "alice") (asBytes "secret")).length) .ready,
    .read (.value AUTH_FAILED) .ready, .go]

def aliceSettings : Settings :=
  { server := Ipv4Addr.new 203 0 113 7, keepaliveInterval := Duration.fromSecs 25
    verifyServerSanIp := true }

def refusedClient : State × List Event :=
  (machine aliceSettings none 0).outcome (fun _ _ => true) refusedActs

theorem refusedClient_run :
    (machine aliceSettings none 0).Run Machine.Free refusedActs refusedClient.2 refusedClient.1 :=
  Machine.run_outcome (fun _ _ _ => trivial) (by decide +kernel)

theorem refusedActs_reports {P : IoError → Prop} (h : P (IoError.other "Network is unreachable")) :
    ∀ a ∈ refusedActs, a.Reports P := by
  simp [refusedActs, Act.Reports, Act.error?, h]

theorem refusedClient_pc : refusedClient.1.pc = .returned (.error loginFailed) := rfl

/-- The client ends with an error only if it is `PermissionDenied`, and without one
only after an interrupt, or when a worker of its last connection has failed; when it
ends so, every error that a worker has sent lies unreceived in the channel. -/
theorem client_ends (h : (machine settings cache now).Run Machine.Free as log s) :
    s.Ended log ∧
    ∀ a s' evs, step settings s a = some (s', evs) → (∀ result, s.pc ≠ .returned result) →
      s'.pc = .returned (.ok ()) → s'.running = true →
        ∃ tunnel before events, s.pc = .tunnel tunnel ∧
          log = before ++ .started :: events.map .tunnel ∧
          tunnel.shared.errors = ClientTunnel.failures events ∧
          ClientTunnel.failures events ≠ [] := by
  constructor
  · exact h.invariant₂
      (fun log s => ∀ tunnel, s.pc = .tunnel tunnel →
        Connection settings (fun _ => True) log s tunnel)
      (fun log s => s.Ended log)
      (fun h => (run_connection (fun _ _ _ => trivial) h).2)
      (fun _ hpc => by cases hpc)
      fun hconnection hs _ hstep => (step_effect hstep).ended hconnection hs
  · intro a s' evs hstep hgoes hpc hrunning
    exact (step_effect hstep).left (run_connection (fun _ _ _ => trivial) h).2 hgoes hpc hrunning

/-- A connection without a login, whose `udp_read` fails and is not heard. -/
def racedActs : List Act :=
  [.go, .setUp (.ok ()), .go, .handshake .done, .go, .verify (.ok true),
    .read (.value AUTH_OK) .ready, .start (.ok ())] ++ ClientTunnel.racedActs.map .tunnel

def racedClient : State × List Event :=
  (machine aliceSettings none 0).outcome (fun _ _ => true) racedActs

theorem client_ends_refused :
    (loginFailed.kind = .permissionDenied ∧ refusedClient.2.getLast? = some (.lost loginFailed)) ∧
    ∃ tunnel before events, racedClient.1.pc = .tunnel tunnel ∧
      racedClient.2 = before ++ .started :: events.map .tunnel ∧
      tunnel.shared.errors = ClientTunnel.failures events ∧
      ClientTunnel.failures events ≠ [] := by
  refine ⟨((client_ends refusedClient_run).1 _ refusedClient_pc).1 _ rfl, ?_⟩
  have hrun : (machine aliceSettings none 0).Run Machine.Free racedActs racedClient.2
      racedClient.1 :=
    Machine.run_outcome (fun _ _ _ => trivial) (by decide +kernel)
  have hstep : step aliceSettings racedClient.1 .go =
      some ({ racedClient.1 with pc := .returned (.ok ()) }, []) := rfl
  have hgoes : ∀ result, racedClient.1.pc ≠ .returned result := fun result hpc => by cases hpc
  exact (client_ends hrun).2 _ _ _ hstep hgoes rfl rfl

/-- No error that the system reports is a refusal. -/
def NotDenied (error : IoError) : Prop := error.kind ≠ .permissionDenied

theorem notDenied_own : ClientTunnel.OwnErrors NotDenied where
  poll errno := by cases errno <;> simp [NotDenied, PollErrno.error]
  tunWrite _ _ := by simp [NotDenied, ClientTunnel.partialTunWriteOf]
  udpWrite _ _ := by simp [NotDenied, ClientTunnel.partialUdpWrite]

/-- What the client ends with, or will end with. -/
def State.Refused (settings : Settings) (s : State) : Prop :=
  (∀ error, s.pc = .failed error → error.kind = .permissionDenied → error ∈ refusals settings) ∧
    ∀ error, s.pc = .returned (.error error) → error ∈ refusals settings

theorem Reason.refusal {a : Act} {error : IoError} (h : Reason settings s a error)
    (hreports : a.Reports NotDenied)
    (hconnection : ∀ tunnel, s.pc = .tunnel tunnel →
      Connection settings (·.Reports NotDenied) log s tunnel) :
    error.kind = .permissionDenied → error ∈ refusals settings := by
  intro hkind
  cases h with
  | reported herror => exact absurd hkind (hreports.error herror)
  | elapsed htimedOut => rw [htimedOut] at hkind; cases hkind
  | refused hmem => exact hmem
  | own _ hdenied => exact absurd hkind hdenied
  | @tunnel tunnel _ hpc hmain =>
      obtain ⟨-, -, -, -, hrun⟩ := hconnection tunnel hpc
      rcases ClientTunnel.run_error notDenied_own hrun hmain with rfl | rfl | hnot
      · cases hkind
      · cases hkind
      · exact absurd hkind hnot

theorem Effect.refused {a : Act} {s' : State} {evs : List Event} (h : Effect settings s a s' evs)
    (hreports : a.Reports NotDenied)
    (hconnection : ∀ tunnel, s.pc = .tunnel tunnel →
      Connection settings (·.Reports NotDenied) log s tunnel)
    (hs : s.Refused settings) : s'.Refused settings := by
  cases h with
  | tick | interrupt => exact hs
  | begin | finished | login | start | tunnel | done | wake =>
      exact ⟨fun _ hpc => (by cases hpc), fun _ hpc => (by cases hpc)⟩
  | @connect _ pc _ hconnects =>
      have hnot : ∀ error, pc ≠ .failed error ∧ pc ≠ .returned (.error error) := fun error =>
        ⟨fun hpc => by rw [hpc] at hconnects; exact hconnects,
          fun hpc => by rw [hpc] at hconnects; exact hconnects⟩
      exact ⟨fun error hpc => absurd hpc (hnot error).1,
        fun error hpc => absurd hpc (hnot error).2⟩
  | unanswered _ _ hreason | fail _ hreason =>
      refine ⟨fun error hpc => ?_, fun _ hpc => (by cases hpc)⟩
      cases hpc
      exact hreason.refusal hreports hconnection
  | @lost _ error hpc =>
      rcases afterError_cases s error with ⟨hkind, hnext⟩ | ⟨-, hnext⟩ | ⟨-, -, hnext⟩ <;> rw [hnext]
      · refine ⟨fun _ hpc => (by cases hpc), fun _ hpc' => ?_⟩
        cases hpc'
        exact hs.1 error hpc hkind
      · exact ⟨fun _ hpc => (by cases hpc), fun _ hpc => (by cases hpc)⟩
      · exact ⟨fun _ hpc => (by cases hpc), fun _ hpc => (by cases hpc)⟩

/-- After `error` the client is on its way to the next attempt, or has begun it, or the user
has stopped it. -/
def State.Retries (error : IoError) (log : List Event) (s : State) : Prop :=
  (∃ time, .begun time ∈ log) ∨ s.pc = .failed error ∨ s.pc = .top ∨
    (∃ wake, s.pc = .asleep wake) ∨ s.pc = .returned (.ok ()) ∧ s.running = false

theorem Effect.retries {a : Act} {s' : State} {evs : List Event} {error : IoError}
    (h : Effect settings s a s' evs) (hkind : error.kind ≠ .permissionDenied)
    (hs : s.Retries error log) : s'.Retries error (log ++ evs) := by
  rcases hs with ⟨time, hbegun⟩ | hs
  · exact .inl ⟨time, List.mem_append_left _ hbegun⟩
  have hidle : ¬ s.pc.Connects ∧ ∀ tunnel, s.pc ≠ .tunnel tunnel := by
    rcases hs with hpc | hpc | ⟨wake, hpc⟩ | ⟨hpc, -⟩ <;> rw [hpc]
    all_goals exact ⟨id, fun _ heq => by cases heq⟩
  cases h with
  | begin => exact .inl ⟨s.now, List.mem_append_right _ (List.mem_singleton.mpr rfl)⟩
  | finished _ hstopped => exact .inr (.inr (.inr (.inr ⟨rfl, hstopped⟩)))
  | tick => exact .inr hs
  | interrupt => exact .inr (hs.imp_right (.imp_right (.imp_right fun h => ⟨h.1, rfl⟩)))
  | connect hconnects | login hconnects | unanswered hconnects => exact absurd hconnects hidle.1
  | start hpc => exact absurd (hpc ▸ trivial) hidle.1
  | tunnel hpc | done hpc => exact absurd hpc (hidle.2 _)
  | fail hends =>
      rcases hends with hconnects | ⟨tunnel, hpc⟩
      · exact absurd hconnects hidle.1
      · exact absurd hpc (hidle.2 _)
  | wake => exact .inr (.inr (.inl rfl))
  | @lost _ error' hpc =>
      have herror : error' = error := by
        rcases hs with hpc' | hpc' | ⟨wake, hpc'⟩ | ⟨hpc', -⟩ <;> cases hpc.symm.trans hpc'
        rfl
      rcases afterError_cases s error' with ⟨hdenied, -⟩ | ⟨-, hnext⟩ | ⟨-, -, hnext⟩
      · exact absurd (herror ▸ hdenied) hkind
      · exact .inr (.inr (.inl hnext))
      · exact .inr (.inr (.inr (.inl ⟨_, hnext⟩)))

/-- Nothing holds the client back for longer than `RETRY_DELAY`. -/
theorem begins_again {error : IoError} (hpc : s.pc = .failed error)
    (hkind : error.kind ≠ .permissionDenied) (hrunning : s.running = true) :
    ∃ bs log' s' time, ((machine settings cache now).startedAt s).Run Machine.Free bs log' s' ∧
      .begun time ∈ log' ∧ time ≤ s.now + RETRY_DELAY := by
  have hlost : step settings s .go = some ({ s with pc := s.afterError error }, [.lost error]) := by
    simp only [step, goStep, hpc]
  have hfirst : ((machine settings cache now).startedAt s).Run Machine.Free [.go] [.lost error]
      { s with pc := s.afterError error } := Machine.Run.start.next trivial hlost
  rcases afterError_cases s error with ⟨hdenied, -⟩ | ⟨-, hnext⟩ | ⟨-, -, hnext⟩
  · exact absurd hdenied hkind
  · rw [hnext] at hfirst
    have hbegin : ((machine settings cache now).startedAt s).step { s with pc := .top } .go =
        some ({ s with pc := .setUp, begun := s.now }, [.begun s.now]) := if_pos hrunning
    exact ⟨_, _, _, s.now, hfirst.next trivial hbegin,
      List.mem_append_right _ (List.mem_singleton.mpr rfl), Nat.le_add_right _ _⟩
  · rw [hnext] at hfirst
    have htick : ((machine settings cache now).startedAt s).step
        { s with pc := .asleep (s.now + RETRY_DELAY) } (.tick RETRY_DELAY) =
        some ({ s with pc := .asleep (s.now + RETRY_DELAY), now := s.now + RETRY_DELAY }, []) := by
      simp only [Machine.startedAt, machine, step]
    have hwake : ((machine settings cache now).startedAt s).step
        { s with pc := .asleep (s.now + RETRY_DELAY), now := s.now + RETRY_DELAY } .go =
        some ({ s with pc := .top, now := s.now + RETRY_DELAY }, []) := by
      simp only [Machine.startedAt, machine, step, goStep]
      exact if_pos (Nat.le_refl _)
    have hbegin : ((machine settings cache now).startedAt s).step
        { s with pc := .top, now := s.now + RETRY_DELAY } .go =
        some ({ s with pc := .setUp, now := s.now + RETRY_DELAY, begun := s.now + RETRY_DELAY },
          [.begun (s.now + RETRY_DELAY)]) := if_pos hrunning
    have hslept := (hfirst.next trivial htick).next trivial hwake
    exact ⟨_, _, _, s.now + RETRY_DELAY, hslept.next trivial hbegin,
      List.mem_append_right _ (List.mem_singleton.mpr rfl), Nat.le_refl _⟩

/-- Where the system refuses nothing, the client ends with an error only if the server's
certificate does not name its address, or if its answer is none that was expected.  After
every other error of a connection only the user keeps it from the next attempt. -/
theorem refused_by_server
    (h : (machine settings cache now).Run (fun _ a => a.Reports NotDenied) as log s) :
    (∀ error, s.pc = .returned (.error error) → error ∈ refusals settings) ∧
    ∀ error, s.pc = .failed error → error ∉ refusals settings →
      (∀ bs log' s', ((machine settings cache now).startedAt s).Run Machine.Free bs log' s' →
        s'.Retries error log') ∧
      (s.running = true → ∃ bs log' s' time,
        ((machine settings cache now).startedAt s).Run Machine.Free bs log' s' ∧
          .begun time ∈ log' ∧ time ≤ s.now + RETRY_DELAY) := by
  have hrefused : s.Refused settings := h.invariant₂
    (fun log s => ∀ tunnel, s.pc = .tunnel tunnel →
      Connection settings (·.Reports NotDenied) log s tunnel)
    (fun _ s => s.Refused settings)
    (fun h => (run_connection (fun _ _ => id) h).2)
    ⟨fun _ hpc => (by cases hpc), fun _ hpc => (by cases hpc)⟩
    fun hconnection hs hreports hstep => (step_effect hstep).refused hreports hconnection hs
  refine ⟨hrefused.2, fun error hpc hother => ?_⟩
  have hkind : error.kind ≠ .permissionDenied := fun hkind => hother (hrefused.1 error hpc hkind)
  refine ⟨fun bs log' s' hrun => ?_, begins_again hpc hkind⟩
  exact hrun.invariant (fun log s => s.Retries error log) (.inr (.inl hpc))
    fun hs _ hstep => (step_effect hstep).retries hkind hs

/-- The client when its first attempt has failed. -/
def unreachedClient : State × List Event :=
  (machine aliceSettings none 0).outcome (fun _ _ => true) (refusedActs.take 2)

theorem refused_by_server_refused :
    loginFailed ∈ refusals aliceSettings ∧
    ∃ bs log' s' time,
      ((machine aliceSettings none 0).startedAt unreachedClient.1).Run Machine.Free bs log' s' ∧
        .begun time ∈ log' ∧ time ≤ unreachedClient.1.now + RETRY_DELAY := by
  have hreports : ∀ a ∈ refusedActs, a.Reports NotDenied :=
    refusedActs_reports (by simp [NotDenied])
  have hrun : (machine aliceSettings none 0).Run Machine.Free (refusedActs.take 2)
      unreachedClient.2 unreachedClient.1 :=
    Machine.run_outcome (fun _ _ _ => trivial) (by decide +kernel)
  have hpc : unreachedClient.1.pc = .failed (IoError.other "Network is unreachable") := rfl
  constructor
  · exact (refused_by_server (refusedClient_run.guarded fun a ha _ => hreports a ha)).1 _
      refusedClient_pc
  · have hother : IoError.other "Network is unreachable" ∉ refusals aliceSettings := by decide
    exact ((refused_by_server (hrun.guarded fun a ha _ =>
      hreports a (List.mem_of_mem_take ha))).2 _ hpc hother).2 rfl

/-! ## When the client tries again -/

def Event.beginning : Event → Option Instant
  | .begun time => some time
  | _ => none

/-- When the client has begun to connect. -/
def beginnings (log : List Event) : List Instant := log.filterMap Event.beginning

theorem beginnings_append (log log' : List Event) :
    beginnings (log ++ log') = beginnings log ++ beginnings log' :=
  List.filterMap_append

theorem beginnings_tunnel (events : List ClientTunnel.Event) :
    beginnings (events.map .tunnel) = [] := by
  rw [beginnings, List.filterMap_map, List.filterMap_eq_nil_iff]
  intro event _
  rfl

/-- How long the connection lasts before it can end with a timeout, or the next one
begin. -/
def State.Due (log : List Event) (s : State) : Prop :=
  match s.pc with
  | .top => beginnings log ≠ [] → s.begun + RETRY_DELAY ≤ s.now
  | .asleep wake => s.begun + RETRY_DELAY ≤ wake
  | .failed error => error.kind = .timedOut → s.begun + LOGIN_STEP_TIMEOUT ≤ s.now
  | pc => ∀ deadline, pc.limit = some deadline → s.begun + LOGIN_STEP_TIMEOUT ≤ deadline

structure State.Paced (log : List Event) (s : State) : Prop where
  apart : (beginnings log).IsChain fun time time' => time + RETRY_DELAY ≤ time'
  last : ∀ time ∈ (beginnings log).getLast?, time = s.begun
  due : s.Due log

theorem Reason.late {a : Act} {error : IoError} (h : Reason settings s a error)
    (hreports : a.Reports ClientTunnel.NotTimedOut)
    (hconnection : ∀ tunnel, s.pc = .tunnel tunnel →
      Connection settings (·.Reports ClientTunnel.NotTimedOut) log s tunnel)
    (hlimit : ∀ deadline, s.pc.limit = some deadline → s.begun + LOGIN_STEP_TIMEOUT ≤ deadline) :
    error.kind = .timedOut → s.begun + LOGIN_STEP_TIMEOUT ≤ s.now := by
  intro hkind
  cases h with
  | reported herror => exact absurd hkind (hreports.error herror)
  | elapsed _ hdeadline hover => exact (hlimit _ hdeadline).trans hover
  | refused hmem =>
      simp only [refusals, List.mem_cons, List.not_mem_nil, or_false] at hmem
      rcases hmem with rfl | rfl | rfl | rfl <;> cases hkind
  | own htimedOut => exact absurd hkind htimedOut
  | @tunnel tunnel _ hpc hmain =>
      obtain ⟨-, hstarted, -, hnow, hrun⟩ := hconnection tunnel hpc
      have hsilent := (ClientTunnel.run_silent hrun).silent error [] hmain hkind
      rw [hnow]
      exact (Nat.add_le_add hstarted (by decide)).trans hsilent

theorem State.due_iff (hpc : s.pc.Connects ∨ ∃ tunnel, s.pc = .tunnel tunnel) :
    s.Due log ↔ ∀ deadline, s.pc.limit = some deadline →
      s.begun + LOGIN_STEP_TIMEOUT ≤ deadline := by
  unfold State.Due
  split
  case h_4 => rfl
  all_goals
    rename_i heq
    rw [heq] at hpc
    obtain hpc | ⟨_, hpc⟩ := hpc <;> cases hpc

theorem State.Due.tick (h : s.Due log) (d : Duration) : State.Due log { s with now := s.now + d } := by
  obtain ⟨pc, running, now, cache, begun⟩ := s
  cases pc <;> first | exact h | exact fun hp => (h hp).trans (Nat.le_add_right now d)

theorem State.Paced.quiet {s' : State} {evs : List Event} (hs : s.Paced log)
    (hevs : beginnings evs = []) (hbegun : s'.begun = s.begun) (hdue : s'.Due (log ++ evs)) :
    s'.Paced (log ++ evs) where
  apart := by
    rw [beginnings_append, hevs, List.append_nil]
    exact hs.apart
  last := by
    rw [beginnings_append, hevs, List.append_nil, hbegun]
    exact hs.last
  due := hdue

theorem Effect.paced {a : Act} {s' : State} {evs : List Event} (h : Effect settings s a s' evs)
    (hreports : a.Reports ClientTunnel.NotTimedOut) (hbegun : s.begun ≤ s.now)
    (hconnection : ∀ tunnel, s.pc = .tunnel tunnel →
      Connection settings (·.Reports ClientTunnel.NotTimedOut) log s tunnel)
    (hs : s.Paced log) : s'.Paced (log ++ evs) := by
  have hdue := hs.due
  cases h with
  | tick => exact hs.quiet rfl rfl (by rw [List.append_nil]; exact hdue.tick _)
  | interrupt => exact hs.quiet rfl rfl (by rw [List.append_nil]; exact hdue)
  | finished | done => exact hs.quiet rfl rfl fun _ hlimit => by cases hlimit
  | start => exact hs.quiet rfl rfl fun _ hlimit => by cases hlimit
  | tunnel => exact hs.quiet (beginnings_tunnel _) rfl fun _ hlimit => by cases hlimit
  | login _ hasked =>
      refine hs.quiet ?_ rfl fun deadline hlimit => ?_
      · rcases hasked with ⟨-, rfl⟩ | ⟨-, rfl⟩ <;> rfl
      · cases hlimit
        exact Nat.add_le_add_right hbegun _
  | begin hpc =>
      refine ⟨?_, ?_, fun _ hlimit => (by cases hlimit)⟩
      all_goals rw [beginnings_append]
      · refine List.isChain_append.mpr ⟨hs.apart, List.isChain_singleton _, fun time htime => ?_⟩
        have hne : beginnings log ≠ [] := by
          rintro hnil
          rw [hnil] at htime
          cases htime
        simp only [State.Due, hpc] at hdue
        rintro _ ⟨⟩
        rw [hs.last time htime]
        exact hdue hne
      · intro time htime
        rw [show beginnings [.begun s.now] = [s.now] from rfl, List.getLast?_concat] at htime
        cases htime
        rfl
  | @connect _ pc hbefore hconnects hlimits =>
      refine hs.quiet rfl rfl ((State.due_iff (.inl hconnects)).mpr fun deadline hlimit => ?_)
      rcases hlimits deadline hlimit with hkept | hnew
      · exact (State.due_iff (.inl hbefore)).mp hdue deadline hkept
      · exact (Nat.add_le_add_right hbegun _).trans hnew
  | unanswered hconnects _ hreason =>
      exact hs.quiet rfl rfl
        (hreason.late hreports hconnection ((State.due_iff (.inl hconnects)).mp hdue))
  | fail hconnects hreason =>
      exact hs.quiet rfl rfl
        (hreason.late hreports hconnection ((State.due_iff hconnects).mp hdue))
  | @lost _ error hpc =>
      refine hs.quiet rfl rfl ?_
      simp only [State.Due, hpc] at hdue
      rcases afterError_cases s error with ⟨-, hnext⟩ | ⟨hkind, hnext⟩ | ⟨-, -, hnext⟩ <;> rw [hnext]
      · exact fun _ hlimit => by cases hlimit
      · exact fun _ => (Nat.add_le_add_left (by decide) _).trans (hdue hkind)
      · exact Nat.add_le_add_right hbegun _
  | wake hpc hwake =>
      simp only [State.Due, hpc] at hdue
      exact hs.quiet rfl rfl fun _ => hdue.trans hwake

/-- Where the system reports no timeout, the client waits between one attempt to
connect and the next for at least the retry delay. -/
theorem attempts_apart
    (h : (machine settings cache now).Run (fun _ a => a.Reports ClientTunnel.NotTimedOut) as log s) :
    (beginnings log).IsChain fun time time' => time + RETRY_DELAY ≤ time' := by
  have hpaced : s.Paced log := h.invariant₂
    (fun log s => s.begun ≤ s.now ∧ ∀ tunnel, s.pc = .tunnel tunnel →
      Connection settings (·.Reports ClientTunnel.NotTimedOut) log s tunnel)
    (fun log s => s.Paced log)
    (fun h => run_connection (fun _ _ => id) h)
    ⟨.nil, fun _ hmem => (by cases hmem), fun hne => absurd rfl hne⟩
    fun hconnection hs hreports hstep =>
      (step_effect hstep).paced hreports hconnection.1 hconnection.2 hs
  exact hpaced.apart

theorem attempts_apart_refused :
    beginnings refusedClient.2 = [0, Duration.fromSecs 3] ∧
      (beginnings refusedClient.2).IsChain fun time time' => time + RETRY_DELAY ≤ time' :=
  ⟨by decide +kernel, attempts_apart (refusedClient_run.guarded fun a ha _ =>
    refusedActs_reports (by simp [ClientTunnel.NotTimedOut]) a ha)⟩

/-! ## One login -/

def Event.frame : Event → Option Packet
  | .login frame => some frame
  | _ => none

/-- The login frames of the connections. -/
def frames (log : List Event) : List Packet := log.filterMap Event.frame

theorem frames_append (log log' : List Event) : frames (log ++ log') = frames log ++ frames log' :=
  List.filterMap_append

theorem frames_tunnel (events : List ClientTunnel.Event) : frames (events.map .tunnel) = [] := by
  rw [frames, List.filterMap_map, List.filterMap_eq_nil_iff]
  intro event _
  rfl

/-- The client has one login, or none yet. -/
structure State.Loyal (cache : Option LoginCredentials) (log : List Event) (s : State) : Prop where
  sent : ∀ frame ∈ frames log, ∃ credentials, s.cache = some credentials ∧
    frame = loginFrame credentials.id credentials.password
  prompted : s.cache = cache ∨ cache = none
  asked : log.Pairwise fun event event' => event.frame.isSome = true → event' ≠ .prompted
  supplied : cache.isSome = true → .prompted ∉ log

theorem State.Loyal.cached (hs : s.Loyal cache log) {event : Event} (hevent : event ∈ log)
    (hframe : event.frame.isSome = true) : s.cache ≠ none := by
  obtain ⟨frame, hframe⟩ := Option.isSome_iff_exists.mp hframe
  obtain ⟨credentials, hcache, -⟩ := hs.sent frame (List.mem_filterMap.mpr ⟨event, hevent, hframe⟩)
  rw [hcache]
  exact Option.some_ne_none credentials

/-- The events of a step come after the log, and ask for nothing that the client has. -/
theorem State.Loyal.grown (hs : s.Loyal cache log) (evs : List Event)
    (hasked : .prompted ∈ evs → s.cache = none)
    (hevs : evs.Pairwise fun event event' => event.frame.isSome = true → event' ≠ .prompted) :
    (log ++ evs).Pairwise (fun event event' => event.frame.isSome = true → event' ≠ .prompted) ∧
      (cache.isSome = true → .prompted ∉ log ++ evs) := by
  constructor
  · refine List.pairwise_append.mpr ⟨hs.asked, hevs, fun event hevent event' hevent' hframe => ?_⟩
    rintro rfl
    exact hs.cached hevent hframe (hasked hevent')
  · intro hcache hmem
    rcases List.mem_append.mp hmem with hmem | hmem
    · exact hs.supplied hcache hmem
    · rcases hs.prompted with heq | hnone
      · rw [← heq, hasked hmem] at hcache
        cases hcache
      · rw [hnone] at hcache
        cases hcache

theorem State.Loyal.quiet {s' : State} {evs : List Event} (hs : s.Loyal cache log)
    (hcache : s'.cache = s.cache) (hframes : frames evs = []) (hasked : .prompted ∉ evs) :
    s'.Loyal cache (log ++ evs) := by
  have hpairwise : evs.Pairwise fun event event' =>
      event.frame.isSome = true → event' ≠ .prompted :=
    List.pairwise_of_forall_mem_list fun _ _ event' hevent' _ => by
      rintro rfl
      exact hasked hevent'
  have hlog := hs.grown evs (fun hmem => absurd hmem hasked) hpairwise
  refine ⟨?_, hcache ▸ hs.prompted, hlog.1, hlog.2⟩
  rw [frames_append, hframes, List.append_nil, hcache]
  exact hs.sent

theorem Effect.loyal {a : Act} {s' : State} {evs : List Event} (h : Effect settings s a s' evs)
    (hs : s.Loyal cache log) : s'.Loyal cache (log ++ evs) := by
  cases h with
  | tick | interrupt | finished | done | begin | connect | start | fail | lost | wake =>
      exact hs.quiet rfl rfl (by simp)
  | tunnel => exact hs.quiet rfl (frames_tunnel _) (by simp)
  | unanswered _ hnone =>
      have hlog := hs.grown [.prompted] (fun _ => hnone) (List.pairwise_singleton _ _)
      refine ⟨?_, hs.prompted, hlog.1, hlog.2⟩
      rw [frames_append]
      exact fun frame hmem => hs.sent frame ((List.mem_append.mp hmem).resolve_right List.not_mem_nil)
  | @login _ credentials _ _ hasked =>
      rcases hasked with ⟨hcache, rfl⟩ | ⟨hcache, rfl⟩
      · have hlog := hs.grown [.login (loginFrame credentials.id credentials.password)] (by simp)
          (List.pairwise_singleton _ _)
        refine ⟨?_, hcache ▸ hs.prompted, hlog.1, hlog.2⟩
        intro frame hmem
        rw [List.nil_append, frames_append] at hmem
        rcases List.mem_append.mp hmem with hmem | hmem
        · exact hcache ▸ hs.sent frame hmem
        · exact ⟨credentials, rfl, List.mem_singleton.mp hmem⟩
      · have hlog := hs.grown
          [.prompted, .login (loginFrame credentials.id credentials.password)] (fun _ => hcache)
          (by simp [Event.frame])
        refine ⟨?_, .inr ?_, hlog.1, hlog.2⟩
        · intro frame hmem
          rw [frames_append] at hmem
          rcases List.mem_append.mp hmem with hmem | hmem
          · obtain ⟨_, hsome, -⟩ := hs.sent frame hmem
            cases hcache.symm.trans hsome
          · exact ⟨credentials, rfl, List.mem_singleton.mp hmem⟩
        · exact hs.prompted.elim (fun heq => heq ▸ hcache) id

/-- The client sends one and the same login on every connection.  It asks the user
for it only if it was given none, and never again once it has one. -/
theorem one_login (h : (machine settings cache now).Run Machine.Free as log s) :
    s.Loyal cache log := by
  refine h.invariant (fun log s => s.Loyal cache log) ?_ fun hs _ hstep => (step_effect hstep).loyal hs
  exact ⟨fun _ hmem => absurd hmem List.not_mem_nil, .inl rfl, .nil, fun _ => List.not_mem_nil⟩

theorem one_login_refused :
    frames refusedClient.2 = [loginFrame (asBytes "alice") (asBytes "secret")] ∧
      refusedClient.1.Loyal none refusedClient.2 :=
  ⟨by decide +kernel, one_login refusedClient_run⟩

end Runs

end ClientLife

end AutobricksVpn
