/-
# `AutobricksVpn.Server.Reply` — what a `RELOAD` does and how it is answered

A reload that fails anywhere before the purge leaves everything as it was and
answers `ok=false` to all who wait for it (`decide_failed`).  One that does not
fail purges the sessions (`mem_reloadPurge_iff`), and the rules go through the
channel to the decrypt worker.

For the answer `ok=true` the control worker waits for the update it handed over
last, and the decrypt worker acknowledges an update after it has taken its
rules.  Updates are numbered as they are handed over, the channel holds them in
that order, and the last of it is the control worker's own copy (`Handover`); so
when the last number is acknowledged the decrypt worker has that copy.  What the
requesters have seen of their reload when the control worker is at some point of
its loop is `Served`.
-/
import AutobricksVpn.Config.Clients
import AutobricksVpn.Server.Reload

namespace AutobricksVpn

/-! ## A reload that fails -/

/-- The update whose acceptor the decrypt worker has: it comes with the rules,
and number `0` stands for the acceptor the worker was started with. -/
def acceptorOf (tr : List Event) : Nat :=
  (tr.filterMap fun
    | .adopted number => some number
    | _ => none).getLastD 0

/-- The new bindings have the session's fingerprint under its address, and the
login of the address is as before. -/
structure Session.Retained (logins : AList fun _ : Ipv4Addr => String × String) (new : Rules)
    (x : Session) : Prop where
  bound : ∃ f, x.fingerprint = some f ∧ new.bindings.lookup x.address = some f
  login : logins.lookup x.address = new.logins.lookup x.address

section Passes

variable {cfg : ServerConfig} {s : ServerState} {now : Instant}

theorem acceptorOf_replies (tr : List Event) (streams : List Nat) (ok : Bool) :
    acceptorOf (tr ++ streams.map fun stream => .reloadReply stream ok) = acceptorOf tr := by
  have hnone : (streams.map fun stream => Event.reloadReply stream ok).filterMap (fun
      | .adopted number => some number
      | _ => none) = [] := by
    induction streams with
    | nil => rfl
    | cons stream streams ih => exact ih
  rw [acceptorOf, List.filterMap_append, hnone, List.append_nil, acceptorOf]

/-- Of a reload that fails the requesters are told, and the worker takes the
next turn; nothing else changes. -/
theorem decide_failed {reload : Except IoError Rules} {error : IoError} :
    s.control = .decide now → s.nextConfigReload ≤ now ∨ s.reloadRequested = true →
    reload = .error error →
    step cfg s (.control (.decide reload)) = some
      ({ s with
          reloadRequested := false
          reloadResponses := []
          nextConfigReload := s.now + cfg.configReloadInterval
          control := .pass },
        s.reloadResponses.map fun stream => .reloadReply stream false) := by
  intro hpc hdue hreload
  simp only [step, controlStep, hpc, hreload]
  rw [if_pos hdue]
  rfl

/-- One that does not fail goes on to the purge, and nothing is changed before. -/
theorem decide_parsed {reload : Except IoError Rules} {new : Rules} :
    s.control = .decide now → s.nextConfigReload ≤ now ∨ s.reloadRequested = true →
    reload = .ok new →
    step cfg s (.control (.decide reload)) = some
      ({ s with reloadRequested := false, control := .purge new s.reloadRequested }, []) := by
  intro hpc hdue hreload
  simp only [step, controlStep, hpc, hreload]
  rw [if_pos hdue]

/-- The rules go into the channel, and the control worker has them itself. -/
theorem handed_over {new : Rules} {requested : Bool} :
    s.control = .send new requested → s.decrypt ≠ .stopped →
    ∃ s', step cfg s (.control .send) = some (s', []) ∧
      s'.controlRules = new ∧ s'.channel = s.channel ++ [⟨s.sent + 1, new, requested⟩] ∧
      s'.sessions = s.sessions ∧ s'.rules = s.rules := by
  intro hpc hrun
  cases requested <;> cases hdecrypt : s.decrypt
  case false.stopped | true.stopped => exact absurd hdecrypt hrun
  all_goals
    simp only [step, controlStep, hpc, hdecrypt]
    exact ⟨_, rfl, rfl, rfl, rfl, rfl⟩

/-- The decrypt worker takes the rules, and the acceptor with them. -/
theorem taken_over {update : ReloadUpdate} {channel : List ReloadUpdate} :
    s.decrypt = .adoptReload → s.channel = update :: channel → ∀ tr,
    ∃ s' evs, step cfg s (.decrypt .adoptReload) = some (s', evs) ∧
      s'.rules = update.rules ∧ s'.channel = channel ∧ s'.sessions = s.sessions ∧
      acceptorOf (tr ++ evs) = update.number := by
  intro hpc hchannel tr
  simp only [step, decryptStep, hpc, hchannel]
  refine ⟨_, _, rfl, rfl, rfl, rfl, ?_⟩
  rw [acceptorOf, List.filterMap_append]
  exact List.getLastD_concat ..

/-- Who survives a purge. -/
theorem mem_reloadPurge_iff {logins : AList fun _ : Ipv4Addr => String × String} {new : Rules}
    {sessions : List Session} {x : Session} :
    x ∈ sessions → x.established = true →
    (x ∈ (reloadPurge logins new sessions).1 ↔ x.Retained logins new) := by
  intro hx hest
  constructor
  · intro h
    obtain ⟨-, -, hbound, hlogins⟩ := mem_reloadPurge h
    exact ⟨hbound, hlogins⟩
  · rintro ⟨⟨f, hf, hbound⟩, hlogins⟩
    refine List.mem_filter.mpr ⟨hx, ?_⟩
    simp only [authorized, Bool.and_eq_true, beq_iff_eq, Option.any_eq_true]
    exact ⟨⟨hest, f, hf, hbound⟩, hlogins⟩

end Passes

/-! ## The two workers -/

/-- What the control worker and the decrypt worker have of a reload. -/
structure ReloadExchange where
  control : ControlPc
  reloadRequested : Bool
  reloadResponses : List Nat
  controlRules : Rules
  channel : List ReloadUpdate
  sent : Nat
  acknowledged : List Nat
  rules : Rules

def ServerState.exchange (s : ServerState) : ReloadExchange :=
  { control := s.control, reloadRequested := s.reloadRequested
    reloadResponses := s.reloadResponses, controlRules := s.controlRules, channel := s.channel
    sent := s.sent, acknowledged := s.acknowledged, rules := s.rules }

/-- Nobody who waits for a reload is answered. -/
def Unreplied (evs : List Event) : Prop := ∀ stream ok, .reloadReply stream ok ∉ evs

inductive ReloadExchange.Step (e : ReloadExchange) : Action → ReloadExchange → List Event → Prop
  | aside {a : Action} {evs : List Event} : Unreplied evs → ReloadExchange.Step e a e evs
  | pass {commands : List Command} {calls : Nat → RetransmitCall} {now : Instant}
      {evs : List Event} :
      e.control = .pass → Unreplied evs →
      ReloadExchange.Step e (.control (.pass commands calls))
        { e with
          reloadRequested := e.reloadRequested || commands.any (·.reloadStream.isSome)
          reloadResponses := e.reloadResponses ++ commands.filterMap Command.reloadStream
          control := .decide now } evs
  | skipped {reload : Except IoError Rules} {now : Instant} :
      e.control = .decide now → e.reloadRequested = false →
      ReloadExchange.Step e (.control (.decide reload))
        { e with reloadRequested := false, control := .pass } []
  | failed {reload : Except IoError Rules} {now : Instant} :
      e.control = .decide now →
      ReloadExchange.Step e (.control (.decide reload))
        { e with reloadRequested := false, reloadResponses := [], control := .pass }
        (e.reloadResponses.map fun stream => .reloadReply stream false)
  | parsed {new : Rules} {now : Instant} :
      e.control = .decide now →
      ReloadExchange.Step e (.control (.decide (.ok new)))
        { e with reloadRequested := false, control := .purge new e.reloadRequested } []
  | purged {new : Rules} {requested : Bool} {evs : List Event} :
      e.control = .purge new requested → Unreplied evs →
      ReloadExchange.Step e (.control .purge) { e with control := .send new requested } evs
  | sent {new : Rules} {requested : Bool} :
      e.control = .send new requested →
      ReloadExchange.Step e (.control .send)
        { e with
          controlRules := new
          channel := e.channel ++ [⟨e.sent + 1, new, requested⟩]
          sent := e.sent + 1
          control := if requested then .respond (e.sent + 1) else .pass } []
  | stopped {a : ControlAction} {rules : Rules} :
      ReloadExchange.Step e (.control a) { e with controlRules := rules, control := .stopped } []
  | answered {number : Nat} {ok : Bool} :
      e.control = .respond number → (ok = true → number ∈ e.acknowledged) →
      ReloadExchange.Step e (.control (.respond ok)) { e with reloadResponses := [], control := .pass }
        (e.reloadResponses.map fun stream => .reloadReply stream ok)
  | adopted {update : ReloadUpdate} {channel : List ReloadUpdate} :
      e.channel = update :: channel →
      ReloadExchange.Step e (.decrypt .adoptReload)
        { e with
          rules := update.rules
          channel := channel
          acknowledged :=
            if update.requested then e.acknowledged ++ [update.number] else e.acknowledged }
        [.adopted update.number]

section Steps

variable {cfg : ServerConfig} {rules : Rules} {now : Instant} {s s' : ServerState} {a : Action}
  {evs : List Event}

theorem unreplied_nil : Unreplied [] := fun _ _ => List.not_mem_nil

theorem unreplied_dropAll {removed : List Session} : Unreplied (dropAll removed) := by
  intro stream ok h
  obtain ⟨x, -, hx⟩ := List.mem_map.mp h
  cases hx

theorem establishSession_unreplied {before index : Nat} {c : Certified} {sessions : List Session}
    {x : Session} : Unreplied (establishSession cfg now rules before c sessions index x).2 := by
  intro stream ok
  unfold establishSession
  generalize (rules.logins.lookup c.address).isNone = authenticated
  dsimp only
  generalize (if authenticated = true then AUTH_OK else AUTH_REQUIRED) = message
  split
  · simp
  · split
    · rw [List.mem_append, not_or]
      exact ⟨by simp, unreplied_dropAll stream ok⟩
    · simp

theorem continueHandshake_unreplied {call : HandshakeCall} {before index : Nat}
    {sessions : List Session} {x : Session} :
    Unreplied (continueHandshake cfg now rules call before sessions index x).2 := by
  intro stream ok
  unfold continueHandshake
  dsimp only
  split
  · simp
  · exact List.not_mem_nil
  · split
    · simp
    · exact establishSession_unreplied stream ok

theorem processDatagram_unreplied {call : HandshakeCall} {incoming : Packet} {newSession : Bool}
    {sessions : List Session} {index : Nat} :
    Unreplied (processDatagram cfg now rules call incoming newSession sessions index).2 := by
  unfold processDatagram
  cases sessions[index]? with
  | none => exact unreplied_nil
  | some x =>
      dsimp only
      generalize (if newSession = true then (x, true)
        else injectIncoming now call.inject incoming x) = r
      split
      · exact continueHandshake_unreplied
      · exact unreplied_nil

theorem AdmissionEffect.unreplied {datagram : UdpDatagram} {limiter : IpRateLimiter}
    {sessions : List Session} {next : Nat} {r : Admission} :
    AdmissionEffect cfg now datagram limiter sessions next r → Unreplied r.events := by
  intro h
  cases h with
  | turnedAway _ _ => exact unreplied_nil
  | banned _ _ => exact unreplied_dropAll
  | failed _ _ _ => exact unreplied_dropAll
  | admitted _ _ _ _ _ _ _ _ _ =>
      intro stream ok h
      rcases List.mem_append.mp h with h | h
      · exact unreplied_dropAll stream ok h
      · cases List.mem_singleton.mp h

theorem Effect.exchange {a : DecryptAction} :
    Effect cfg s (.decrypt a) s' evs → a ≠ .adoptReload →
    s.exchange.Step (.decrypt a) s'.exchange evs := by
  intro h hadopt
  cases h with
  | idle ha => cases ha
  | removed ha => cases ha
  | moved => exact .aside unreplied_nil
  | drained =>
      refine .aside fun stream ok hev => ?_
      obtain ⟨x, -, hev, -⟩ := drainSessions_events _ _ _ hev
      cases drainSession_events _ hev
  | deduplicated => exact .aside unreplied_dropAll
  | adopted => exact absurd rfl hadopt
  | @admission call datagram _ _ _ _ _ hadmit _ =>
      have heff := admitPeer_effect cfg s.now call datagram s.handshakeLimiter s.sessions s.nextSerial
      rw [← hadmit] at heff
      exact .aside heff.unreplied
  | processed _ hr =>
      rw [hr]
      exact .aside processDatagram_unreplied

theorem decryptStep_exchange {a : DecryptAction} :
    decryptStep cfg s a = some (s', evs) → s.exchange.Step (.decrypt a) s'.exchange evs := by
  intro h
  by_cases hadopt : a = .adoptReload
  · subst hadopt
    simp only [decryptStep] at h
    split at h
    · rename_i update channel _ _ hchannel
      obtain ⟨rfl, rfl⟩ := Prod.mk.inj (Option.some.inj h)
      exact .adopted (e := s.exchange) hchannel
    · obtain ⟨rfl, rfl⟩ := Prod.mk.inj (Option.some.inj h)
      exact .aside unreplied_nil
    · obtain ⟨rfl, rfl⟩ := Prod.mk.inj (Option.some.inj h)
      exact .aside unreplied_nil
    · cases h
  · exact (decryptStep_cases h).exchange hadopt

theorem encryptStep_exchange {a : EncryptAction} :
    encryptStep cfg s a = some (s', evs) → s.exchange.Step (.encrypt a) s'.exchange evs := by
  intro h
  cases a with
  | take | flush =>
      simp only [encryptStep] at h
      split at h
      · obtain ⟨rfl, rfl⟩ := Prod.mk.inj (Option.some.inj h)
        exact .aside unreplied_nil
      · cases h
  | route calls =>
      simp only [encryptStep] at h
      split at h
      · obtain ⟨rfl, rfl⟩ := Prod.mk.inj (Option.some.inj h)
        refine .aside fun stream ok hev => ?_
        obtain ⟨-, x, -, -, heq⟩ := routePacket_queued _ hev
        cases heq
      · cases h

theorem controlStep_exchange {a : ControlAction} :
    controlStep cfg s a = some (s', evs) → s.exchange.Step (.control a) s'.exchange evs := by
  intro h
  cases a with
  | pass commands calls =>
      simp only [controlStep] at h
      split at h
      · rename_i hpc _
        obtain ⟨rfl, rfl⟩ := Prod.mk.inj (Option.some.inj h)
        obtain ⟨removed, hdropped⟩ := (controlPass_shrinks cfg s.now commands calls s.sessions).dropped
        refine .pass (e := s.exchange) hpc ?_
        rw [hdropped]
        exact unreplied_dropAll
      · cases h
  | decide reload =>
      simp only [controlStep] at h
      split at h
      · rename_i now hpc
        split at h
        · split at h
          · obtain ⟨rfl, rfl⟩ := Prod.mk.inj (Option.some.inj h)
            exact .parsed (e := s.exchange) hpc
          · obtain ⟨rfl, rfl⟩ := Prod.mk.inj (Option.some.inj h)
            exact .failed (e := s.exchange) hpc
        · rename_i hdue
          obtain ⟨rfl, rfl⟩ := Prod.mk.inj (Option.some.inj h)
          refine .skipped (e := s.exchange) hpc ?_
          exact Bool.eq_false_iff.mpr fun hrequested => hdue (.inr hrequested)
      · cases h
  | purge =>
      simp only [controlStep] at h
      split at h
      · rename_i hpc _
        obtain ⟨rfl, rfl⟩ := Prod.mk.inj (Option.some.inj h)
        exact .purged (e := s.exchange) hpc unreplied_dropAll
      · cases h
  | send =>
      simp only [controlStep] at h
      split at h
      · obtain ⟨rfl, rfl⟩ := Prod.mk.inj (Option.some.inj h)
        exact .stopped
      · rename_i new requested _ hpc _
        have hsent := ReloadExchange.Step.sent (e := s.exchange) hpc
        split at h
        · rename_i hrequested
          obtain ⟨rfl, rfl⟩ := Prod.mk.inj (Option.some.inj h)
          rw [if_pos hrequested] at hsent
          exact hsent
        · rename_i hrequested
          obtain ⟨rfl, rfl⟩ := Prod.mk.inj (Option.some.inj h)
          rw [if_neg hrequested] at hsent
          exact hsent
      · cases h
  | respond answered =>
      simp only [controlStep] at h
      split at h
      · rename_i number hpc
        split at h
        · cases h
        · rename_i hwait
          obtain ⟨rfl, rfl⟩ := Prod.mk.inj (Option.some.inj h)
          refine .answered (e := s.exchange) hpc fun hok => ?_
          have hmem : number ∈ s.acknowledged := by simpa [hok] using hwait
          exact hmem
      · cases h
  | fail =>
      simp only [controlStep] at h
      split at h
      · obtain ⟨rfl, rfl⟩ := Prod.mk.inj (Option.some.inj h)
        exact .stopped
      · cases h

/-- What one step does to a reload under way. -/
theorem step_exchange :
    step cfg s a = some (s', evs) → s.exchange.Step a s'.exchange evs := by
  intro h
  cases a with
  | tick | deactivate | shutdown | tunReadFailed | udpReceived | tunReceived =>
      obtain ⟨rfl, rfl⟩ := Prod.mk.inj (Option.some.inj h)
      exact .aside unreplied_nil
  | decrypt a => exact decryptStep_exchange h
  | encrypt a => exact encryptStep_exchange h
  | udpWrite calls =>
      simp only [step] at h
      split at h
      · obtain ⟨rfl, rfl⟩ := Prod.mk.inj (Option.some.inj h)
        obtain ⟨removed, hdropped⟩ := (udpWritePass_shrinks s.now calls s.sessions).dropped
        refine .aside ?_
        rw [hdropped]
        exact unreplied_dropAll
      · cases h
  | control a => exact controlStep_exchange h

end Steps

/-! ## The hand-over -/

/-- Updates are numbered in the order in which they are handed over; those in
the channel were not acknowledged, and the last is the control worker's copy. -/
structure Handover (e : ReloadExchange) : Prop where
  sent : ∀ update ∈ e.channel, update.number ≤ e.sent
  sorted : e.channel.Pairwise fun update later => update.number < later.number
  acknowledged : ∀ number ∈ e.acknowledged, number ≤ e.sent ∧
    ∀ update ∈ e.channel, number < update.number
  copy : e.control ≠ .stopped → e.controlRules = (e.channel.map (·.rules)).getLastD e.rules

section Handover

variable {e e' : ReloadExchange} {a : Action} {evs : List Event}

/-- When the last update is acknowledged, the decrypt worker has its rules. -/
theorem Handover.taken (h : Handover e) :
    e.control ≠ .stopped → e.sent ∈ e.acknowledged → e.rules = e.controlRules := by
  intro hpc hack
  have hchannel : e.channel = [] := List.eq_nil_iff_forall_not_mem.mpr fun update hupdate =>
    absurd ((h.acknowledged _ hack).2 update hupdate) (Nat.not_lt.mpr (h.sent update hupdate))
  rw [h.copy hpc, hchannel]
  rfl

/-- The update with the last number has the control worker's copy. -/
theorem Handover.last {update : ReloadUpdate} {channel : List ReloadUpdate} (h : Handover e) :
    e.control ≠ .stopped → e.channel = update :: channel → update.number = e.sent →
    update.rules = e.controlRules := by
  intro hpc hchannel hnumber
  have hsorted := h.sorted
  rw [hchannel] at hsorted
  have hnil : channel = [] := List.eq_nil_iff_forall_not_mem.mpr fun later hlater =>
    absurd ((List.pairwise_cons.mp hsorted).1 later hlater) <| Nat.not_lt.mpr <|
      hnumber ▸ h.sent later (hchannel ▸ List.mem_cons_of_mem _ hlater)
  rw [h.copy hpc, hchannel, hnil]
  rfl

theorem Handover.send {control : ControlPc} {new : Rules} {requested : Bool} (h : Handover e) :
    Handover { e with
      controlRules := new
      channel := e.channel ++ [⟨e.sent + 1, new, requested⟩]
      sent := e.sent + 1
      control := control } := by
  refine ⟨fun update hupdate => ?_, ?_, fun number hnumber => ?_, fun _ => ?_⟩
  · rcases List.mem_append.mp hupdate with hupdate | hupdate
    · exact Nat.le_succ_of_le (h.sent update hupdate)
    · rw [List.mem_singleton.mp hupdate]
  · refine List.pairwise_append.mpr ⟨h.sorted, List.pairwise_singleton _ _, ?_⟩
    intro update hupdate later hlater
    rw [List.mem_singleton.mp hlater]
    exact Nat.lt_succ_of_le (h.sent update hupdate)
  · obtain ⟨hle, hlt⟩ := h.acknowledged number hnumber
    refine ⟨Nat.le_succ_of_le hle, fun update hupdate => ?_⟩
    rcases List.mem_append.mp hupdate with hupdate | hupdate
    · exact hlt update hupdate
    · rw [List.mem_singleton.mp hupdate]
      exact Nat.lt_succ_of_le hle
  · rw [List.map_append]
    exact List.getLastD_concat.symm

theorem Handover.adopt {update : ReloadUpdate} {channel : List ReloadUpdate} (h : Handover e) :
    e.channel = update :: channel →
    Handover { e with
      rules := update.rules
      channel := channel
      acknowledged :=
        if update.requested then e.acknowledged ++ [update.number] else e.acknowledged } := by
  intro hchannel
  obtain ⟨hsent, hsorted, hacknowledged, hcopy⟩ := h
  rw [hchannel] at hsent hsorted hacknowledged hcopy
  obtain ⟨hfirst, hsorted⟩ := List.pairwise_cons.mp hsorted
  refine ⟨fun later hlater => hsent later (List.mem_cons_of_mem _ hlater), hsorted,
    fun number hnumber => ?_, fun hpc => ?_⟩
  · have hcases : number ∈ e.acknowledged ∨ number = update.number := by
      dsimp only at hnumber
      split at hnumber
      · exact (List.mem_append.mp hnumber).imp_right List.mem_singleton.mp
      · exact .inl hnumber
    rcases hcases with hold | rfl
    · obtain ⟨hle, hlt⟩ := hacknowledged number hold
      exact ⟨hle, fun later hlater => hlt later (List.mem_cons_of_mem _ hlater)⟩
    · exact ⟨hsent update List.mem_cons_self, hfirst⟩
  · have hlast := hcopy hpc
    rw [List.map_cons, List.getLastD_cons] at hlast
    exact hlast

theorem ReloadExchange.Step.handover : e.Step a e' evs → Handover e → Handover e' := by
  intro h hh
  have hmoved : ∀ {control : ControlPc} {requested : Bool} {streams : List Nat},
      e.control ≠ .stopped → Handover { e with
        control := control, reloadRequested := requested, reloadResponses := streams } :=
    fun hpc => ⟨hh.sent, hh.sorted, hh.acknowledged, fun _ => hh.copy hpc⟩
  cases h with
  | aside _ => exact hh
  | pass hpc _ => exact hmoved (by simp [hpc])
  | skipped hpc _ => exact hmoved (by simp [hpc])
  | failed hpc => exact hmoved (by simp [hpc])
  | parsed hpc => exact hmoved (by simp [hpc])
  | purged hpc _ => exact hmoved (by simp [hpc])
  | sent _ => exact hh.send
  | stopped => exact ⟨hh.sent, hh.sorted, hh.acknowledged, fun hpc => absurd rfl hpc⟩
  | answered hpc _ => exact hmoved (by simp [hpc])
  | adopted hchannel => exact hh.adopt hchannel

end Handover

/-! ## What came before an answer -/

/-- A pass took the commands, and these are the streams of its `RELOAD`s. -/
def Received (as : List Action) (streams : List Nat) : Prop :=
  ∃ before commands calls after, as = before ++ .control (.pass commands calls) :: after ∧
    streams = commands.filterMap Command.reloadStream

/-- After that the file was read, and this came of it. -/
def Parsed (as : List Action) (streams : List Nat) (new : Rules) : Prop :=
  ∃ before after, as = before ++ .control (.decide (.ok new)) :: after ∧ Received before streams

/-- After that again the decrypt worker took it from the channel, in this run. -/
def Adopted (cfg : ServerConfig) (rules : Rules) (as : List Action) (streams : List Nat)
    (new : Rules) : Prop :=
  ∃ before tr s update channel after, as = before ++ .decrypt .adoptReload :: after ∧
    Parsed before streams new ∧ (server cfg rules).Run Machine.Free before tr s ∧
    s.channel = update :: channel ∧ update.rules = new

/-- What has become of the commands that the control worker has yet to answer. -/
def Served (cfg : ServerConfig) (rules : Rules) (as : List Action) (e : ReloadExchange) : Prop :=
  match e.control with
  | .pass => e.reloadRequested = false ∧ e.reloadResponses = []
  | .decide _ =>
      Received as e.reloadResponses ∧ (e.reloadRequested = false → e.reloadResponses = [])
  | .purge new requested | .send new requested =>
      e.reloadRequested = false ∧ Parsed as e.reloadResponses new ∧
        (requested = false → e.reloadResponses = [])
  | .respond number =>
      e.reloadRequested = false ∧ number = e.sent ∧ Parsed as e.reloadResponses e.controlRules ∧
        (number ∈ e.acknowledged → Adopted cfg rules as e.reloadResponses e.controlRules)
  | .stopped => True

section Served

variable {cfg : ServerConfig} {rules new : Rules} {as : List Action} {streams : List Nat}
  {e e' : ReloadExchange} {a : Action} {evs : List Event} {tr : List Event} {s : ServerState}

theorem Received.append (h : Received as streams) (after : List Action) :
    Received (as ++ after) streams := by
  obtain ⟨before, commands, calls, rest, rfl, hstreams⟩ := h
  exact ⟨before, commands, calls, rest ++ after, by simp, hstreams⟩

theorem Parsed.append (h : Parsed as streams new) (after : List Action) :
    Parsed (as ++ after) streams new := by
  obtain ⟨before, rest, rfl, hreceived⟩ := h
  exact ⟨before, rest ++ after, by simp, hreceived⟩

theorem Adopted.append (h : Adopted cfg rules as streams new) (after : List Action) :
    Adopted cfg rules (as ++ after) streams new := by
  obtain ⟨before, tr, s, update, channel, rest, rfl, hadopted⟩ := h
  exact ⟨before, tr, s, update, channel, rest ++ after, by simp, hadopted⟩

/-- A step that leaves the exchange as it is. -/
theorem Served.append (h : Served cfg rules as e) (after : List Action) :
    Served cfg rules (as ++ after) e := by
  unfold Served at h ⊢
  split at h
  · exact h
  · exact ⟨h.1.append after, h.2⟩
  · exact ⟨h.1, h.2.1.append after, h.2.2⟩
  · exact ⟨h.1, h.2.1.append after, h.2.2⟩
  · exact ⟨h.1, h.2.1, h.2.2.1.append after, fun hack => (h.2.2.2 hack).append after⟩
  · trivial

theorem reloadStreams_nil {commands : List Command} :
    commands.any (·.reloadStream.isSome) = false → commands.filterMap Command.reloadStream = [] := by
  intro h
  refine List.filterMap_eq_nil_iff.mpr fun command hcommand => ?_
  exact Option.not_isSome_iff_eq_none.mp (List.any_eq_false.mp h command hcommand)

/-- An update is adopted, and perhaps it is the one that is waited for. -/
theorem Served.adopt {update : ReloadUpdate} {channel : List ReloadUpdate}
    (h : Served cfg rules as s.exchange) :
    (server cfg rules).Run Machine.Free as tr s → Handover s.exchange →
    s.channel = update :: channel →
    Served cfg rules (as ++ [.decrypt .adoptReload]) { s.exchange with
      rules := update.rules
      channel := channel
      acknowledged :=
        if update.requested then s.acknowledged ++ [update.number] else s.acknowledged } := by
  intro hr hh hchannel
  unfold Served at h ⊢
  dsimp only
  split at h
  · exact h
  · exact ⟨h.1.append _, h.2⟩
  · exact ⟨h.1, h.2.1.append _, h.2.2⟩
  · exact ⟨h.1, h.2.1.append _, h.2.2⟩
  · rename_i number hpc
    obtain ⟨hrequested, hnumber, hparsed, hack⟩ := h
    refine ⟨hrequested, hnumber, hparsed.append _, fun hmem => ?_⟩
    have hcases : number ∈ s.acknowledged ∨ number = update.number := by
      split at hmem
      · exact (List.mem_append.mp hmem).imp_right List.mem_singleton.mp
      · exact .inl hmem
    rcases hcases with hold | hthis
    · exact (hack hold).append _
    · exact ⟨as, tr, s, update, channel, [], rfl, hparsed, hr, hchannel,
        hh.last (by simp [hpc]) hchannel (hthis.symm.trans hnumber)⟩
  · trivial

theorem ReloadExchange.Step.served :
    s.exchange.Step a e' evs → (server cfg rules).Run Machine.Free as tr s →
    Handover s.exchange → Served cfg rules as s.exchange → Served cfg rules (as ++ [a]) e' := by
  intro h hr hh hs
  cases h with
  | aside _ => exact hs.append _
  | @pass commands calls now _ hpc _ =>
      rw [Served, hpc] at hs
      obtain ⟨hrequested, hresponses⟩ := hs
      rw [hrequested, hresponses]
      exact ⟨⟨as, commands, calls, [], rfl, rfl⟩, reloadStreams_nil⟩
  | skipped hpc hrequested =>
      rw [Served, hpc] at hs
      exact ⟨rfl, hs.2 hrequested⟩
  | failed _ => exact ⟨rfl, rfl⟩
  | parsed hpc =>
      rw [Served, hpc] at hs
      exact ⟨rfl, ⟨as, [], rfl, hs.1⟩, hs.2⟩
  | purged hpc _ =>
      rw [Served, hpc] at hs
      exact ⟨hs.1, hs.2.1.append _, hs.2.2⟩
  | @sent new requested hpc =>
      rw [Served, hpc] at hs
      obtain ⟨hrequested, hparsed, hnone⟩ := hs
      cases requested with
      | false => exact ⟨hrequested, hnone rfl⟩
      | true =>
          refine ⟨hrequested, rfl, hparsed.append _, fun hack => ?_⟩
          exact absurd (hh.acknowledged _ hack).1 (Nat.not_succ_le_self _)
  | stopped => trivial
  | answered hpc _ =>
      rw [Served, hpc] at hs
      exact ⟨hs.1, rfl⟩
  | adopted hchannel => exact hs.adopt hr hh hchannel

theorem server_handover :
    (server cfg rules).Run Machine.Free as tr s → Handover s.exchange := by
  refine Machine.Run.invariant (fun _ (s : ServerState) => Handover s.exchange) ?_ ?_
  · exact ⟨fun _ h => absurd h List.not_mem_nil, List.Pairwise.nil,
      fun _ h => absurd h List.not_mem_nil, fun _ => rfl⟩
  · intro tr s a s' evs hh _ hs
    exact (step_exchange hs).handover hh

theorem server_served :
    (server cfg rules).Run Machine.Free as tr s → Served cfg rules as s.exchange := by
  intro hr
  induction hr with
  | start => exact ⟨rfl, rfl⟩
  | next hr _ hs ih => exact (step_exchange hs).served hr (server_handover hr) ih

/-- Only when it answers does the control worker log `ok=true`. -/
theorem ReloadExchange.Step.replied {stream : Nat} :
    e.Step a e' evs → .reloadReply stream true ∈ evs →
    ∃ number, e.control = .respond number ∧ number ∈ e.acknowledged ∧ stream ∈ e.reloadResponses := by
  intro h hev
  cases h with
  | aside hquiet => exact absurd hev (hquiet stream true)
  | pass _ hquiet => exact absurd hev (hquiet stream true)
  | purged _ hquiet => exact absurd hev (hquiet stream true)
  | skipped _ _ => exact absurd hev List.not_mem_nil
  | parsed _ => exact absurd hev List.not_mem_nil
  | sent _ => exact absurd hev List.not_mem_nil
  | stopped => exact absurd hev List.not_mem_nil
  | failed _ =>
      obtain ⟨_, -, heq⟩ := List.mem_map.mp hev
      cases heq
  | @answered number ok hpc hack =>
      obtain ⟨stream', hmem, heq⟩ := List.mem_map.mp hev
      obtain ⟨rfl, rfl⟩ := Event.reloadReply.inj heq
      exact ⟨number, hpc, hack rfl, hmem⟩
  | adopted _ => cases List.mem_singleton.mp hev

/-- When a requester is told `ok=true`, the decrypt worker has the rules that
were read after the command came. -/
theorem reload_replied {stream : Nat} {s' : ServerState} :
    (server cfg rules).Run Machine.Free as tr s → step cfg s a = some (s', evs) →
    .reloadReply stream true ∈ evs →
    ∃ streams, stream ∈ streams ∧ Adopted cfg rules as streams s.rules := by
  intro hr hs hev
  obtain ⟨number, hpc, hack, hmem⟩ := (step_exchange hs).replied hev
  have hh := server_handover hr
  have hserved := server_served hr
  rw [Served, hpc] at hserved
  obtain ⟨-, rfl, -, hadopted⟩ := hserved
  have hrules : s.rules = s.controlRules := hh.taken (by simp [hpc]) hack
  rw [hrules]
  exact ⟨s.reloadResponses, hmem, hadopted hack⟩

end Served

/-! ## The contract of a reload -/

section Contract

/-- **Reload atomicity and honest replies.**  A reload that fails changes
neither copy of the rules, nor the sessions, nor the acceptor, and all who wait
are told.  It fails unless the file is read, both tables of it are accepted and
the acceptor is made; then those tables are what the sessions are purged for,
and the established ones survive by their binding and login.  The control worker
adopts the tables as it hands them over, and the decrypt worker with the
acceptor.  `ok=true` is the answer only when the decrypt worker has adopted what
was parsed after the command. -/
theorem reload_contract (cfg : ServerConfig) (rules : Rules) :
    (∀ vpnAddress vpnNetwork file acceptor s now tr,
      s.control = .decide now → s.nextConfigReload ≤ now ∨ s.reloadRequested = true →
      ReloadFails vpnAddress vpnNetwork file acceptor →
      ∃ s' evs, step cfg s (.control
          (.decide (reloadRules vpnAddress vpnNetwork file acceptor))) = some (s', evs) ∧
        s'.controlRules = s.controlRules ∧ s'.sessions = s.sessions ∧ s'.rules = s.rules ∧
        s'.channel = s.channel ∧ acceptorOf (tr ++ evs) = acceptorOf tr ∧
        s'.reloadResponses = [] ∧
        evs = s.reloadResponses.map fun stream => .reloadReply stream false) ∧
    (∀ vpnAddress vpnNetwork text logins bindings s now,
      s.control = .decide now → s.nextConfigReload ≤ now ∨ s.reloadRequested = true →
      clientLogins (parseIniEntries text "client") = .ok logins →
      validateClientBindings (parseIniEntries text "client") vpnAddress vpnNetwork = .ok bindings →
      step cfg s (.control (.decide (reloadRules vpnAddress vpnNetwork (.ok text) (.ok ())))) =
        some ({ s with
          reloadRequested := false
          control := .purge { bindings := bindings, logins := logins } s.reloadRequested }, [])) ∧
    (∀ vpnAddress vpnNetwork file acceptor,
      ReloadFails vpnAddress vpnNetwork file acceptor ∧
          (∃ error, reloadRules vpnAddress vpnNetwork file acceptor = .error error) ∨
        ∃ new, ReloadSucceeds vpnAddress vpnNetwork file acceptor new ∧
          reloadRules vpnAddress vpnNetwork file acceptor = .ok new) ∧
    (∀ s new requested, s.control = .purge new requested → s.lockFree = true →
      ∃ kept evs, step cfg s (.control .purge) =
          some ({ s with sessions := kept, control := .send new requested }, evs) ∧
        (∀ x ∈ kept, x ∈ s.sessions) ∧
        ∀ x ∈ s.sessions, x.established = true →
          (x ∈ kept ↔ x.Retained s.controlRules.logins new)) ∧
    (∀ s new requested, s.control = .send new requested → s.decrypt ≠ .stopped →
      ∃ s', step cfg s (.control .send) = some (s', []) ∧
        s'.controlRules = new ∧ s'.channel = s.channel ++ [⟨s.sent + 1, new, requested⟩] ∧
        s'.sessions = s.sessions ∧ s'.rules = s.rules) ∧
    (∀ s update channel tr, s.decrypt = .adoptReload → s.channel = update :: channel →
      ∃ s' evs, step cfg s (.decrypt .adoptReload) = some (s', evs) ∧
        s'.rules = update.rules ∧ s'.channel = channel ∧ s'.sessions = s.sessions ∧
        acceptorOf (tr ++ evs) = update.number) ∧
    ∀ as tr s a s' evs stream, (server cfg rules).Run Machine.Free as tr s →
      step cfg s a = some (s', evs) → .reloadReply stream true ∈ evs →
      ∃ streams, stream ∈ streams ∧ Adopted cfg rules as streams s.rules := by
  refine ⟨?_, ?_, ?_, ?_, ?_, ?_, fun _ _ _ _ _ _ _ => reload_replied⟩
  · intro vpnAddress vpnNetwork file acceptor s now tr hpc hdue hfails
    obtain ⟨error, hreload⟩ := reloadRules_error hfails
    exact ⟨_, _, decide_failed hpc hdue hreload, rfl, rfl, rfl, rfl, acceptorOf_replies .., rfl, rfl⟩
  · intro vpnAddress vpnNetwork text logins bindings s now hpc hdue hlogins hbindings
    exact decide_parsed hpc hdue (reloadRules_ok_iff.mpr (.tables hlogins hbindings))
  · intro vpnAddress vpnNetwork file acceptor
    exact (reload_cases vpnAddress vpnNetwork file acceptor).imp
      (fun hfails => ⟨hfails, reloadRules_error hfails⟩)
      fun ⟨new, hnew⟩ => ⟨new, hnew, reloadRules_ok_iff.mpr hnew⟩
  · intro s new requested hpc hlock
    refine ⟨(reloadPurge s.controlRules.logins new s.sessions).1,
      (reloadPurge s.controlRules.logins new s.sessions).2, ?_, fun x hx => (mem_reloadPurge hx).1,
      fun _ => mem_reloadPurge_iff⟩
    simp only [step, controlStep, hpc, hlock]
  · intro s new requested hpc hrun
    exact handed_over hpc hrun
  · intro s update channel tr hpc hchannel
    exact taken_over hpc hchannel tr

end Contract

/-! ## A file that binds one of two clients -/

namespace Sample

def serverAddress : Ipv4Addr := Ipv4Addr.new 10 9 1 1

def network : Text := "10.9.1.0/24".toList

def oneBound : Text :=
  "[client]\n10.9.1.2 = aaaaaaaaaaaaaaaaaaaaaaaaaaaaaaaaaaaaaaaaaaaaaaaaaaaaaaaaaaaaaaaa\n".toList

def oneBoundRules : Except IoError Rules :=
  reloadRules serverAddress network (.ok oneBound) (.ok ())

/-- Both clients are connected when the command comes. -/
def commanded : List Action :=
  bothConnect ++ [.control (.pass [.reload 1] fun _ => ⟨⟨.ok (), []⟩, 0⟩)]

/-- The file is read, and its rules are handed over. -/
def revoking : List Action :=
  commanded ++ [.control (.decide oneBoundRules), .control .purge] ++ adopt

end Sample

/-- The tables of the file: only the first client is bound, and nobody logs in. -/
theorem ok_of_any {ε α : Type} {r : Except ε α} {p : α → Bool} :
    r.toOption.any p = true → ∃ a, r = .ok a ∧ p a = true := by
  intro h
  cases r with
  | ok a => exact ⟨a, rfl, h⟩
  | error _ => cases h

theorem tables_oneBound :
    ∃ logins bindings,
      clientLogins (parseIniEntries Sample.oneBound "client") = .ok logins ∧
      validateClientBindings (parseIniEntries Sample.oneBound "client") Sample.serverAddress
        Sample.network = .ok bindings ∧
      logins.lookup Sample.address = none ∧ logins.lookup Sample.address' = none ∧
      bindings.lookup Sample.address = some Sample.fingerprint ∧
      bindings.lookup Sample.address' = none := by
  have hlogins : (clientLogins (parseIniEntries Sample.oneBound "client")).toOption.any
      (fun logins => decide (logins.lookup Sample.address = none ∧
        logins.lookup Sample.address' = none)) = true := by decide +kernel
  have hbindings : (validateClientBindings (parseIniEntries Sample.oneBound "client")
      Sample.serverAddress Sample.network).toOption.any
      (fun bindings => decide (bindings.lookup Sample.address = some Sample.fingerprint ∧
        bindings.lookup Sample.address' = none)) = true := by decide +kernel
  obtain ⟨logins, hlogins, hlookups⟩ := ok_of_any hlogins
  obtain ⟨bindings, hbindings, hbound⟩ := ok_of_any hbindings
  obtain ⟨hnone, hnone'⟩ := of_decide_eq_true hlookups
  exact ⟨logins, bindings, hlogins, hbindings, hnone, hnone', of_decide_eq_true hbound⟩

/-- The first client stays, the other is removed, and then the command is answered. -/
theorem reload_contract_oneBound :
    ∃ tr s, (server Sample.twoPlaces Sample.twoClients).Run Machine.Free Sample.commanded tr s ∧
      ∃ x ∈ s.sessions, ∃ y ∈ s.sessions, x.established = true ∧ y.established = true ∧
        ∃ s₁ s₂ evs, step Sample.twoPlaces s (.control (.decide Sample.oneBoundRules)) =
            some (s₁, []) ∧
          step Sample.twoPlaces s₁ (.control .purge) = some (s₂, evs) ∧
          x ∈ s₂.sessions ∧ y ∉ s₂.sessions ∧
          ∃ s₃, step Sample.twoPlaces s₂ (.control .send) = some (s₃, []) ∧
            s₃.controlRules.bindings.lookup Sample.address' = none ∧
            ∃ streams, 1 ∈ streams ∧ Adopted Sample.twoPlaces Sample.twoClients Sample.revoking
              streams (Sample.outcome₂ Sample.revoking).1.rules := by
  obtain ⟨logins, bindings, hlogins, hbindings, hlogin, hlogin', hbound, hbound'⟩ :=
    tables_oneBound
  obtain ⟨-, hdecide, -, hpurge, hsend, -, hreplied⟩ :=
    reload_contract Sample.twoPlaces Sample.twoClients
  have hr : (server Sample.twoPlaces Sample.twoClients).Run Machine.Free Sample.commanded
      (Sample.outcome₂ Sample.commanded).2 (Sample.outcome₂ Sample.commanded).1 :=
    run_sample₂ (by decide +kernel)
  generalize houtcome : Sample.outcome₂ Sample.commanded = r at hr
  -- Two sessions, of the two clients, and no logins so far.
  have hsessions : (r.1.sessions.any fun x => x.established && x.address == Sample.address &&
      x.fingerprint == some Sample.fingerprint) = true ∧
      (r.1.sessions.any fun x => x.established && x.address == Sample.address') = true ∧
      r.1.controlRules.logins.lookup Sample.address = none := by
    rw [← houtcome]
    decide +kernel
  obtain ⟨hfirst, hsecond, hnone⟩ := hsessions
  obtain ⟨x, hx, hfields⟩ := List.any_eq_true.mp hfirst
  obtain ⟨y, hy, hfields'⟩ := List.any_eq_true.mp hsecond
  simp only [Bool.and_eq_true, beq_iff_eq] at hfields hfields'
  obtain ⟨⟨hest, haddr⟩, hfingerprint⟩ := hfields
  obtain ⟨hest', haddr'⟩ := hfields'
  have hpcs : r.1.control = .decide 0 ∧ r.1.reloadRequested = true ∧ r.1.decrypt = .drain := by
    rw [← houtcome]
    exact ⟨rfl, by decide +kernel, rfl⟩
  obtain ⟨hpc, hrequested, hdrain⟩ := hpcs
  have hdecided := hdecide _ _ _ _ _ r.1 0 hpc (.inr hrequested) hlogins hbindings
  obtain ⟨kept, evs, hpurged, -, hkept⟩ := hpurge { r.1 with
    reloadRequested := false
    control := .purge { bindings := bindings, logins := logins } r.1.reloadRequested } _ _ rfl
    (by simp only [ServerState.lockFree, hdrain])
  obtain ⟨s₃, hsent, hrules, -⟩ := hsend { r.1 with
    reloadRequested := false
    sessions := kept
    control := .send { bindings := bindings, logins := logins } r.1.reloadRequested } _ _ rfl
    (by simp [hdrain])
  refine ⟨r.2, r.1, hr, x, hx, y, hy, hest, hest', _, _, evs, hdecided, hpurged,
    (hkept x hx hest).mpr ⟨⟨_, hfingerprint, ?_⟩, ?_⟩, fun hmem => ?_, s₃, hsent, ?_, ?_⟩
  · rw [haddr]
    exact hbound
  · show r.1.controlRules.logins.lookup _ = logins.lookup _
    rw [haddr, hlogin, hnone]
  · obtain ⟨⟨f, -, hf⟩, -⟩ := (hkept y hy hest').mp hmem
    have hf : bindings.lookup y.address = some f := hf
    rw [haddr', hbound'] at hf
    cases hf
  · rw [hrules]
    exact hbound'
  · have hreply : ((step Sample.twoPlaces (Sample.outcome₂ Sample.revoking).1
        (.control (.respond true))).any fun r => r.2.any fun
          | .reloadReply stream ok => stream == 1 && ok
          | _ => false) = true := by decide +kernel
    obtain ⟨⟨s', evs'⟩, hs, hevs⟩ := (Option.any_eq_true _ _).mp hreply
    obtain ⟨ev, hev, hmatch⟩ := List.any_eq_true.mp hevs
    split at hmatch
    · simp only [Bool.and_eq_true, beq_iff_eq] at hmatch
      obtain ⟨rfl, rfl⟩ := hmatch
      exact hreplied _ _ _ _ _ _ _ (run_sample₂ (by decide +kernel)) hs hev
    · cases hmatch

end AutobricksVpn
