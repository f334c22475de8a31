/-
# `AutobricksVpn.Server.Reload` — the rules of a reload and the sessions under them

A reload is two steps of the control worker: under the session lock it removes
the sessions that the new rules do not admit, and later it sends the rules to
the decrypt worker, which adopts them at the top of an iteration.  In between
the decrypt worker admits sessions by the rules it has (`inFlight` are the rules
purged for and not adopted), and nothing looks at those sessions again.

So the sessions agree with the adopted rules as long as nobody is admitted whom
rules in flight refuse (`Unraced`, `reload_agreement`), and may disagree
otherwise (`revoked_client_stays`).  The invariant is that every session agrees
with the adopted rules and with all rules in flight; a purge needs it of the
control worker's own copy, which is the last of that chain.
-/
import AutobricksVpn.Server.Replace

namespace AutobricksVpn

/-! ## Agreement -/

/-- The entry has the fingerprint bound to its address and, if a login is
configured for it and it is authenticated, has presented that login. -/
structure Entry.AgreesWith (tr : List AccessEvent) (rules : Rules) (e : Entry) : Prop where
  bound : ∃ f, e.fingerprint = some f ∧ rules.bindings.lookup e.address = some f
  login : e.authenticated = true → ∀ pair, rules.logins.lookup e.address = some pair →
    ∃ credentials,
      .login e.serial e.address (loginFrame (asBytes pair.1) (asBytes pair.2)) credentials true ∈ tr

/-- Every established entry agrees with the rules. -/
def AccessTable.AgreesWith (tr : List AccessEvent) (rules : Rules) (t : AccessTable) : Prop :=
  ∀ e ∈ t.entries, e.established = true → e.AgreesWith tr rules

section Agreement

variable {tr : List AccessEvent} {rules rules' : Rules} {e : Entry} {t t' : AccessTable}

theorem Entry.AgreesWith.append (h : e.AgreesWith tr rules) (evs : List AccessEvent) :
    e.AgreesWith (tr ++ evs) rules :=
  ⟨h.bound, fun hauth pair hpair =>
    (h.login hauth pair hpair).imp fun _ hmem => List.mem_append_left _ hmem⟩

theorem AccessTable.AgreesWith.mono (h : t.AgreesWith tr rules)
    (hsub : ∀ e ∈ t'.entries, e.established = true → e ∈ t.entries) (evs : List AccessEvent) :
    t'.AgreesWith (tr ++ evs) rules :=
  fun e he hest => (h e (hsub e he hest) hest).append evs

theorem AccessTable.AgreesWith.append (h : t.AgreesWith tr rules) (evs : List AccessEvent) :
    t.AgreesWith (tr ++ evs) rules :=
  h.mono (fun _ he _ => he) evs

/-- A login judged by some rules agrees with others that have the same entry, or none. -/
theorem Entry.AgreesWith.logIn {frame : Packet} {evs : List AccessEvent}
    (h : e.AgreesWith tr rules')
    (hev : .login e.serial e.address frame (rules.logins.lookup e.address)
      (loginAccepted (rules.logins.lookup e.address) frame) ∈ evs)
    (hsame : loginAccepted (rules.logins.lookup e.address) frame = true →
      rules'.logins.lookup e.address = none ∨
        rules'.logins.lookup e.address = rules.logins.lookup e.address) :
    (e.logIn (loginAccepted (rules.logins.lookup e.address) frame)).AgreesWith (tr ++ evs) rules' := by
  refine ⟨h.bound, fun hauth pair hpair => ?_⟩
  have hok : loginAccepted (rules.logins.lookup e.address) frame = true := hauth
  have hpair : rules'.logins.lookup e.address = some pair := hpair
  rcases hsame hok with hnone | heq
  · exact nomatch hnone.symm.trans hpair
  · obtain ⟨id, password, hc, hframe⟩ := loginAccepted_eq hok
    have hpair' : pair = (id, password) := Option.some.inj (hpair.symm.trans (heq.trans hc))
    subst hpair'
    rw [hok] at hev
    refine ⟨rules.logins.lookup e.address, List.mem_append_right _ ?_⟩
    rw [show loginFrame (asBytes id) (asBytes password) = frame from hframe.symm]
    exact hev

end Agreement

/-! ## The guard -/

/-- There is a place for the client: a free one, or that of its own sessions. -/
def roomFor (cfg : ServerConfig) (sessions : List Session) (address : Ipv4Addr) : Prop :=
  sessions.countP (·.established) < cfg.maxClients ∨
    ∃ y ∈ sessions, y.established = true ∧ y.address = address

/-- Nobody is admitted by the rules of the decrypt worker whom rules in flight
refuse: no certificate is accepted that they do not bind, or that they want a
login for and the worker does not; and no login is accepted that they do not
configure so. -/
def Unraced (cfg : ServerConfig) (s : ServerState) : Action → Prop
  | .decrypt (.process call) =>
      ∀ incoming index newSession x c, s.decrypt = .process incoming index newSession →
        s.sessions[index]? = some x → x.established = false → call.handshake.result = .ok true →
        checkCertificate cfg s.rules call x.peer = some c → roomFor cfg s.sessions c.address →
        ∀ rules ∈ s.inFlight,
          rules.bindings.lookup c.address = some c.fingerprint ∧
          (s.rules.logins.lookup c.address = none → rules.logins.lookup c.address = none)
  | .decrypt (.drain calls) =>
      ∀ x ∈ s.sessions, acceptsLogin s.rules (calls x.serial) x = true → ∀ rules ∈ s.inFlight,
        rules.logins.lookup x.address = none ∨
          rules.logins.lookup x.address = s.rules.logins.lookup x.address
  | _ => True

/-! ## The invariant -/

structure ReloadInvariant (tr : List AccessEvent) (s : ServerState) : Prop where
  adopted : s.table.AgreesWith tr s.rules
  inFlight : s.decrypt ≠ .stopped → ∀ rules ∈ s.inFlight, s.table.AgreesWith tr rules
  control : s.decrypt ≠ .stopped → s.controlRules = (s.channel.map (·.rules)).getLastD s.rules

section Invariant

variable {cfg : ServerConfig} {rules : Rules} {s s' : ServerState} {a : Action}
  {tr : List AccessEvent} {evs : List Event}

theorem TableMoves.established_mem {kinds : List MoveKind} {t t' : AccessTable}
    {evs : List AccessEvent} :
    TableMoves cfg rules kinds t t' evs → .establish ∉ kinds → .login ∉ kinds →
    ∀ e ∈ t'.entries, e.established = true → e ∈ t.entries := by
  intro hm he hl
  induction hm with
  | refl => exact fun _ he _ => he
  | head hmove _ ih =>
      obtain ⟨k, hk, hmove⟩ := hmove
      intro x hx hest
      exact hmove.established_mem (fun heq => he (heq ▸ hk)) (fun heq => hl (heq ▸ hk)) x
        (ih x hx hest) hest

theorem establish_notMem_kinds : a.isDecrypt = false → .establish ∉ a.kinds := by
  intro ha
  cases a with
  | decrypt d => exact nomatch ha
  | _ => simp [Action.kinds]

/-- The control worker's copy is adopted or in flight. -/
theorem ReloadInvariant.agrees_control (h : ReloadInvariant tr s) (hpc : s.decrypt ≠ .stopped) :
    s.table.AgreesWith tr s.controlRules := by
  rw [h.control hpc]
  rcases List.mem_cons.mp (List.getLastD_mem_cons ..) with heq | hmem
  · rw [heq]
    exact h.adopted
  · exact h.inFlight hpc _ (List.mem_append_left _ hmem)

/-- What a purge leaves agrees with the rules it was made for: their logins are
those of the control worker's copy, which the sessions agreed with. -/
theorem agrees_purge {sessions : List Session} {next : Nat} {tr : List AccessEvent} {current rules : Rules} :
    (tableOf sessions next).AgreesWith tr current →
    (tableOf (reloadPurge current.logins rules sessions).1 next).AgreesWith tr rules := by
  intro h e he _
  obtain ⟨x, hx, rfl⟩ := mem_tableOf.mp he
  obtain ⟨hmem, hest, hbound, hlogins⟩ := mem_reloadPurge hx
  refine ⟨hbound, fun hauth pair hpair => ?_⟩
  exact (h _ (mem_tableOf.mpr ⟨x, hmem, rfl⟩) hest).login hauth pair (hlogins.trans hpair)

/-- A drain pass keeps the agreement with rules that admit whom it admits. -/
theorem agrees_drainPass {calls : Nat → DrainCall} {other : Rules} :
    s.table.AgreesWith tr other →
    (∀ x ∈ s.sessions, acceptsLogin s.rules (calls x.serial) x = true →
      other.logins.lookup x.address = none ∨
        other.logins.lookup x.address = s.rules.logins.lookup x.address) →
    (tableOf (s.drainPass cfg calls).sessions s.nextSerial).AgreesWith
      (tr ++ accessLog (s.drainPass cfg calls).events) other := by
  intro h hsame e he hest
  obtain ⟨y, hy, rfl⟩ := mem_tableOf.mp he
  obtain ⟨x, hx, rfl | ⟨rfl, hevs⟩⟩ := mem_drainSessions _ _ y hy
  · exact (h _ (entry_mem_table hx) hest).append _
  · have hlog : accessLog (drainSession cfg s.rules s.now (calls x.serial) x).events ⊆
        accessLog (s.drainPass cfg calls).events :=
      fun ev hev => mem_accessLog.mpr (hevs (mem_accessLog.mp hev))
    have hevent := drainSession_effect cfg s.rules s.now (calls x.serial) x
    have haccept := hsame x hx
    unfold acceptsLogin at haccept
    generalize hm : messageRead (calls x.serial) x = message at hevent haccept
    generalize (drainSession cfg s.rules s.now (calls x.serial) x).session.entry = e' at hevent hest ⊢
    generalize accessLog (drainSession cfg s.rules s.now (calls x.serial) x).events = evs
      at hevent hlog
    cases hevent with
    | quiet => exact (h _ (entry_mem_table hx) hest).append _
    | read packet _ => exact (h _ (entry_mem_table hx) hest).append _
    | login frame hest' hauth hatt =>
        refine Entry.AgreesWith.logIn (h _ (entry_mem_table hx) hest') (hlog ?_) fun hok => ?_
        · exact List.mem_cons_of_mem _ List.mem_cons_self
        · refine haccept ?_
          have hauth : x.authenticated = false := hauth
          have hatt : x.loginAttempted = false := hatt
          rw [hauth, hatt]
          exact hok

/-- A certificate that passes is bound by the rules it is checked against. -/
theorem bound_of_checkCertificate {call : HandshakeCall} {x : Session} {c : Certified} :
    checkCertificate cfg rules call x.peer = some c →
    rules.bindings.lookup c.address = some c.fingerprint := by
  intro hc
  obtain ⟨hrules, hsupports⟩ := checkCertificate_supports (x := x.entry) hc 0
  obtain ⟨f, hf, hbound⟩ := hsupports.binding
  rw [hrules, ← Option.some.inj hf] at hbound
  exact hbound

/-- So does a datagram, if rules that bind the certificate it completes want no
login that the worker does not. -/
theorem agrees_process {call : HandshakeCall} {sessions : List Session} {x : Session}
    {index next : Nat} {r : List Session × List Event} {now : Instant} {other : Rules} :
    ProcessEffect cfg now rules call sessions x (sessions.eraseIdx index) r →
    sessions[index]? = some x → (tableOf sessions next).AgreesWith tr other →
    (∀ c, x.established = false → call.handshake.result = .ok true →
      checkCertificate cfg rules call x.peer = some c → roomFor cfg sessions c.address →
      other.bindings.lookup c.address = some c.fingerprint ∧
      (rules.logins.lookup c.address = none → other.logins.lookup c.address = none)) →
    (tableOf r.1 next).AgreesWith (tr ++ accessLog r.2) other := by
  intro heff hx h hadmits
  have hothers : ∀ y ∈ sessions.eraseIdx index, y.established = true →
      y.entry.AgreesWith tr other := fun y hy hest =>
    h _ (mem_tableOf.mpr ⟨y, List.mem_of_mem_eraseIdx hy, rfl⟩) hest
  intro e he hest
  obtain ⟨y, hy, rfl⟩ := mem_tableOf.mp he
  refine Entry.AgreesWith.append ?_ _
  cases heff with
  | @kept x' l hentry hl =>
      rcases List.mem_cons.mp (hl.subset hy) with rfl | hy
      · rw [hentry] at hest ⊢
        exact h _ (mem_tableOf.mpr ⟨x, List.mem_of_getElem? hx, rfl⟩) hest
      · exact hothers y hy hest
  | removed _ hl _ => exact hothers y (hl.subset hy) hest
  | @established x' l kept evs c hpend hdone hc hentry _ _ hl hkept hroom _ _ =>
      obtain ⟨hbound, hnologin⟩ := hadmits c hpend hdone hc <| hroom.imp_right
        fun ⟨z, hz, hz'⟩ => ⟨z, List.mem_of_mem_eraseIdx hz, hz'⟩
      rcases List.mem_cons.mp (hl.subset hy) with rfl | hy
      · rw [hentry]
        refine ⟨⟨c.fingerprint, rfl, hbound⟩, fun hauth pair hpair => ?_⟩
        have hnone := hnologin (Option.isNone_iff_eq_none.mp hauth)
        exact nomatch hnone.symm.trans hpair
      · rw [hkept] at hy
        exact hothers y (List.mem_filter.mp hy).1 hest

/-- A step that establishes nobody and leaves the rules alone. -/
theorem ReloadInvariant.keep {log : List AccessEvent} :
    ReloadInvariant tr s →
    (∀ e ∈ s'.table.entries, e.established = true → e ∈ s.table.entries) →
    s'.rules = s.rules → (s'.decrypt ≠ .stopped → s.decrypt ≠ .stopped) →
    s'.inFlight = s.inFlight → s'.controlRules = s.controlRules → s'.channel = s.channel →
    ReloadInvariant (tr ++ log) s' := by
  intro h hsub hrules hpc hflight hcontrol hchannel
  refine ⟨?_, fun hrun rules hmem => ?_, fun hrun => ?_⟩
  · rw [hrules]
    exact h.adopted.mono hsub log
  · rw [hflight] at hmem
    exact (h.inFlight (hpc hrun) rules hmem).mono hsub log
  · rw [hcontrol, hchannel, hrules]
    exact h.control (hpc hrun)

/-- Whom a step that neither establishes nor logs in leaves established was so before. -/
theorem Effect.established_mem :
    Effect cfg s a s' evs → Lawful cfg tr s.table → .establish ∉ a.kinds → .login ∉ a.kinds →
    ∀ e ∈ s'.table.entries, e.established = true → e ∈ s.table.entries :=
  fun h hl => (h.moves hl).established_mem

theorem Effect.reloadInvariant :
    Effect cfg s a s' evs → Unraced cfg s a → Lawful cfg tr s.table → ReloadInvariant tr s →
    ReloadInvariant (tr ++ accessLog evs) s' := by
  intro h hguard hl hi
  have hmem := h.established_mem hl
  cases h with
  | idle ha hframe _ _ =>
      exact hi.keep (hmem (establish_notMem_kinds ha) (login_notMem_kinds ha)) hframe.rules
        (by rw [hframe.decrypt]; exact id) hframe.inFlight hframe.controlRules hframe.channel
  | removed ha hframe _ _ _ =>
      exact hi.keep (hmem (establish_notMem_kinds ha) (login_notMem_kinds ha)) hframe.rules
        (by rw [hframe.decrypt]; exact id) hframe.inFlight hframe.controlRules hframe.channel
  | @purged rules requested hpc _ =>
      have hsub := hmem (by simp [Action.kinds]) (by simp [Action.kinds])
      refine ⟨hi.adopted.mono hsub _, fun hrun other hother => ?_, hi.control⟩
      have hold : s.inFlight = s.channel.map (·.rules) := by
        rw [ServerState.inFlight, hpc]
        exact List.append_nil _
      rcases List.mem_append.mp hother with hother | hother
      · exact (hi.inFlight hrun other (hold ▸ hother)).mono hsub _
      · rw [List.mem_singleton.mp hother]
        exact (agrees_purge (hi.agrees_control hrun)).append _
  | @sent _ rules requested hpc hsessions hnext _ hdecrypt hrules hcontrol hchannel =>
      have htable : s'.table = s.table := by
        rw [ServerState.table, ServerState.table, hsessions, hnext]
      refine ⟨?_, fun hrun other hother => ?_, fun hrun => ?_⟩
      · rw [htable, hrules]
        exact hi.adopted.append _
      · rw [hdecrypt] at hrun
        obtain ⟨hflight, -⟩ := hchannel.resolve_right hrun
        rw [htable]
        exact (hi.inFlight hrun other (hflight ▸ hother)).append _
      · rw [hdecrypt] at hrun
        obtain ⟨-, hmap⟩ := hchannel.resolve_right hrun
        rw [hcontrol, hrules, hmap, ServerState.inFlight, hpc]
        exact List.getLastD_concat.symm
  | moved _ _ _ hstop =>
      exact ⟨hi.adopted.append _, fun hrun other hother =>
        (hi.inFlight (fun hs => hrun (hstop hs)) other hother).append _,
        fun hrun => hi.control fun hs => hrun (hstop hs)⟩
  | @drained calls pc active hpc _ =>
      have hrun : s.decrypt ≠ .stopped := by simp [hpc]
      exact ⟨agrees_drainPass hi.adopted fun _ _ _ => .inr rfl,
        fun _ other hother => agrees_drainPass (hi.inFlight hrun other hother)
          fun x hx hok => hguard x hx hok other hother,
        fun _ => hi.control hrun⟩
  | deduplicated hpc =>
      exact hi.keep (hmem (by simp [Action.kinds]) (by simp [Action.kinds])) rfl
        (fun _ => by simp [hpc]) rfl rfl rfl
  | @adopted update channel acknowledged hpc hchannel =>
      have hrun : s.decrypt ≠ .stopped := by simp [hpc]
      have hflight : s.inFlight = update.rules :: (channel.map (·.rules) ++ s.control.outgoing) := by
        rw [ServerState.inFlight, hchannel]
        rfl
      have hagrees := hi.inFlight hrun
      rw [hflight] at hagrees
      refine ⟨(hagrees _ List.mem_cons_self).append _, fun _ other hother =>
        (hagrees _ (List.mem_cons_of_mem _ hother)).append _, fun _ => ?_⟩
      have hcontrol := hi.control hrun
      rw [hchannel, List.map_cons, List.getLastD_cons] at hcontrol
      exact hcontrol
  | admission hpc _ _ _ =>
      exact hi.keep (hmem (by simp [Action.kinds]) (by simp [Action.kinds])) rfl
        (fun _ => by simp [hpc]) rfl rfl rfl
  | @processed call incoming index newSession r hpc hr =>
      have hrun : s.decrypt ≠ .stopped := by simp [hpc]
      rcases processDatagram_cases hr with rfl | ⟨x, hx, heff⟩
      · exact ⟨hi.adopted.append _, fun _ other hother => (hi.inFlight hrun other hother).append _,
          fun _ => hi.control hrun⟩
      · refine ⟨agrees_process heff hx hi.adopted fun c _ _ hc _ => ?_, fun _ other hother =>
          agrees_process heff hx (hi.inFlight hrun other hother) fun c hpend hdone hc hroom => ?_,
          fun _ => hi.control hrun⟩
        · exact ⟨bound_of_checkCertificate hc, id⟩
        · exact hguard incoming index newSession x c hpc hx hpend hdone hc hroom other hother

end Invariant

/-! ## The whole run -/

section Runs

variable {cfg : ServerConfig} {rules : Rules} {as : List Action} {tr : List Event} {s : ServerState}

/-- The session has the fingerprint bound to its address and, if a login is
configured for it and it is authenticated, has presented that login. -/
structure Session.AgreesWith (tr : List Event) (rules : Rules) (x : Session) : Prop where
  bound : ∃ f, x.fingerprint = some f ∧ rules.bindings.lookup x.address = some f
  login : x.authenticated = true → ∀ pair, rules.logins.lookup x.address = some pair →
    ∃ credentials, .access (.login x.serial x.address
      (loginFrame (asBytes pair.1) (asBytes pair.2)) credentials true) ∈ tr

theorem server_reloadInvariant :
    (server cfg rules).Run (Unraced cfg) as tr s → ReloadInvariant (accessLog tr) s := by
  refine Machine.Run.invariant₂ (fun tr (s : ServerState) => Lawful cfg (accessLog tr) s.table)
    (fun tr s => ReloadInvariant (accessLog tr) s) server_lawful ?_ ?_
  · exact ⟨fun e he _ => absurd he (Multiset.notMem_zero e),
      fun _ _ hother => absurd hother List.not_mem_nil, fun _ => rfl⟩
  · intro tr s a s' evs hl hi hguard hs
    rw [accessLog_append]
    exact (step_cases hs).reloadInvariant hguard hl hi

/-- **Agreement with the adopted rules**, in every run that admits nobody whom
rules in flight refuse. -/
theorem reload_agreement :
    (server cfg rules).Run (Unraced cfg) as tr s → ∀ x ∈ s.sessions, x.established = true →
    x.AgreesWith tr s.rules := by
  intro hr x hx hest
  obtain ⟨hbound, hlogin⟩ := (server_reloadInvariant hr).adopted _ (entry_mem_table hx) hest
  exact ⟨hbound, fun hauth pair hpair =>
    (hlogin hauth pair hpair).imp fun _ hev => mem_accessLog.mp hev⟩

/-! ## A certificate is renewed -/

namespace Sample

/-- The client has a new certificate, and the old one is no longer bound. -/
def renewed : Rules :=
  { bindings := AList.singleton address
      "bbbbbbbbbbbbbbbbbbbbbbbbbbbbbbbbbbbbbbbbbbbbbbbbbbbbbbbbbbbbbbbb"
    logins := ∅ }

/-- The control worker is told to reload, and purges the sessions. -/
def purge (next : Rules) : List Action :=
  [.control (.pass [.reload 1] fun _ => ⟨⟨.ok (), []⟩, 0⟩), .control (.decide (.ok next)),
    .control .purge]

/-- The control worker hands over the rules and the decrypt worker adopts them. -/
def adopt : List Action :=
  [.control .send, .decrypt (.drain silent), .decrypt .deduplicate, .decrypt .adoptReload]

/-- A guard that can be computed: nobody is admitted while rules are in flight. -/
def unraced (s : ServerState) : Action → Bool
  | .decrypt (.process _) => s.inFlight.isEmpty
  | .decrypt (.drain calls) =>
      s.inFlight.isEmpty || !s.sessions.any fun x => acceptsLogin s.rules (calls x.serial) x
  | _ => true

end Sample

theorem unraced_of_sample {a : Action} : Sample.unraced s a = true → Unraced cfg s a := by
  intro h
  cases a with
  | decrypt d =>
      cases d with
      | process call =>
          have hnone : s.inFlight = [] := List.isEmpty_iff.mp h
          intro _ _ _ _ _ _ _ _ _ _ _ other hother
          exact absurd (hnone ▸ hother) List.not_mem_nil
      | drain calls =>
          intro x hx haccept other hother
          rcases Bool.or_eq_true_iff.mp h with hnone | hany
          · exact absurd (List.isEmpty_iff.mp hnone ▸ hother) List.not_mem_nil
          · rw [Bool.not_eq_true', List.any_eq_false] at hany
            exact absurd haccept (hany x hx)
      | deduplicate | adoptReload | takeDatagram | findSession => trivial
  | tick | deactivate | shutdown | tunReadFailed | udpReceived | tunReceived | encrypt | udpWrite
  | control => trivial

/-- The file has not changed, and the client stays. -/
theorem reload_agreement_unchanged :
    ∃ as tr s, (server Sample.config (Sample.rules none)).Run (Unraced Sample.config) as tr s ∧
      s.acknowledged = [1] ∧ s.sessions.countP (·.established) = 1 ∧
      ∀ x ∈ s.sessions, x.established = true → x.AgreesWith tr s.rules := by
  have hr : (server Sample.config (Sample.rules none)).Run (Unraced Sample.config)
      (Sample.turn Sample.silent 1 false ++ Sample.turn Sample.silent 1 true ++
        Sample.purge (Sample.rules none) ++ Sample.adopt) _ _ :=
    Machine.run_outcome (fun _ _ => unraced_of_sample) (by decide +kernel)
  exact ⟨_, _, _, hr, by decide +kernel, by decide +kernel, reload_agreement hr⟩

/-- A client whose handshake takes place between the purge and the hand-over is
admitted under the old rules and stays under the new ones. -/
theorem revoked_client_stays :
    ∃ as tr s, (server Sample.config (Sample.rules none)).Run Machine.Free as tr s ∧
      s.acknowledged = [1] ∧ s.rules.bindings.lookup Sample.address =
        Sample.renewed.bindings.lookup Sample.address ∧
      ∃ x ∈ s.sessions, x.established = true ∧ x.authenticated = true ∧
        ¬ x.AgreesWith tr s.rules := by
  let as := Sample.purge Sample.renewed ++ Sample.turn Sample.silent 1 false ++
    Sample.turn Sample.silent 1 true ++ Sample.adopt
  have hr : (server Sample.config (Sample.rules none)).Run Machine.Free as
      (Sample.outcome none as).2 (Sample.outcome none as).1 := run_sample (by decide +kernel)
  have hsession : ((Sample.outcome none as).1.sessions.any fun x =>
      x.established && x.authenticated && x.address == Sample.address &&
        x.fingerprint == some Sample.fingerprint) = true := by decide +kernel
  have hbinding : (Sample.outcome none as).1.rules.bindings.lookup Sample.address =
      Sample.renewed.bindings.lookup Sample.address := by decide +kernel
  refine ⟨as, _, _, hr, by decide +kernel, hbinding, ?_⟩
  obtain ⟨x, hx, h⟩ := List.any_eq_true.mp hsession
  simp only [Bool.and_eq_true, beq_iff_eq] at h
  obtain ⟨⟨⟨hest, hauth⟩, haddr⟩, hfingerprint⟩ := h
  refine ⟨x, hx, hest, hauth, fun hagrees => ?_⟩
  obtain ⟨f, hf, hbound⟩ := hagrees.bound
  rw [haddr, hbinding, ← Option.some.inj (hfingerprint.symm.trans hf)] at hbound
  revert hbound
  decide +kernel

end Runs

end AutobricksVpn
