/-
# `AutobricksVpn.Server.Idle` — when a silent session is removed

A session has one time of last activity.  A login, a keepalive and a packet
that TUN takes write it, and so does every message that is written completely,
also to a client that is gone: a DTLS write over UDP succeeds.  The control
pass goes by that time alone.

A session to which nothing is written, and of which nothing is heard, keeps its
time (`Shift.unheard`); no time lies ahead of the clock (`server_clocked`).  So
a pass that comes `SESSION_IDLE_TIMEOUT` later removes it
(`silent_session_expires`), and one written message is enough to keep it
(`written_keeps_silent_session`).
-/
import AutobricksVpn.Server.Usage

namespace AutobricksVpn

/-! ## The clock -/

section Clock

variable {cfg : ServerConfig} {rules : Rules} {now : Instant} {G : ServerState → Action → Prop}
  {as : List Action} {tr : List Event} {s s' : ServerState} {a : Action} {evs : List Event}
  {α α' : Account} {log : List Observation} {r r' : Roll}

theorem decryptStep_now {a : DecryptAction} : decryptStep cfg s a = some (s', evs) → s'.now = s.now := by
  intro h
  cases decryptStep_cases h with
  | idle ha => cases ha
  | removed ha => cases ha
  | moved | drained | deduplicated | adopted | admission | processed => rfl

theorem encryptStep_now {a : EncryptAction} : encryptStep cfg s a = some (s', evs) → s'.now = s.now := by
  intro h
  cases a with
  | take | route | flush =>
      simp only [encryptStep] at h
      split at h
      · obtain ⟨rfl, rfl⟩ := Prod.mk.inj (Option.some.inj h)
        rfl
      · cases h

theorem controlStep_now {a : ControlAction} : controlStep cfg s a = some (s', evs) → s'.now = s.now := by
  intro h
  cases a with
  | pass | purge | fail =>
      simp only [controlStep] at h
      split at h
      · obtain ⟨rfl, rfl⟩ := Prod.mk.inj (Option.some.inj h)
        rfl
      · cases h
  | decide reload =>
      simp only [controlStep] at h
      split at h
      · split at h
        · split at h <;> obtain ⟨rfl, rfl⟩ := Prod.mk.inj (Option.some.inj h) <;> rfl
        · obtain ⟨rfl, rfl⟩ := Prod.mk.inj (Option.some.inj h)
          rfl
      · cases h
  | send =>
      simp only [controlStep] at h
      split at h
      · obtain ⟨rfl, rfl⟩ := Prod.mk.inj (Option.some.inj h)
        rfl
      · split at h <;> obtain ⟨rfl, rfl⟩ := Prod.mk.inj (Option.some.inj h) <;> rfl
      · cases h
  | respond answered =>
      simp only [controlStep] at h
      split at h
      · split at h
        · cases h
        · obtain ⟨rfl, rfl⟩ := Prod.mk.inj (Option.some.inj h)
          rfl
      · cases h

/-- Time does not go back. -/
theorem step_now : step cfg s a = some (s', evs) → s.now ≤ s'.now := by
  intro h
  cases a with
  | tick elapsed =>
      obtain ⟨rfl, rfl⟩ := Prod.mk.inj (Option.some.inj h)
      exact Nat.le_add_right _ _
  | deactivate | shutdown | tunReadFailed | udpReceived | tunReceived =>
      obtain ⟨rfl, rfl⟩ := Prod.mk.inj (Option.some.inj h)
      exact Nat.le_refl _
  | decrypt a => exact Nat.le_of_eq (decryptStep_now h).symm
  | encrypt a => exact Nat.le_of_eq (encryptStep_now h).symm
  | udpWrite calls =>
      simp only [step] at h
      split at h
      · obtain ⟨rfl, rfl⟩ := Prod.mk.inj (Option.some.inj h)
        exact Nat.le_refl _
      · cases h
  | control a => exact Nat.le_of_eq (controlStep_now h).symm

/-- The time of last activity stays, or it is the present. -/
theorem Change.lastActivity :
    Change cfg rules now α α' log → α'.lastActivity = α.lastActivity ∨ α'.lastActivity = now := by
  intro h
  cases h with
  | @wrote packets _ _ _ =>
      dsimp only [Account.writes]
      split
      · exact .inl rfl
      · exact .inr rfl
  | routed | read | undelivered | loginRejected | established => exact .inl rfl
  | keepalive | delivered | loggedIn => exact .inr rfl

theorem Shift.clocked :
    Shift cfg s a r r' log → (∀ α ∈ r.accounts, α.lastActivity ≤ s.now) →
    ∀ α ∈ r'.accounts, α.lastActivity ≤ s.now := by
  intro h hr β hβ
  cases h with
  | @change α α' rest n log hc =>
      rcases Multiset.mem_cons.mp hβ with rfl | hβ
      · have hα := hr α (Multiset.mem_cons_self α rest)
        rcases hc.lastActivity with heq | heq
        · rw [heq]
          exact hα
        · exact Nat.le_of_eq heq
      · exact hr β (Multiset.mem_cons_of_mem hβ)
  | leave _ => exact hr β (Multiset.mem_cons_of_mem hβ)
  | create =>
      rcases Multiset.mem_cons.mp hβ with rfl | hβ
      · exact Nat.le_refl _
      · exact hr β hβ
  | aside _ => exact hr β hβ

theorem mem_accountsOf {sessions : List Session} {α : Account} :
    α ∈ accountsOf sessions ↔ ∃ x ∈ sessions, x.account = α := List.mem_map

/-- No session was active later than now. -/
theorem server_clocked :
    (server cfg rules).Run G as tr s → ∀ x ∈ s.sessions, x.lastActivity ≤ s.now := by
  refine Machine.Run.invariant
    (fun _ (s : ServerState) => ∀ x ∈ s.sessions, x.lastActivity ≤ s.now) ?_ ?_
  · exact fun _ hx => absurd hx List.not_mem_nil
  · intro tr s a s' evs hs _ hstep x hx
    have hstart : ∀ α ∈ s.roll.accounts, α.lastActivity ≤ s.now := by
      intro α hα
      obtain ⟨y, hy, rfl⟩ := mem_accountsOf.mp hα
      exact hs y hy
    have hend := (step_shifts hstep).invariant (fun _ r => ∀ α ∈ r.accounts, α.lastActivity ≤ s.now)
      (fun hI hshift => hshift.clocked hI) [] hstart
    exact Nat.le_trans (hend x.account (mem_accountsOf.mpr ⟨x, hx, rfl⟩)) (step_now hstep)

end Clock

/-! ## Silence -/

/-- Nothing is read from session `n`, and no message is written to it. -/
structure Silent (n : Nat) (log : List Observation) : Prop where
  unheard : ∀ packet, .logged (.access (.received n packet)) ∉ log
  unwritten : ∀ packet, .written n packet ∉ log

/-- Session `n` was made before, and was not active after `t`. -/
structure Resting (n : Nat) (t : Instant) (r : Roll) : Prop where
  created : n < r.nextSerial
  rests : ∀ α ∈ r.accounts, α.entry.serial = n → α.lastActivity ≤ t

section Silence

variable {cfg : ServerConfig} {rules : Rules} {now t : Instant} {as as' : List Action}
  {s s' : ServerState} {a : Action} {α α' : Account} {log log' : List Observation} {r r' : Roll}
  {n : Nat}

theorem Silent.left : Silent n (log ++ log') → Silent n log :=
  fun h => ⟨fun packet hp => h.unheard packet (List.mem_append_left _ hp),
    fun packet hp => h.unwritten packet (List.mem_append_left _ hp)⟩

theorem Silent.right : Silent n (log ++ log') → Silent n log' :=
  fun h => ⟨fun packet hp => h.unheard packet (List.mem_append_right _ hp),
    fun packet hp => h.unwritten packet (List.mem_append_right _ hp)⟩

/-- Only what is read or written counts as activity. -/
theorem Change.lastActivity_of_silent :
    Change cfg rules now α α' log → Silent α.entry.serial log → α'.lastActivity = α.lastActivity := by
  intro h hsilent
  cases h with
  | @wrote packets _ _ _ =>
      cases packets with
      | nil => rfl
      | cons packet packets => exact absurd List.mem_cons_self (hsilent.unwritten packet)
  | routed | read | undelivered | loginRejected | established => rfl
  | keepalive | delivered | loggedIn => exact absurd List.mem_cons_self (hsilent.unheard _)

theorem Shift.resting :
    Shift cfg s a r r' log → Silent n log → Resting n t r → Resting n t r' := by
  intro h hsilent hr
  cases h with
  | @change α α' rest m log hc =>
      refine ⟨hr.created, fun β hβ hserial => ?_⟩
      rcases Multiset.mem_cons.mp hβ with rfl | hβ
      · have hserial' : α.entry.serial = n := hc.about.1.symm.trans hserial
        rw [hc.lastActivity_of_silent (hserial' ▸ hsilent)]
        exact hr.rests α (Multiset.mem_cons_self α rest) hserial'
      · exact hr.rests β (Multiset.mem_cons_of_mem hβ) hserial
  | leave _ => exact ⟨hr.created, fun β hβ => hr.rests β (Multiset.mem_cons_of_mem hβ)⟩
  | @create rest m peerSize peer =>
      refine ⟨Nat.lt_succ_of_lt hr.created, fun β hβ hserial => ?_⟩
      rcases Multiset.mem_cons.mp hβ with rfl | hβ
      · exact absurd hserial (Nat.ne_of_gt hr.created)
      · exact hr.rests β hβ hserial
  | aside _ => exact hr

/-- Through whole runs. -/
theorem resting_of_run :
    ((observedServer cfg rules).startedAt s).Run Machine.Free as log s' → Silent n log →
    Resting n t s.roll → Resting n t s'.roll := by
  intro hr hsilent hstart
  refine Machine.Run.invariant (M := (observedServer cfg rules).startedAt s)
    (fun log (s : ServerState) => Silent n log → Resting n t s.roll) (fun _ => hstart) ?_ hr hsilent
  intro tr s a s' new hresting _ hstep hsilent
  obtain ⟨evs, hs, rfl⟩ := Machine.observe_step.mp hstep
  refine (step_shifts hs).invariant (fun log r => Silent n log → Resting n t r) ?_ tr hresting hsilent
  exact fun hI hshift hsilent => hshift.resting hsilent.right (hI hsilent.left)

/-- A pass leaves no session that was idle for too long. -/
theorem controlPass_expires {commands : List Command} {calls : Nat → RetransmitCall}
    {sessions : List Session} {y : Session} :
    y ∈ (controlPass cfg now commands calls sessions).1 → now - y.lastActivity < SESSION_IDLE_TIMEOUT := by
  intro hy
  have hkept := (List.mem_filter.mp hy).2
  simp only [Bool.and_eq_true, idleValid, decide_eq_true_eq] at hkept
  refine Nat.lt_of_lt_of_le hkept.1 ?_
  unfold idleLimit
  split
  · exact Nat.le_refl _
  · split <;> decide

/-- **Silent clients expire.**  A session of which nothing is read, and to
which nothing is written, for `SESSION_IDLE_TIMEOUT` is removed by the control
pass that comes next, whatever happens to the other sessions meanwhile. -/
theorem silent_session_expires :
    (observedServer cfg rules).Run Machine.Free as log s →
    ∀ x ∈ s.sessions,
    ((observedServer cfg rules).startedAt s).Run Machine.Free as' log' s' →
    s.now + SESSION_IDLE_TIMEOUT ≤ s'.now →
    (∀ packet, .logged (.access (.received x.serial packet)) ∉ log') →
    (∀ packet, .written x.serial packet ∉ log') →
    ∀ commands calls s'' evs, step cfg s' (.control (.pass commands calls)) = some (s'', evs) →
      ∀ y ∈ s''.sessions, y.serial ≠ x.serial := by
  intro hr x hx hr' helapsed hunheard hunwritten commands calls s'' evs hpass y hy hserial
  have hplain := run_of_observed hr
  have hstart : Resting x.serial s.now s.roll := by
    refine ⟨(server_lawful hplain).distinct.below _ (entry_mem_table hx), fun α hα _ => ?_⟩
    obtain ⟨z, hz, rfl⟩ := mem_accountsOf.mp hα
    exact server_clocked hplain z hz
  have hend := resting_of_run hr' ⟨hunheard, hunwritten⟩ hstart
  -- The pass itself changes no account.
  simp only [step, controlStep] at hpass
  split at hpass
  · obtain ⟨rfl, rfl⟩ := Prod.mk.inj (Option.some.inj hpass)
    have hsheds : Sheds s'.sessions (controlPass cfg s'.now commands calls s'.sessions) :=
      controlPass_sheds
    obtain ⟨removed, -, haccounts⟩ := hsheds
    have hmem : y.account ∈ s'.roll.accounts := by
      rw [show s'.roll.accounts = _ from haccounts]
      exact Multiset.mem_add.mpr (.inl (mem_accountsOf.mpr ⟨y, hy, rfl⟩))
    have hlast : y.lastActivity ≤ s.now := hend.rests y.account hmem hserial
    have hrecent := controlPass_expires hy
    have hidle : SESSION_IDLE_TIMEOUT ≤ s'.now - y.lastActivity :=
      Nat.le_trans (Nat.le_sub_of_add_le' helapsed) (Nat.sub_le_sub_left hlast _)
    exact absurd hrecent (Nat.not_lt.mpr hidle)
  · cases hpass

end Silence

/-! ## One packet is enough -/

namespace Sample

/-- The server with one client connected, and what follows in it. -/
def visited : ServerState := (observed (turn silent 1 true)).1

def after (as : List Action) : ServerState × List Observation :=
  ((observedServer config (rules none)).startedAt visited).outcome (fun _ _ => true) as

/-- A packet to the client, from the server's TUN. -/
def toClient : Packet := [0x45, 0, 0, 20, 0, 0, 0, 0, 64, 0, 0, 0, 10, 9, 1, 1, 10, 9, 1, 2]

/-- The client says nothing for 301 seconds; after 299 a packet is written to it. -/
def unanswered : List Action :=
  [.tick (Duration.fromSecs 299), .tunReceived toClient, .encrypt .take,
    .encrypt (.route fun _ => [⟨.ok (.complete toClient.length), []⟩]), .tick (Duration.fromSecs 2)]

/-- The pass of the control worker, without a command. -/
def nextPass (s : ServerState) : Option (ServerState × List Event) :=
  step config s (.control (.pass [] fun _ => ⟨⟨.ok (), []⟩, 0⟩))

def heard (n : Nat) (log : List Observation) : Bool :=
  (life n log).any fun o => match o with
    | .logged (.access (.received _ _)) => true
    | _ => false

def wrote (n : Nat) (log : List Observation) : Bool :=
  (life n log).any fun o => match o with
    | .written _ _ => true
    | _ => false

end Sample

theorem run_after {as : List Action} :
    (((observedServer Sample.config (Sample.rules none)).startedAt Sample.visited).exec
      (fun _ _ => true) as).isSome = true →
    ((observedServer Sample.config (Sample.rules none)).startedAt Sample.visited).Run Machine.Free as
      (Sample.after as).2 (Sample.after as).1 :=
  Machine.run_outcome fun _ _ _ => trivial

theorem unheard_of_sample {n : Nat} {log : List Observation} :
    Sample.heard n log = false → ∀ packet, .logged (.access (.received n packet)) ∉ log := by
  intro h packet hp
  have hmem : .logged (.access (.received n packet)) ∈ life n log :=
    List.mem_filter.mpr ⟨hp, beq_self_eq_true _⟩
  have hany : Sample.heard n log = true := List.any_eq_true.mpr ⟨_, hmem, rfl⟩
  exact absurd hany (ne_true_of_eq_false h)

theorem unwritten_of_sample {n : Nat} {log : List Observation} :
    Sample.wrote n log = false → ∀ packet, .written n packet ∉ log := by
  intro h packet hp
  have hmem : .written n packet ∈ life n log := List.mem_filter.mpr ⟨hp, beq_self_eq_true _⟩
  have hany : Sample.wrote n log = true := List.any_eq_true.mpr ⟨_, hmem, rfl⟩
  exact absurd hany (ne_true_of_eq_false h)

theorem silent_session_expires_visited :
    ∃ x ∈ Sample.visited.sessions, ∃ r,
      Sample.nextPass (Sample.after [.tick SESSION_IDLE_TIMEOUT]).1 = some r ∧
        ∀ y ∈ r.1.sessions, y.serial ≠ x.serial := by
  have hany : Sample.visited.sessions.any (fun x => decide (x.serial = 0)) = true := by
    decide +kernel
  obtain ⟨x, hx, hserial⟩ := List.any_eq_true.mp hany
  have hserial := of_decide_eq_true hserial
  have hpass : (Sample.nextPass (Sample.after [.tick SESSION_IDLE_TIMEOUT]).1).isSome = true := by
    decide +kernel
  obtain ⟨⟨s, evs⟩, hs⟩ := Option.isSome_iff_exists.mp hpass
  refine ⟨x, hx, ⟨s, evs⟩, hs, ?_⟩
  refine silent_session_expires (run_observed (by decide +kernel)) x hx
    (run_after (by decide +kernel)) (by decide +kernel) ?_ ?_ [] _ s evs hs
  · rw [hserial]
    exact unheard_of_sample (by decide +kernel)
  · rw [hserial]
    exact unwritten_of_sample (by decide +kernel)

/-- Nothing is heard of the authenticated client for 301 seconds, and the pass
that comes then keeps its session. -/
theorem written_keeps_silent_session :
    ∃ as log s, (observedServer Sample.config (Sample.rules none)).Run Machine.Free as log s ∧
      ∃ x ∈ s.sessions, x.authenticated = true ∧
      ∃ as' log' s', ((observedServer Sample.config (Sample.rules none)).startedAt s).Run
          Machine.Free as' log' s' ∧ s.now + SESSION_IDLE_TIMEOUT ≤ s'.now ∧
        (∀ packet, .logged (.access (.received x.serial packet)) ∉ log') ∧
        ∃ commands calls s'' evs,
          step Sample.config s' (.control (.pass commands calls)) = some (s'', evs) ∧
            ∃ y ∈ s''.sessions, y.serial = x.serial := by
  refine ⟨Sample.turn Sample.silent 1 true, _, _, run_observed (by decide +kernel), ?_⟩
  have hany : Sample.visited.sessions.any (fun x => decide (x.serial = 0 ∧ x.authenticated = true)) =
      true := by decide +kernel
  obtain ⟨x, hx, hdecide⟩ := List.any_eq_true.mp hany
  obtain ⟨hserial, hauth⟩ := of_decide_eq_true hdecide
  refine ⟨x, hx, hauth, Sample.unanswered, _, _, run_after (by decide +kernel), by decide +kernel,
    ?_, ?_⟩
  · rw [hserial]
    exact unheard_of_sample (by decide +kernel)
  · have hpass : (Sample.nextPass (Sample.after Sample.unanswered).1).any (fun r =>
        r.1.sessions.any fun y => decide (y.serial = 0)) = true := by decide +kernel
    obtain ⟨⟨s, evs⟩, hs, hkept⟩ := (Option.any_eq_true _ _).mp hpass
    obtain ⟨y, hy, hyserial⟩ := List.any_eq_true.mp hkept
    exact ⟨_, _, s, evs, hs, y, hy, (of_decide_eq_true hyserial).trans hserial.symm⟩

end AutobricksVpn
