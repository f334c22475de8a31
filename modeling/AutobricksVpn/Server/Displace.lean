/-
# `AutobricksVpn.Server.Displace` — who cannot be displaced before a login

Whatever reaches the decrypt worker before its sender is authenticated leaves
the authenticated sessions as they are, record by record: their place in the
table, their entries and their queues (`authenticated_sessions_kept`).

There are three ways in.  A datagram of an unknown peer is dealt with among the
pending sessions.  A datagram of a pending session touches that session alone,
unless it authenticates it.  A message of a session that owes a login is judged
inside a drain pass, which gives every other session what it would have given
it without the message (`drainSessions_congr`).
-/
import AutobricksVpn.Server.Invariants

namespace AutobricksVpn

/-- The records of the authenticated sessions. -/
def authenticatedOf (sessions : List Session) : List Session := sessions.filter (·.authenticated)

/-- The session of the datagram that is being processed. -/
def ServerState.datagramSession (s : ServerState) : Option Session :=
  match s.decrypt with
  | .process _ index _ => s.sessions[index]?
  | _ => none

section Drain

variable {cfg : ServerConfig} {rules : Rules} {now : Instant} {call : DrainCall} {x : Session}

/-- The body leaves the entry of an authenticated session alone. -/
theorem entry_drainSession_of_authenticated :
    x.authenticated = true → (drainSession cfg rules now call x).session.entry = x.entry := by
  intro hauth
  have heff := drainSession_effect cfg rules now call x
  generalize (drainSession cfg rules now call x).session.entry = e at heff
  generalize messageRead call x = message at heff
  generalize accessLog (drainSession cfg rules now call x).events = log at heff
  cases heff with
  | quiet => rfl
  | read _ _ => rfl
  | login frame _ hnot _ => cases hauth.symm.trans hnot

/-- Only an authenticated session can end the pass. -/
theorem drainSession_failure :
    x.authenticated = false → (drainSession cfg rules now call x).failure = none := by
  intro hauth
  have hjudge : ∀ packet y, (judgeLogin rules now packet y).failure = none := by
    intro packet y
    unfold judgeLogin
    dsimp only
    split <;> rfl
  unfold drainSession
  split
  · rfl
  · split
    · rfl
    · dsimp only
      split
      · split
        · rfl
        · unfold receiveMessage
          rw [if_neg (by simp [Session.emit, hauth])]
          split
          · rfl
          · exact hjudge _ _
      all_goals rfl

end Drain

/-- Two passes that differ in bodies of sessions without `p`, before and after,
leave the same sessions with `p`. -/
theorem drainSessions_congr {f g : Session → Drained} {p : Session → Bool} {l : List Session} :
    (∀ y ∈ l, f y = g y ∨
      (f y).failure = none ∧ (g y).failure = none ∧ p (f y).session = false ∧
        p (g y).session = false) →
    (drainSessions f l).sessions.filter p = (drainSessions g l).sessions.filter p := by
  induction l with
  | nil => exact fun _ => rfl
  | cons y l ih =>
      intro h
      have hl := ih fun z hz => h z (List.mem_cons_of_mem y hz)
      unfold drainSessions
      dsimp only
      rcases h y List.mem_cons_self with heq | ⟨hf, hg, hpf, hpg⟩
      · rw [heq]
        split
        · rfl
        · simp only [List.filter_cons, hl]
      · rw [hf, hg]
        simp only [List.filter_cons, hpf, hpg, hl, Bool.false_eq_true, if_false]

section Displace

variable {cfg : ServerConfig} {rules : Rules} {G : ServerState → Action → Prop} {as : List Action}
  {tr : List Event} {s : ServerState}

theorem ServerState.eq_of_serial {x y : Session} (hd : s.table.Distinct) (hx : x ∈ s.sessions)
    (hy : y ∈ s.sessions) (h : y.serial = x.serial) : y = x := by
  obtain ⟨i, hi, rfl⟩ := List.getElem_of_mem hx
  by_contra hne
  have hmem : y ∈ s.sessions.eraseIdx i := by
    have hperm := (List.getElem_cons_eraseIdx_perm hi).symm
    rcases List.mem_cons.mp (hperm.subset hy) with heq | hmem
    · exact absurd heq hne
    · exact hmem
  exact hd.eq_of_serial (entries_eraseIdx hi) (mem_tableOf.mpr ⟨y, hmem, rfl⟩) h

theorem authenticatedOf_perm {l l' : List Session} (h : l.Perm l') :
    (authenticatedOf l).Perm (authenticatedOf l') := h.filter _

/-- A step that keeps the established records keeps the authenticated ones. -/
theorem authenticatedOf_of_established {l l' : List Session}
    (h : (l'.filter (·.established)).Perm (l.filter (·.established)))
    (hl : ∀ x ∈ l, x.authenticated = true → x.established = true)
    (hl' : ∀ x ∈ l', x.authenticated = true → x.established = true) :
    (authenticatedOf l').Perm (authenticatedOf l) := by
  have hrefine : ∀ k : List Session, (∀ x ∈ k, x.authenticated = true → x.established = true) →
      authenticatedOf k = (k.filter (·.established)).filter (·.authenticated) := by
    intro k hk
    rw [List.filter_filter, authenticatedOf]
    refine List.filter_congr fun x hx => ?_
    cases hauth : x.authenticated with
    | true => simp [hk x hx hauth]
    | false => simp
  rw [hrefine l hl, hrefine l' hl']
  exact h.filter _

theorem staged_of_run :
    (server cfg rules).Run G as tr s →
    ∀ x ∈ s.sessions, x.authenticated = true → x.established = true := by
  intro hr x hx
  exact ((server_lawful hr).staged _ (entry_mem_table hx)).authenticated

/-- A datagram that leaves its own session unauthenticated leaves the others as they were. -/
theorem ProcessEffect.authenticatedOf {call : HandshakeCall} {sessions : List Session} {index : Nat}
    {x : Session} {r : List Session × List Event} :
    ProcessEffect cfg s.now s.rules call sessions x (sessions.eraseIdx index) r →
    sessions[index]? = some x → (x.authenticated = true → x.established = true) →
    (∀ y ∈ r.1, y.serial = x.serial → y.authenticated = false) →
    (authenticatedOf r.1).Perm (authenticatedOf sessions) := by
  intro h hx hstaged hunauth
  obtain ⟨hlt, rfl⟩ := List.getElem?_eq_some_iff.mp hx
  have hperm := authenticatedOf_perm (List.getElem_cons_eraseIdx_perm hlt).symm
  -- With the session of the datagram unauthenticated before and after, the others decide.
  have hothers : ∀ {x' : Session} {l : List Session}, sessions[index].authenticated = false →
      x'.authenticated = false → l.Perm (x' :: sessions.eraseIdx index) →
      (AutobricksVpn.authenticatedOf l).Perm (AutobricksVpn.authenticatedOf sessions) := by
    intro x' l hbefore hafter hl
    refine (authenticatedOf_perm hl).trans (List.Perm.trans ?_ hperm.symm)
    simp [AutobricksVpn.authenticatedOf, hbefore, hafter]
  cases h with
  | @kept x' l hentry hl =>
      have hafter : x'.authenticated = false :=
        hunauth x' (hl.symm.subset List.mem_cons_self) (congrArg Entry.serial hentry)
      refine hothers ?_ hafter hl
      rw [← hafter]
      exact (congrArg Entry.authenticated hentry).symm
  | removed hpend hl _ =>
      have hbefore : sessions[index].authenticated = false := by
        by_contra hauth
        rw [hstaged (by simpa using hauth)] at hpend
        cases hpend
      refine (authenticatedOf_perm hl).trans (List.Perm.trans ?_ hperm.symm)
      simp [AutobricksVpn.authenticatedOf, hbefore]
  | @established x' l kept _ c hpend _ _ hentry _ _ hl hkept _ _ _ =>
      have hbefore : sessions[index].authenticated = false := by
        by_contra hauth
        rw [hstaged (by simpa using hauth)] at hpend
        cases hpend
      have hafter : x'.authenticated = false :=
        hunauth x' (hl.symm.subset List.mem_cons_self) (congrArg Entry.serial hentry)
      -- It owes a login, so nobody is replaced.
      have howes : (s.rules.logins.lookup c.address).isNone = false := by
        rw [← hafter]
        exact (congrArg Entry.authenticated hentry).symm
      rw [howes, show (fun y => !(false && isDuplicate c.address sessions[index].peer y)) =
        fun _ => true from rfl, List.filter_true] at hkept
      exact hothers hbefore hafter (hkept ▸ hl)

theorem sessions_drainStep {s' : ServerState} {evs : List Event} {calls : Nat → DrainCall} :
    step cfg s (.decrypt (.drain calls)) = some (s', evs) →
    s'.sessions = if s.active then (s.drainPass cfg calls).sessions else s.sessions := by
  intro hs
  simp only [step, decryptStep] at hs
  split at hs
  · split at hs
    · rename_i hactive
      rw [if_pos hactive]
      split at hs <;> obtain ⟨rfl, -⟩ := Prod.mk.inj (Option.some.inj hs) <;> rfl
    · rename_i hactive
      rw [if_neg hactive]
      obtain ⟨rfl, -⟩ := Prod.mk.inj (Option.some.inj hs)
      rfl
  · cases hs

/-- Every session is there after the pass, as it was or drained. -/
theorem drainSessions_mem (f : Session → Drained) {l : List Session} :
    ∀ y ∈ l, ∃ y' ∈ (drainSessions f l).sessions, y' = y ∨ y' = (f y).session := by
  induction l with
  | nil => exact fun y hy => absurd hy List.not_mem_nil
  | cons x l ih =>
      intro y hy
      unfold drainSessions
      dsimp only
      split
      · rcases List.mem_cons.mp hy with rfl | hy
        · exact ⟨_, List.mem_cons_self, .inr rfl⟩
        · exact ⟨y, List.mem_cons_of_mem _ hy, .inl rfl⟩
      · rcases List.mem_cons.mp hy with rfl | hy
        · exact ⟨_, List.mem_cons_self, .inr rfl⟩
        · obtain ⟨y', hy', h⟩ := ih y hy
          exact ⟨y', List.mem_cons_of_mem _ hy', h⟩

/-- **Nobody is displaced before a login.**  In every state of every run: a
datagram of an unknown peer leaves the records of the authenticated sessions
as they are; so does a datagram after which its own session is not
authenticated; and whatever a session reads in a drain pass, as long as it is
not authenticated by it, makes no difference to them, of which each keeps its
entry and is changed by its own messages only. -/
theorem authenticated_sessions_kept :
    (server cfg rules).Run Machine.Free as tr s →
    (∀ call s' evs, step cfg s (.decrypt (.findSession call)) = some (s', evs) →
      (authenticatedOf s'.sessions).Perm (authenticatedOf s.sessions)) ∧
    (∀ call s' evs, step cfg s (.decrypt (.process call)) = some (s', evs) →
      (∀ x, s.datagramSession = some x →
        ∀ y ∈ s'.sessions, y.serial = x.serial → y.authenticated = false) →
      (authenticatedOf s'.sessions).Perm (authenticatedOf s.sessions)) ∧
    ∀ calls s' evs, step cfg s (.decrypt (.drain calls)) = some (s', evs) →
      (∀ y ∈ s.sessions, y.authenticated = true → ∃ y' ∈ s'.sessions, y'.entry = y.entry ∧
        (y' = y ∨ y' = (drainSession cfg s.rules s.now (calls y.serial) y).session)) ∧
      ∀ x ∈ s.sessions, ∀ calls₀ s₀ evs₀, (∀ n, n ≠ x.serial → calls₀ n = calls n) →
        (drainSession cfg s.rules s.now (calls x.serial) x).session.authenticated = false →
        (drainSession cfg s.rules s.now (calls₀ x.serial) x).session.authenticated = false →
        step cfg s (.decrypt (.drain calls₀)) = some (s₀, evs₀) →
        authenticatedOf s'.sessions = authenticatedOf s₀.sessions := by
  intro hr
  have hd := (server_lawful hr).distinct
  refine ⟨fun call s' evs hs => ?_, fun call s' evs hs hunauth => ?_, fun calls s' evs hs => ⟨?_, ?_⟩⟩
  · have hnext : (server cfg rules).Run Machine.Free (as ++ [.decrypt (.findSession call)])
        (tr ++ evs) s' := hr.next trivial hs
    refine authenticatedOf_of_established ?_ (staged_of_run hr) (staged_of_run hnext)
    cases step_cases hs with
    | idle ha => cases ha
    | removed ha => cases ha
    | moved => exact List.Perm.refl _
    | @admission _ datagram _ _ _ _ _ hadmit _ =>
        have heff :=
          admitPeer_effect cfg s.now call datagram s.handshakeLimiter s.sessions s.nextSerial
        rw [← hadmit] at heff
        exact heff.established
  · cases step_cases hs with
    | idle ha => cases ha
    | removed ha => cases ha
    | moved => exact List.Perm.refl _
    | @processed _ incoming index newSession r hpc hprocess =>
        rcases processDatagram_cases hprocess with rfl | ⟨x, hx, heff⟩
        · exact List.Perm.refl _
        · refine heff.authenticatedOf hx (staged_of_run hr x (List.mem_of_getElem? hx)) ?_
          exact hunauth x (by rw [ServerState.datagramSession, hpc]; exact hx)
  · intro y hy hauth
    rw [sessions_drainStep hs]
    split
    · obtain ⟨y', hy', heq⟩ := drainSessions_mem
        (fun z => drainSession cfg s.rules s.now (calls z.serial) z) y hy
      refine ⟨y', hy', ?_, heq⟩
      rcases heq with rfl | rfl
      · rfl
      · exact entry_drainSession_of_authenticated hauth
    · exact ⟨y, hy, rfl, .inl rfl⟩
  · intro x hx calls₀ s₀ evs₀ hcalls hnot hnot₀ hs₀
    rw [sessions_drainStep hs, sessions_drainStep hs₀]
    split
    · refine drainSessions_congr fun y hy => ?_
      by_cases hserial : y.serial = x.serial
      · obtain rfl := ServerState.eq_of_serial hd hx hy hserial
        have hbefore : y.authenticated = false := by
          by_contra hauth
          have hentry : (drainSession cfg s.rules s.now (calls y.serial) y).session.entry =
              y.entry := entry_drainSession_of_authenticated (by simpa using hauth)
          exact hauth ((congrArg Entry.authenticated hentry).symm.trans hnot)
        exact .inr ⟨drainSession_failure hbefore, drainSession_failure hbefore, hnot, hnot₀⟩
      · exact .inl (by simp only [hcalls y.serial hserial])
    · rfl

end Displace

namespace Sample

/-- The first peer is connected, and the second has sent a datagram. -/
def knocking : List Action :=
  turn silent 1 false ++ turn silent 1 true ++ (turn silent 2 false).take 5

/-- The datagram of the second peer, with a valid cookie, is looked at. -/
def lookAt : Option (ServerState × List Event) :=
  step config (outcome none knocking).1 (.decrypt (.findSession ⟨.ok (), .ok true, .ok ()⟩))

theorem lookAt_isSome : lookAt.isSome = true := by decide +kernel

end Sample

theorem authenticated_sessions_kept_knocking :
    (authenticatedOf (Sample.lookAt.get Sample.lookAt_isSome).1.sessions).Perm
      (authenticatedOf (Sample.outcome none Sample.knocking).1.sessions) :=
  (authenticated_sessions_kept (run_sample (by decide +kernel))).1 _ _ _
    (Option.some_get Sample.lookAt_isSome).symm

end AutobricksVpn
