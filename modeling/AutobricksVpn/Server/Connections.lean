/-
# `AutobricksVpn.Server.Connections` — the connection events of a session

The lines of `syslog_connection_event`: `client connected` where a session
becomes usable, after its handshake or after its login, and `client
disconnected` in the destructor, for a session whose flag `authenticated` is
set.  The two belong together as brackets (`Bracketed`).

The flag is set before the last check of a completed handshake.  A client
without a login for whom there is no room has it set when it is refused, and
its destructor logs an end without a beginning (`refused_logs_disconnected`).
In every run without such a refusal the events of every session are brackets
(`connection_brackets`).
-/
import AutobricksVpn.Server.Shifts

namespace AutobricksVpn

/-- The two lines, without the usage figures and the reason. -/
inductive Connection where
  | connected (address : Ipv4Addr) (fingerprint : String)
  | disconnected (address : Ipv4Addr) (fingerprint : String)
  deriving DecidableEq

def Event.connection? : Event → Option Connection
  | .connected x => some (.connected x.address (x.fingerprint.getD ""))
  | .dropped x =>
      if x.authenticated then some (.disconnected x.address (x.fingerprint.getD "unknown")) else none
  | _ => none

/-- The connection events of session `n`, in order. -/
def connectionsOf (n : Nat) (tr : List Event) : List Connection :=
  (eventsOf n tr).filterMap Event.connection?

/-- Nothing, a beginning, or a beginning and its end. -/
inductive Bracketed : List Connection → Prop
  | none : Bracketed []
  | connected (address : Ipv4Addr) (fingerprint : String) :
      Bracketed [.connected address fingerprint]
  | disconnected (address : Ipv4Addr) (fingerprint : String) :
      Bracketed [.connected address fingerprint, .disconnected address fingerprint]

/-- The connection events of a life. -/
def connections (log : List Observation) : List Connection :=
  (log.filterMap Observation.event?).filterMap Event.connection?

/-- The handshake of a client without a login is complete, and there is no room for it. -/
def RefusesUsable (cfg : ServerConfig) (s : ServerState) (a : Action) : Prop :=
  ∃ c, Refused cfg s a c ∧ s.rules.logins.lookup c.address = none

/-! ## Between connecting and leaving -/

/-- A session that is there logged its connection when it became usable. -/
structure Announced (log : List Observation) (e : Entry) : Prop where
  pending : e.established = false → e.authenticated = false
  fingerprint : e.established = true → e.fingerprint.isSome = true
  log : connections log =
    if e.authenticated then [.connected e.address (e.fingerprint.getD "")] else []

/-- A session that is gone. -/
structure Departed (log : List Observation) : Prop where
  bracketed : Bracketed (connections log)
  refused : ∀ x, .logged (.dropped x) ∈ log → x.authenticated = false → connections log = []

section Lives

variable {cfg : ServerConfig} {rules : Rules} {now : Instant} {s : ServerState} {a : Action}
  {e : Entry} {α α' : Account} {l log log' : List Observation}

theorem connections_append : connections (log ++ log') = connections log ++ connections log' := by
  rw [connections, List.filterMap_append, List.filterMap_append, connections, connections]

theorem Announced.quiet : Announced l e → connections log = [] → Announced (l ++ log) e := by
  intro h hnone
  refine ⟨h.pending, h.fingerprint, ?_⟩
  rw [connections_append, hnone, List.append_nil, h.log]

theorem Announced.nothing : Announced l e → e.authenticated = false → connections l = [] := by
  intro h hauth
  rw [h.log, hauth]
  rfl

theorem Change.announced :
    Change cfg rules now α α' log → Announced l α.entry → Announced (l ++ log) α'.entry := by
  intro hc h
  cases hc with
  | wrote _ _ =>
      refine h.quiet ?_
      rw [connections, filterMap_written]
      rfl
  | routed _ _ _ | read _ | keepalive _ _ | delivered _ _ _ | undelivered _ _ _ => exact h.quiet rfl
  | @loggedIn x _ _ hest hauth _ hx =>
      have hlog := h.nothing hauth
      refine ⟨fun hpend => absurd (hest.symm.trans hpend) (by decide), h.fingerprint, ?_⟩
      have haddr : x.address = α.entry.address := congrArg Entry.address hx
      have hfp : x.fingerprint = α.entry.fingerprint := congrArg Entry.fingerprint hx
      rw [connections_append, hlog]
      show [Connection.connected x.address (x.fingerprint.getD "")] =
        [.connected α.entry.address (α.entry.fingerprint.getD "")]
      rw [haddr, hfp]
  | loginRejected hest hauth _ _ =>
      have hlog := h.nothing hauth
      refine ⟨fun _ => rfl, h.fingerprint, ?_⟩
      rw [connections_append, hlog]
      rfl
  | @established x y c hpend hx hy =>
      have hlog := h.nothing (h.pending hpend)
      have hest : x.entry.established = true := by rw [hx]; rfl
      have hfingerprint : x.entry.fingerprint = some c.fingerprint := by rw [hx]; rfl
      show Announced _ x.entry
      refine ⟨fun hno => absurd (hest.symm.trans hno) (by decide),
        fun _ => by rw [hfingerprint]; rfl, ?_⟩
      rw [connections_append, hlog]
      by_cases hauth : x.entry.authenticated = true
      · have haddr : y.address = x.entry.address := congrArg Entry.address hy
        have hfp : y.fingerprint = x.entry.fingerprint := congrArg Entry.fingerprint hy
        rw [if_pos hauth, if_pos hauth]
        show [Connection.connected y.address (y.fingerprint.getD "")] =
          [.connected x.entry.address (x.entry.fingerprint.getD "")]
        rw [haddr, hfp]
      · rw [if_neg hauth, if_neg hauth]
        rfl

/-- The last step of a session, unless it is refused while its flag is set. -/
theorem Leave.departed :
    Leave cfg s a α log → ¬ RefusesUsable cfg s a → Announced l α.entry →
    (∀ x, .logged (.dropped x) ∉ l) → Departed (l ++ log) := by
  intro hleave hroom h hstays
  cases hleave with
  | @dropped x =>
      have hlog := h.log
      have hdropped : ∀ y, .logged (.dropped y) ∈ l ++ [.logged (.dropped x)] → y = x := by
        intro y hy
        rcases List.mem_append.mp hy with hy | hy
        · exact absurd hy (hstays y)
        · cases List.mem_singleton.mp hy
          rfl
      cases hauth : x.authenticated with
      | true =>
          have hend : connections [.logged (.dropped x)] =
              [.disconnected x.address (x.fingerprint.getD "unknown")] := by
            simp [connections, Observation.event?, Event.connection?, hauth]
          have hest : x.established = true := by
            by_contra hpend
            have hno : x.authenticated = false := h.pending (eq_false_of_ne_true hpend)
            exact absurd (hno.symm.trans hauth) (by decide)
          obtain ⟨f, hf⟩ := Option.isSome_iff_exists.mp (h.fingerprint hest)
          have hf : x.fingerprint = some f := hf
          have hbegin : connections l = [.connected x.address f] := by
            rw [hlog, show x.account.entry.authenticated = true from hauth]
            show [Connection.connected x.address (x.fingerprint.getD "")] = _
            rw [hf]
            rfl
          refine ⟨?_, fun y hy hno => ?_⟩
          · rw [connections_append, hbegin, hend, hf]
            exact .disconnected _ _
          · rw [hdropped y hy, hauth] at hno
            exact absurd hno (by decide)
      | false =>
          have hbegin : connections l = [] := h.nothing hauth
          have hend : connections [.logged (.dropped x)] = [] := by
            simp [connections, Observation.event?, Event.connection?, hauth]
          have hnone : connections (l ++ [.logged (.dropped x)]) = [] := by
            rw [connections_append, hbegin, hend]
            rfl
          exact ⟨by rw [hnone]; exact .none, fun _ _ _ => hnone⟩
  | @refused _ x y c hrefused hpend hx hy =>
      have hlogin : s.rules.logins.lookup c.address ≠ none := fun hnone =>
        hroom ⟨c, hrefused, hnone⟩
      have hauth : y.authenticated = false := by
        have hyauth : y.authenticated = x.entry.authenticated :=
          congrArg (fun β : Account => β.entry.authenticated) hy
        rw [hyauth, hx]
        exact Option.isNone_eq_false_iff.mpr (Option.isSome_iff_ne_none.mpr hlogin)
      have hbegin : connections l = [] := h.nothing (h.pending hpend)
      have hend : connections [.logged (.queued x (handshakeAnswer s.rules c.address) .auth),
          .logged (.dropped y)] = [] := by
        simp [connections, Observation.event?, Event.connection?, hauth]
      have hnone : connections (l ++ [.logged (.queued x (handshakeAnswer s.rules c.address) .auth),
          .logged (.dropped y)]) = [] := by rw [connections_append, hbegin, hend]; rfl
      exact ⟨by rw [hnone]; exact .none, fun _ _ _ => hnone⟩

theorem Announced.bracketed : Announced l e → Bracketed (connections l) := by
  intro h
  rw [h.log]
  cases e.authenticated with
  | true => exact .connected _ _
  | false => exact .none

theorem lived_announced :
    ¬ RefusesUsable cfg s a →
    Lived cfg s a (fun l α => Announced l α.entry ∧ ∀ x, .logged (.dropped x) ∉ l) Departed := by
  intro hroom
  refine ⟨fun n peer peerSize => ⟨⟨fun _ => rfl, fun hest => ?_, rfl⟩, ?_⟩, ?_, ?_⟩
  · exact absurd hest Bool.false_ne_true
  · intro x hx
    cases List.mem_singleton.mp hx
  · intro α α' l log hc h
    refine ⟨hc.announced h.1, fun x hx => ?_⟩
    rcases List.mem_append.mp hx with hx | hx
    · exact h.2 x hx
    · exact hc.not_dropped x hx
  · intro α l log hleave h
    exact hleave.departed hroom h.1 h.2

end Lives

/-! ## Every run -/

section Runs

variable {cfg : ServerConfig} {rules : Rules} {as : List Action} {tr : List Event} {s : ServerState}

/-- **Brackets.**  In every run in which nobody without a login is refused
after its handshake, the connection events of every session are brackets, also
when the server has ended; and a session that was dropped before it became
usable has none. -/
theorem connection_brackets :
    (server cfg rules).Run (fun s a => ¬ RefusesUsable cfg s a) as tr s →
    (∀ n, Bracketed (connectionsOf n tr)) ∧
    (∀ n, Bracketed (connectionsOf n (tr ++ dropAll s.sessions))) ∧
    ∀ x, .dropped x ∈ tr → x.authenticated = false → connectionsOf x.serial tr = [] := by
  intro hr
  obtain ⟨log, hlog, rfl⟩ := observed_of_run hr
  have hliving := Run.living hlog (fun _ _ hG => lived_announced hG)
    ⟨.none, fun _ hx => absurd hx List.not_mem_nil⟩
  have hlife : ∀ n log, connectionsOf n (log.filterMap Observation.event?) = connections (life n log) := by
    intro n log
    rw [connectionsOf, ← life_event?, ← connections]
  refine ⟨fun n => ?_, fun n => ?_, fun x hx hno => ?_⟩
  · rw [hlife]
    by_cases hn : ∃ x ∈ s.sessions, x.serial = n
    · obtain ⟨x, hx, rfl⟩ := hn
      exact (hliving.session hx).1.bracketed
    · exact (hliving.gone fun x hx heq => hn ⟨x, hx, heq⟩).bracketed
  · have hroom : ¬ RefusesUsable cfg s .deactivate := by
      rintro ⟨c, ⟨⟨call, incoming, index, newSession, x, ha, -⟩, -⟩, -⟩
      cases ha
    have hclosed := hliving.closed (n := n) (lived_announced hroom)
    have hend : (log ++ (dropAll s.sessions).map Observation.logged).filterMap Observation.event? =
        log.filterMap Observation.event? ++ dropAll s.sessions := by
      rw [List.filterMap_append, filterMap_logged]
    rw [← hend, hlife]
    exact hclosed.bracketed
  · rw [hlife]
    obtain ⟨o, ho, hevent⟩ := List.mem_filterMap.mp hx
    have hmem : .logged (.dropped x) ∈ life x.serial log := by
      cases o with
      | logged event =>
          cases hevent
          exact List.mem_filter.mpr ⟨ho, beq_self_eq_true _⟩
      | written | delivered => cases hevent
    by_cases hn : ∃ y ∈ s.sessions, y.serial = x.serial
    · obtain ⟨y, hy, hserial⟩ := hn
      have hstays := (hliving.session hy).2
      rw [hserial] at hstays
      exact absurd hmem (hstays x)
    · exact (hliving.gone fun y hy heq => hn ⟨y, hy, heq⟩).refused x hmem hno

end Runs

/-! ## A refusal that looks like a disconnection -/

namespace Sample

/-- Both clients start a handshake; the first completes it and takes the only
place, then the second completes its own. -/
def lastPlace : List Action :=
  turn silent 1 false ++ turn silent 2 false ++ turn silent 1 true ++
    turnAs fingerprint' silent 2

/-- A client is disconnected, a handshake fails, and the other client connects. -/
def visits : List Action :=
  turn silent 1 true ++ [.control (.pass [.disconnect address] fun _ => ⟨⟨.ok (), []⟩, 0⟩)] ++
    (turn silent 3 true).dropLast ++
    [.decrypt (.process { handshake true with handshake := ⟨.error (IoError.other "alert"), []⟩ })] ++
    turnAs fingerprint' silent 2

/-- There is room for one more. -/
def roomy (s : ServerState) (_ : Action) : Bool :=
  decide (s.sessions.countP (·.established) < twoPlaces.maxClients)

def afterVisits : ServerState × List Event := (server twoPlaces twoClients).outcome roomy visits

end Sample

theorem roomy_of_sample {s : ServerState} {a : Action} :
    Sample.roomy s a = true → ¬ RefusesUsable Sample.twoPlaces s a := by
  rintro hroom ⟨c, hrefused, -⟩
  exact absurd hrefused.full (Nat.not_le.mpr (of_decide_eq_true hroom))

/-- The first session has begun and ended, the second never began, and the third is there. -/
theorem connection_brackets_turn :
    connectionsOf 0 Sample.afterVisits.2 =
        [.connected Sample.address Sample.fingerprint,
          .disconnected Sample.address Sample.fingerprint] ∧
      (∃ x, .dropped x ∈ Sample.afterVisits.2 ∧ x.serial = 1 ∧ connectionsOf 1 Sample.afterVisits.2 = []) ∧
      connectionsOf 2 Sample.afterVisits.2 = [.connected Sample.address' Sample.fingerprint'] ∧
      (∀ n, Bracketed (connectionsOf n Sample.afterVisits.2)) ∧
      ∀ n, Bracketed (connectionsOf n (Sample.afterVisits.2 ++ dropAll Sample.afterVisits.1.sessions)) := by
  have hrun : (server Sample.twoPlaces Sample.twoClients).Run
      (fun s a => ¬ RefusesUsable Sample.twoPlaces s a) Sample.visits Sample.afterVisits.2
      Sample.afterVisits.1 :=
    Machine.run_outcome (fun _ _ h => roomy_of_sample h) (by decide +kernel)
  obtain ⟨hbracketed, hclosed, hnone⟩ := connection_brackets hrun
  refine ⟨by decide +kernel, ?_, by decide +kernel, hbracketed, hclosed⟩
  have hany : Sample.afterVisits.2.any (fun event => match event with
      | .dropped x => x.serial == 1 && !x.authenticated
      | _ => false) = true := by decide +kernel
  obtain ⟨event, hevent, hdropped⟩ := List.any_eq_true.mp hany
  split at hdropped
  · rename_i x
    simp only [Bool.and_eq_true, beq_iff_eq, Bool.not_eq_true'] at hdropped
    exact ⟨x, hevent, hdropped.1, hdropped.1 ▸ hnone x hevent hdropped.2⟩
  · cases hdropped

/-- The session of the second client logs that it was disconnected, and never
that it was connected. -/
theorem refused_logs_disconnected :
    ∃ as tr s, (server Sample.config Sample.twoClients).Run Machine.Free as tr s ∧
      connectionsOf 1 tr = [.disconnected Sample.address' Sample.fingerprint'] ∧
      ¬ Bracketed (connectionsOf 1 tr) := by
  have hr : (server Sample.config Sample.twoClients).Run Machine.Free Sample.lastPlace
      ((server Sample.config Sample.twoClients).outcome (fun _ _ => true) Sample.lastPlace).2
      ((server Sample.config Sample.twoClients).outcome (fun _ _ => true) Sample.lastPlace).1 :=
    Machine.run_outcome (fun _ _ _ => trivial) (by decide +kernel)
  have hlog : connectionsOf 1
      ((server Sample.config Sample.twoClients).outcome (fun _ _ => true) Sample.lastPlace).2 =
      [.disconnected Sample.address' Sample.fingerprint'] := by decide +kernel
  refine ⟨_, _, _, hr, hlog, ?_⟩
  rw [hlog]
  intro hbracketed
  cases hbracketed

end AutobricksVpn
