/-
# `AutobricksVpn.Server.Control` — the session control worker

The parts of `src/server/control.rs` that run under the session lock: the
control pass (commands, DTLS retransmission, expiry) and the purge of a reload.
Reading the file, creating the acceptor and handing the rules to the decrypt
worker happen outside the lock and are steps of their own in
`AutobricksVpn.Server.System`.

All of it only removes sessions (`controlPass_shrinks`, `reloadPurge_shrinks`).
What a purge leaves is established under the new bindings, with logins that are
the same in the old and the new table (`mem_reloadPurge`).
-/
import AutobricksVpn.Lib.RemovalLoop
import AutobricksVpn.Server.Egress

namespace AutobricksVpn

/-- The commands of the control socket.  `WATCH` and `STATUS` only report; the
`stream` of a `RELOAD` is kept for the answer. -/
inductive Command where
  | watch
  | status
  | reload (stream : Nat)
  | disconnect (address : Ipv4Addr)
  | invalid

def Command.reloadStream : Command → Option Nat
  | .reload stream => some stream
  | .watch | .status | .disconnect _ | .invalid => none

/-- The outcomes of the calls a retransmission makes. -/
structure RetransmitCall where
  handleTimeout : DtlsCall Unit
  currentTimeout : Duration

/-- The sessions that satisfy `keep`; the others are dropped as `mark` leaves them. -/
def retainMut (keep : Session → Bool) (mark : Session → Session) (sessions : List Session) :
    List Session × List Event :=
  (sessions.filter keep, dropAll ((sessions.filter fun x => !keep x).map mark))

/-- `handle_command`, as far as it touches sessions. -/
def handleCommand (sessions : List Session) : Command → List Session × List Event
  | .disconnect address =>
      retainMut (fun x => !(x.established && x.address == address)) (Session.because .webDisconnect)
        sessions
  | .watch | .status | .reload _ | .invalid => (sessions, [])

def handleCommands : List Command → List Session → List Session × List Event
  | [], sessions => (sessions, [])
  | command :: commands, sessions =>
      let first := handleCommand sessions command
      let rest := handleCommands commands first.1
      (rest.1, first.2 ++ rest.2)

/-- The body of the retransmission loop: `none` when the session is removed. -/
def retransmit (now : Instant) (calls : Nat → RetransmitCall) (x : Session) : Option Session :=
  if !x.established && x.dtlsDeadline.any (fun deadline => decide (deadline ≤ now)) then
    match (calls x.serial).handleTimeout.result with
    | .error _ => none
    | .ok _ =>
        some { x.emit now (calls x.serial).handleTimeout.sent with
          dtlsDeadline := some (now + (calls x.serial).currentTimeout) }
  else some x

def retransmitAll (now : Instant) (calls : Nat → RetransmitCall) (sessions : List Session) :
    List Session × List Event :=
  let (kept, failed) := Vec.removeLoop (retransmit now calls) sessions.length 0 sessions
  (kept, dropAll (failed.map (Session.because .handshakeTimeoutError)))

def idleLimit (x : Session) : Duration :=
  if x.authenticated then SESSION_IDLE_TIMEOUT
  else if x.established then LOGIN_TIMEOUT
  else HANDSHAKE_TIMEOUT

def idleValid (now : Instant) (x : Session) : Bool := now - x.lastActivity < idleLimit x

def lifetimeValid (cfg : ServerConfig) (now : Instant) (x : Session) : Bool :=
  !x.establishedAt.any fun started => decide (cfg.maxSessionLifetime ≤ now - started)

/-- The `disconnect_reason` an expiring session is given. -/
def markExpired (cfg : ServerConfig) (now : Instant) (x : Session) : Session :=
  if idleValid now x && !lifetimeValid cfg now x then x.because .maxSessionLifetime
  else if !idleValid now x && x.established then x.because .idleTimeout
  else x

def expire (cfg : ServerConfig) (now : Instant) (sessions : List Session) :
    List Session × List Event :=
  retainMut (fun x => idleValid now x && lifetimeValid cfg now x) (markExpired cfg now) sessions

/-- The section under the lock at the start of each turn of the worker. -/
def controlPass (cfg : ServerConfig) (now : Instant) (commands : List Command)
    (calls : Nat → RetransmitCall) (sessions : List Session) : List Session × List Event :=
  let processed := handleCommands commands sessions
  let retransmitted := retransmitAll now calls processed.1
  let expired := expire cfg now retransmitted.1
  (expired.1, processed.2 ++ retransmitted.2 ++ expired.2)

/-- A session survives a reload when it is established, its fingerprint is the
new binding of its address, and the login of its address has not changed. -/
def authorized (logins : AList fun _ : Ipv4Addr => String × String) (rules : Rules) (x : Session) :
    Bool :=
  x.established &&
    (x.fingerprint.any fun actual => rules.bindings.lookup x.address == some actual) &&
    logins.lookup x.address == rules.logins.lookup x.address

def reloadPurge (logins : AList fun _ : Ipv4Addr => String × String) (rules : Rules)
    (sessions : List Session) : List Session × List Event :=
  retainMut (authorized logins rules)
    (fun x => if x.established then x.because .bindingRevoked else x) sessions

/-! ## Nothing but removals -/

theorem Shrinks.refl (sessions : List Session) : Shrinks sessions (sessions, []) :=
  ⟨List.Subperm.refl _, [], rfl⟩

theorem Shrinks.trans {sessions : List Session} {r r' : List Session × List Event}
    (h : Shrinks sessions r) (h' : Shrinks r.1 r') : Shrinks sessions (r'.1, r.2 ++ r'.2) := by
  obtain ⟨removed, hr⟩ := h.dropped
  obtain ⟨removed', hr'⟩ := h'.dropped
  refine ⟨h'.entries.trans h.entries, removed ++ removed', ?_⟩
  rw [hr, hr', dropAll, dropAll, dropAll, List.map_append]

theorem retainMut_shrinks (keep : Session → Bool) (mark : Session → Session)
    (sessions : List Session) : Shrinks sessions (retainMut keep mark sessions) :=
  ⟨(List.filter_sublist.map _).subperm, _, rfl⟩

theorem handleCommand_shrinks (sessions : List Session) :
    ∀ command, Shrinks sessions (handleCommand sessions command) := by
  intro command
  cases command with
  | disconnect address => exact retainMut_shrinks _ _ _
  | watch | status | reload | invalid => exact Shrinks.refl _

theorem handleCommands_shrinks :
    ∀ (commands : List Command) (sessions : List Session),
      Shrinks sessions (handleCommands commands sessions) := by
  intro commands
  induction commands with
  | nil => exact Shrinks.refl
  | cons command commands ih =>
      intro sessions
      exact (handleCommand_shrinks sessions command).trans (ih _)

theorem retransmit_entry {now : Instant} {calls : Nat → RetransmitCall} {x y : Session} :
    retransmit now calls x = some y → y.entry = x.entry := by
  intro h
  unfold retransmit at h
  split at h
  · split at h
    · exact nomatch h
    · rw [← Option.some.inj h]
      rfl
  · rw [← Option.some.inj h]

theorem filterMap_retransmit_sublist (now : Instant) (calls : Nat → RetransmitCall)
    (sessions : List Session) :
    ((sessions.filterMap (retransmit now calls)).map Session.entry).Sublist
      (sessions.map Session.entry) := by
  induction sessions with
  | nil => exact List.Sublist.refl _
  | cons x xs ih =>
      cases hx : retransmit now calls x with
      | none => simpa [List.filterMap_cons, hx] using ih.cons x.entry
      | some y => simpa [List.filterMap_cons, hx, retransmit_entry hx] using ih.cons_cons x.entry

theorem retransmitAll_shrinks (now : Instant) (calls : Nat → RetransmitCall)
    (sessions : List Session) : Shrinks sessions (retransmitAll now calls sessions) := by
  refine ⟨?_, _, rfl⟩
  have hkept := (Vec.removeLoop_kept (retransmit now calls) sessions).map Session.entry
  exact hkept.subperm.trans (filterMap_retransmit_sublist now calls sessions).subperm

theorem controlPass_shrinks (cfg : ServerConfig) (now : Instant) (commands : List Command)
    (calls : Nat → RetransmitCall) (sessions : List Session) :
    Shrinks sessions (controlPass cfg now commands calls sessions) :=
  ((handleCommands_shrinks commands sessions).trans (retransmitAll_shrinks now calls _)).trans
    (retainMut_shrinks _ _ _)

theorem handleCommands_sublist :
    ∀ (commands : List Command) (sessions : List Session),
      (handleCommands commands sessions).1.Sublist sessions := by
  intro commands
  induction commands with
  | nil => exact fun _ => List.Sublist.refl _
  | cons command commands ih =>
      intro sessions
      have hfirst : (handleCommand sessions command).1.Sublist sessions := by
        cases command with
        | disconnect address => exact List.filter_sublist
        | watch | status | reload | invalid => exact List.Sublist.refl _
      exact (ih _).trans hfirst

/-- A pass in which no retransmission fails keeps the order of the sessions. -/
theorem controlPass_sublist {cfg : ServerConfig} {now : Instant} {commands : List Command}
    {calls : Nat → RetransmitCall} {sessions : List Session} :
    (∀ x ∈ sessions, (retransmit now calls x).isSome = true) →
    ((controlPass cfg now commands calls sessions).1.map Session.entry).Sublist
      (sessions.map Session.entry) := by
  intro hsome
  have hcommands := handleCommands_sublist commands sessions
  have hretransmit : (retransmitAll now calls (handleCommands commands sessions).1).1 =
      (handleCommands commands sessions).1.filterMap (retransmit now calls) := by
    rw [retransmitAll, Vec.removeLoop_of_isSome _ _ fun x hx => hsome x (hcommands.subset hx)]
  have hexpired : (controlPass cfg now commands calls sessions).1.Sublist
      ((handleCommands commands sessions).1.filterMap (retransmit now calls)) := by
    rw [← hretransmit]
    exact List.filter_sublist
  exact (hexpired.map _).trans
    ((filterMap_retransmit_sublist now calls _).trans (hcommands.map _))

theorem reloadPurge_shrinks (logins : AList fun _ : Ipv4Addr => String × String) (rules : Rules)
    (sessions : List Session) : Shrinks sessions (reloadPurge logins rules sessions) :=
  retainMut_shrinks _ _ _

/-- What a purge leaves agrees with the new rules. -/
theorem mem_reloadPurge {logins : AList fun _ : Ipv4Addr => String × String} {rules : Rules}
    {sessions : List Session} {x : Session} :
    x ∈ (reloadPurge logins rules sessions).1 →
      x ∈ sessions ∧ x.established = true ∧
      (∃ f, x.fingerprint = some f ∧ rules.bindings.lookup x.address = some f) ∧
      logins.lookup x.address = rules.logins.lookup x.address := by
  intro hx
  obtain ⟨hmem, hauth⟩ := List.mem_filter.mp hx
  simp only [authorized, Bool.and_eq_true, beq_iff_eq, Option.any_eq_true] at hauth
  obtain ⟨⟨hest, f, hf, hbound⟩, hlogins⟩ := hauth
  exact ⟨hmem, hest, ⟨f, hf, hbound⟩, hlogins⟩

end AutobricksVpn
