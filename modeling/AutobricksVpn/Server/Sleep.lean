/-
# `AutobricksVpn.Server.Sleep` — the control worker sleeps until a deadline

The server of `System`, with what the control worker does at the end of a turn:
it looks for the time to wake up, and polls its sockets until then.  One of them
is the wake-up socket.  `control_wake.notify()` makes it readable, and the worker
empties it when `poll` has found it so.

    pass  decide  …    deadlines    poll       ret     drainWake   pass …
    ───────────────    ─────────    ────   ─────────   ─────────
         turn             turn       poll    asleep      polled

A run of this machine is a run of the server (`run_of_timed`).  Every step is a
move of an `Alarm` (`timedStep_move`), so no deadline comes while the worker
sleeps on in `poll` (`timed_sound`).

In a turn with a `RELOAD` there is another wait (`awaiting`), for the
acknowledgement of the decrypt worker, and nothing but that or the end of two
seconds is looked for in it (`reload_wait_oversleeps`).
-/
import AutobricksVpn.Lib.Alarm
import AutobricksVpn.Server.Deadlines

namespace AutobricksVpn

/-! ## The machine -/

/-- How `poll` ends: with a socket that is ready, or none when the time is over;
with `EINTR`; or with an error, which ends the worker. -/
inductive Polled where
  | ready (other : Bool)
  | interrupted
  | failed

inductive TimerPc where
  | turn
  /-- In `recv_timeout`. -/
  | awaiting (began : Instant)
  | deadlines
  | poll (nextWake : Instant)
  | asleep (alarm : Instant)
  | polled (wakeReadable : Bool)

/-- `wake` is whether there is a datagram in the wake-up socket. -/
structure TimedState where
  server : ServerState
  pending : List PendingCommand
  wake : Bool
  timer : TimerPc

inductive TimedAction where
  /-- Of anybody but the control worker. -/
  | other (action : Action)
  | pass (arrivals : List (Except IoError Nat)) (calls : SocketCalls)
      (retransmits : Nat → RetransmitCall)
  /-- A part of a reload. -/
  | goOn (action : ControlAction)
  | deadlines
  | poll
  | ret (outcome : Polled)
  | drainWake

/-- `poll` takes whole milliseconds, and as many as fit in an `i32`. -/
def pollTimeout (timeout : Duration) : Duration := min (timeout / 1000000) 2147483647 * 1000000

/-- How long `recv_timeout` waits for the acknowledgement. -/
def RELOAD_ACK_TIMEOUT : Duration := Duration.fromSecs 2

/-- At the end of a turn come the deadlines. -/
def ControlPc.timer (now : Instant) : ControlPc → TimerPc
  | .pass => .deadlines
  | .decide _ | .purge _ _ | .send _ _ | .stopped => .turn
  | .respond _ => .awaiting now

/-- `recv_timeout` gives up: the time is over, or the decrypt worker is gone, and
the sender with it. -/
def ServerState.givesUp (s : ServerState) (began : Instant) : Bool :=
  decide (began + RELOAD_ACK_TIMEOUT ≤ s.now) ||
    match s.decrypt with
    | .stopped => true
    | _ => false

/-- A step of the server, with the notifications. -/
def TimedState.after (s : TimedState) (a : Action) (r : ServerState × List Event) : TimedState :=
  { s with server := r.1, wake := s.wake || notifiesControl s.server a r.2 }

def timedStep (cfg : ServerConfig) (s : TimedState) :
    TimedAction → Option (TimedState × List Event)
  | .other action =>
      if action.isControl then none
      else (step cfg s.server action).map fun r => (s.after action r, r.2)
  | .pass arrivals calls retransmits =>
      match s.timer with
      | .turn =>
          match ControlSocket.acceptAll s.server.now arrivals s.pending with
          | .error _ =>
              (step cfg s.server (.control .fail)).map fun r => (s.after (.control .fail) r, r.2)
          | .ok pending =>
              let commands := (ControlSocket.batch s.server.now calls pending).map Prod.snd
              let action : Action := .control (.pass commands retransmits)
              (step cfg s.server action).map fun r =>
                ({ s.after action r with
                  pending := ControlSocket.unserved s.server.now calls pending }, r.2)
      | _ => none
  | .goOn action =>
      match s.timer, action with
      | .turn, .decide _ | .turn, .purge | .turn, .send =>
          (step cfg s.server (.control action)).map fun r =>
            ({ s.after (.control action) r with timer := r.1.control.timer r.1.now }, r.2)
      | .awaiting began, .respond answered =>
          if answered || s.server.givesUp began then
            (step cfg s.server (.control action)).map fun r =>
              ({ s.after (.control action) r with timer := r.1.control.timer r.1.now }, r.2)
          else none
      | _, _ => none
  | .deadlines =>
      match s.timer, s.server.lockFree with
      | .deadlines, true =>
          let wake := nextWake cfg s.server.sessions s.pending s.server.nextConfigReload
          some ({ s with timer := .poll wake }, [])
      | _, _ => none
  | .poll =>
      match s.timer with
      | .poll nextWake =>
          let timeout := nextWake - s.server.now
          some ({ s with timer := .asleep (s.server.now + pollTimeout timeout) }, [])
      | _ => none
  | .ret outcome =>
      match s.timer, outcome with
      | .asleep alarm, .ready other =>
          if s.wake || other || decide (alarm ≤ s.server.now) then
            some ({ s with timer := .polled s.wake }, [])
          else none
      | .asleep _, .interrupted => some ({ s with timer := .polled false }, [])
      | .asleep _, .failed =>
          (step cfg s.server (.control .fail)).map fun r =>
            ({ s.after (.control .fail) r with timer := .turn }, r.2)
      | _, _ => none
  | .drainWake =>
      match s.timer with
      | .polled wakeReadable =>
          some ({ s with timer := .turn, wake := s.wake && !wakeReadable }, [])
      | _ => none

/-- The server with the control worker at the start of its first turn. -/
def timed (cfg : ServerConfig) (rules : Rules) : Machine TimedState TimedAction Event :=
  { init := { server := ServerState.start cfg rules, pending := [], wake := false, timer := .turn }
    step := timedStep cfg }

/-! ## A run of the server -/

section Runs

variable {cfg : ServerConfig} {rules : Rules} {s s' : TimedState} {a : TimedAction}
  {as : List TimedAction} {tr evs : List Event} {G : TimedState → TimedAction → Prop}

/-- A part of a reload is a step of the control worker. -/
theorem goOn_eq {action : ControlAction} :
    timedStep cfg s (.goOn action) = some (s', evs) →
    ∃ r, step cfg s.server (.control action) = some r ∧
      s' = { s.after (.control action) r with timer := r.1.control.timer r.1.now } ∧ evs = r.2 := by
  intro h
  have hmap : ∀ {o : Option (ServerState × List Event)},
      (o.map fun r => ({ s.after (.control action) r with timer := r.1.control.timer r.1.now },
        r.2)) = some (s', evs) →
      ∃ r, o = some r ∧
        s' = { s.after (.control action) r with timer := r.1.control.timer r.1.now } ∧
        evs = r.2 := by
    intro o ho
    obtain ⟨r, hr, heq⟩ := Option.map_eq_some_iff.mp ho
    obtain ⟨rfl, rfl⟩ := Prod.mk.inj heq
    exact ⟨r, hr, rfl, rfl⟩
  simp only [timedStep] at h
  split at h
  · exact hmap h
  · exact hmap h
  · exact hmap h
  · split at h
    · exact hmap h
    · cases h
  · cases h

/-- The server does nothing in a step, or one of its own. -/
theorem timedStep_server :
    timedStep cfg s a = some (s', evs) →
    (s'.server = s.server ∧ evs = []) ∨ ∃ action, step cfg s.server action = some (s'.server, evs) := by
  intro h
  cases a with
  | other action =>
      simp only [timedStep] at h
      split at h
      · cases h
      · obtain ⟨r, hr, heq⟩ := Option.map_eq_some_iff.mp h
        obtain ⟨rfl, rfl⟩ := Prod.mk.inj heq
        exact .inr ⟨action, hr⟩
  | pass arrivals calls retransmits =>
      simp only [timedStep] at h
      split at h
      · split at h
        · obtain ⟨r, hr, heq⟩ := Option.map_eq_some_iff.mp h
          obtain ⟨rfl, rfl⟩ := Prod.mk.inj heq
          exact .inr ⟨_, hr⟩
        · obtain ⟨r, hr, heq⟩ := Option.map_eq_some_iff.mp h
          obtain ⟨rfl, rfl⟩ := Prod.mk.inj heq
          exact .inr ⟨_, hr⟩
      · cases h
  | goOn action =>
      obtain ⟨r, hr, rfl, rfl⟩ := goOn_eq h
      exact .inr ⟨_, hr⟩
  | deadlines =>
      simp only [timedStep] at h
      split at h
      · obtain ⟨rfl, rfl⟩ := Prod.mk.inj (Option.some.inj h)
        exact .inl ⟨rfl, rfl⟩
      · cases h
  | poll =>
      simp only [timedStep] at h
      split at h
      · obtain ⟨rfl, rfl⟩ := Prod.mk.inj (Option.some.inj h)
        exact .inl ⟨rfl, rfl⟩
      · cases h
  | ret outcome =>
      simp only [timedStep] at h
      split at h
      · split at h
        · obtain ⟨rfl, rfl⟩ := Prod.mk.inj (Option.some.inj h)
          exact .inl ⟨rfl, rfl⟩
        · cases h
      · obtain ⟨rfl, rfl⟩ := Prod.mk.inj (Option.some.inj h)
        exact .inl ⟨rfl, rfl⟩
      · obtain ⟨r, hr, heq⟩ := Option.map_eq_some_iff.mp h
        obtain ⟨rfl, rfl⟩ := Prod.mk.inj heq
        exact .inr ⟨_, hr⟩
      · cases h
  | drainWake =>
      simp only [timedStep] at h
      split at h
      · obtain ⟨rfl, rfl⟩ := Prod.mk.inj (Option.some.inj h)
        exact .inl ⟨rfl, rfl⟩
      · cases h

theorem run_of_timed :
    (timed cfg rules).Run G as tr s →
    ∃ actions, (server cfg rules).Run Machine.Free actions tr s.server := by
  intro h
  induction h with
  | start => exact ⟨[], .start⟩
  | @next as tr evs s s' a hr _ hstep ih =>
      obtain ⟨actions, hactions⟩ := ih
      rcases timedStep_server hstep with ⟨hsame, rfl⟩ | ⟨action, haction⟩
      · rw [hsame, List.append_nil]
        exact ⟨actions, hactions⟩
      · exact ⟨actions ++ [action], hactions.next trivial haction⟩

end Runs

/-! ## The control worker as a sleeper -/

def TimerPc.phase : TimerPc → Alarm.Phase Instant
  | .turn | .awaiting _ | .deadlines | .polled _ => .working
  | .poll nextWake => .planned nextWake
  | .asleep alarm => .asleep alarm

namespace TimedState

/-- All that `next_wake` is computed from. -/
def deadlines (cfg : ServerConfig) (s : TimedState) : Set Instant := fun deadline =>
  (∃ x ∈ s.server.sessions, deadline ∈ x.deadlines cfg) ∨
    (∃ p ∈ s.pending, deadline = p.deadline) ∨ deadline = s.server.nextConfigReload

def forAlarm (cfg : ServerConfig) (s : TimedState) : Alarm.State Instant :=
  { now := s.server.now, deadlines := s.deadlines cfg, notified := s.wake, phase := s.timer.phase }

end TimedState

section Moves

variable {cfg : ServerConfig} {rules : Rules} {s s' : TimedState} {a : TimedAction}
  {as : List TimedAction} {tr evs : List Event} {G : TimedState → TimedAction → Prop}

/-- A step of another worker puts deadlines off, or notifies. -/
theorem other_move {action : Action} {r : ServerState × List Event}
    (hclock : ∀ x ∈ s.server.sessions, x.lastActivity ≤ s.server.now)
    (haction : action.isControl = false) (hstep : step cfg s.server action = some r) :
    Alarm.Move (s.forAlarm cfg) ((s.after action r).forAlarm cfg) := by
  cases hnotifies : notifiesControl s.server action r.2 with
  | true =>
      refine .notify rfl ?_
      show (s.wake || notifiesControl s.server action r.2) = true
      rw [hnotifies, Bool.or_true]
  | false =>
      have hcontinued := (step_continued haction hstep).resolve_left (by rw [hnotifies]; decide)
      refine .delay rfl ?_ (step_now hstep) ?_
      · show (s.wake || notifiesControl s.server action r.2) = s.wake
        rw [hnotifies, Bool.or_false]
      · rintro deadline (⟨y, hy, hdeadline⟩ | ⟨p, hp, hdeadline⟩ | hdeadline)
        · obtain ⟨x, hx, hxy⟩ := hcontinued y hy
          obtain ⟨before, hbefore, hle⟩ := hxy.putOff (hclock x hx) hdeadline
          exact ⟨before, .inl ⟨x, hx, hbefore⟩, hle⟩
        · exact ⟨deadline, .inr (.inl ⟨p, hp, hdeadline⟩), Nat.le_refl deadline⟩
        · refine ⟨deadline, .inr (.inr ?_), Nat.le_refl deadline⟩
          rw [← (step_control haction hstep).2]
          exact hdeadline

theorem pollTimeout_le (timeout : Duration) : pollTimeout timeout ≤ timeout :=
  Nat.le_trans (Nat.mul_le_mul_right _ (Nat.min_le_left _ _)) (Nat.div_mul_le_self timeout 1000000)

theorem alarm_le (nextWake now : Instant) :
    now + pollTimeout (nextWake - now) ≤ max nextWake now := by
  have hle := pollTimeout_le (nextWake - now)
  rcases Nat.le_total nextWake now with h | h
  · rw [Nat.sub_eq_zero_of_le h] at hle ⊢
    exact Nat.le_trans (Nat.add_le_add_left hle now) (Nat.le_max_right _ _)
  · refine Nat.le_trans (Nat.add_le_add_left hle now) ?_
    rw [Nat.add_sub_cancel' h]
    exact Nat.le_max_left _ _

theorem phase_of_timer (now : Instant) (pc : ControlPc) : (pc.timer now).phase = .working := by
  cases pc <;> rfl

/-- Every step is a move. -/
theorem timedStep_move (hclock : ∀ x ∈ s.server.sessions, x.lastActivity ≤ s.server.now) :
    timedStep cfg s a = some (s', evs) → Alarm.Move (s.forAlarm cfg) (s'.forAlarm cfg) := by
  intro h
  cases a with
  | other action =>
      simp only [timedStep] at h
      split at h
      · cases h
      · rename_i haction
        obtain ⟨r, hr, heq⟩ := Option.map_eq_some_iff.mp h
        obtain ⟨rfl, rfl⟩ := Prod.mk.inj heq
        exact other_move hclock (Bool.eq_false_iff.mpr haction) hr
  | pass arrivals calls retransmits =>
      simp only [timedStep] at h
      split at h
      · rename_i hturn
        have hworking : s.timer.phase = .working := by
          rw [hturn]
          rfl
        split at h
        all_goals
          obtain ⟨r, hr, heq⟩ := Option.map_eq_some_iff.mp h
          obtain ⟨rfl, rfl⟩ := Prod.mk.inj heq
          exact .work hworking
      · cases h
  | goOn action =>
      obtain ⟨r, -, rfl, rfl⟩ := goOn_eq h
      exact .work (phase_of_timer r.1.now r.1.control)
  | deadlines =>
      simp only [timedStep] at h
      split at h
      · obtain ⟨rfl, rfl⟩ := Prod.mk.inj (Option.some.inj h)
        obtain ⟨hreload, hsessions, hpending⟩ :=
          nextWake_le cfg s.server.sessions s.pending s.server.nextConfigReload
        refine .plan rfl ?_
        rintro deadline (⟨x, hx, hdeadline⟩ | ⟨p, hp, rfl⟩ | rfl)
        · exact hsessions x hx deadline hdeadline
        · exact hpending p hp
        · exact hreload
      · cases h
  | poll =>
      simp only [timedStep] at h
      split at h
      · rename_i nextWake hpoll
        obtain ⟨rfl, rfl⟩ := Prod.mk.inj (Option.some.inj h)
        have hplanned : s.timer.phase = .planned nextWake := by
          rw [hpoll]
          rfl
        exact .sleep hplanned rfl (alarm_le nextWake s.server.now) rfl rfl rfl
      · cases h
  | ret outcome =>
      simp only [timedStep] at h
      split at h
      · split at h
        · obtain ⟨rfl, rfl⟩ := Prod.mk.inj (Option.some.inj h)
          exact .work rfl
        · cases h
      · obtain ⟨rfl, rfl⟩ := Prod.mk.inj (Option.some.inj h)
        exact .work rfl
      · obtain ⟨r, hr, heq⟩ := Option.map_eq_some_iff.mp h
        obtain ⟨rfl, rfl⟩ := Prod.mk.inj heq
        exact .work rfl
      · cases h
  | drainWake =>
      simp only [timedStep] at h
      split at h
      · obtain ⟨rfl, rfl⟩ := Prod.mk.inj (Option.some.inj h)
        exact .work rfl
      · cases h

theorem timed_sound : (timed cfg rules).Run G as tr s → Alarm.Sound (s.forAlarm cfg) := by
  intro h
  induction h with
  | start => exact Alarm.sound_of_working rfl
  | next hr _ hstep ih =>
      obtain ⟨actions, hactions⟩ := run_of_timed hr
      exact (timedStep_move (server_clocked hactions) hstep).sound ih

/-! ## The wait for the acknowledgement -/

/-- The control worker that waits for it has handed rules over. -/
def Awaits (s : TimedState) : Prop :=
  ∀ began, s.timer = .awaiting began →
    began ≤ s.server.now ∧ ∃ number, s.server.control = .respond number

theorem awaits_timer {now : Instant} {pc : ControlPc} {began : Instant} :
    pc.timer now = .awaiting began → began = now ∧ ∃ number, pc = .respond number := by
  intro h
  cases pc with
  | respond number =>
      obtain rfl := TimerPc.awaiting.inj h
      exact ⟨rfl, number, rfl⟩
  | pass | decide | purge | send | stopped => cases h

theorem timedStep_awaits (h : Awaits s) : timedStep cfg s a = some (s', evs) → Awaits s' := by
  intro hstep began hbegan
  cases a with
  | other action =>
      simp only [timedStep] at hstep
      split at hstep
      · cases hstep
      · rename_i haction
        obtain ⟨r, hr, heq⟩ := Option.map_eq_some_iff.mp hstep
        obtain ⟨rfl, rfl⟩ := Prod.mk.inj heq
        obtain ⟨hle, number, hpc⟩ := h began hbegan
        exact ⟨Nat.le_trans hle (step_now hr), number,
          (step_control (Bool.eq_false_iff.mpr haction) hr).1.trans hpc⟩
  | pass arrivals calls retransmits =>
      simp only [timedStep] at hstep
      split at hstep
      · rename_i hturn
        split at hstep
        all_goals
          obtain ⟨r, hr, heq⟩ := Option.map_eq_some_iff.mp hstep
          obtain ⟨rfl, rfl⟩ := Prod.mk.inj heq
          exact absurd (hturn.symm.trans hbegan) nofun
      · cases hstep
  | goOn action =>
      obtain ⟨r, hr, rfl, rfl⟩ := goOn_eq hstep
      obtain ⟨rfl, hpc⟩ := awaits_timer hbegan
      exact ⟨Nat.le_refl _, hpc⟩
  | deadlines | poll | drainWake =>
      simp only [timedStep] at hstep
      split at hstep
      · obtain ⟨rfl, rfl⟩ := Prod.mk.inj (Option.some.inj hstep)
        cases hbegan
      · cases hstep
  | ret outcome =>
      simp only [timedStep] at hstep
      split at hstep
      · split at hstep
        · obtain ⟨rfl, rfl⟩ := Prod.mk.inj (Option.some.inj hstep)
          cases hbegan
        · cases hstep
      · obtain ⟨rfl, rfl⟩ := Prod.mk.inj (Option.some.inj hstep)
        cases hbegan
      · obtain ⟨r, hr, heq⟩ := Option.map_eq_some_iff.mp hstep
        obtain ⟨rfl, rfl⟩ := Prod.mk.inj heq
        cases hbegan
      · cases hstep

theorem timed_awaits : (timed cfg rules).Run G as tr s → Awaits s :=
  Machine.Run.invariant (fun _ s => Awaits s) nofun fun h _ hstep => timedStep_awaits h hstep

/-- The answer can be given as soon as the wait is over. -/
theorem respond_isSome {answered : Bool} {number : Nat} {began : Instant}
    (htimer : s.timer = .awaiting began) (hpc : s.server.control = .respond number)
    (hover : (answered || s.server.givesUp began) = true)
    (hack : answered = true → number ∈ s.server.acknowledged) :
    ∃ r, timedStep cfg s (.goOn (.respond answered)) = some r := by
  have hnot : ¬ (answered && !s.server.acknowledged.contains number) = true := by
    cases answered with
    | false => exact Bool.false_ne_true
    | true => simpa using hack rfl
  simp only [timedStep, htimer, hover, if_true, step, controlStep, hpc]
  rw [if_neg hnot]
  exact ⟨_, rfl⟩

/-- **Deadlines.**  A pass removes what has reached the deadlines that the time to
wake up is computed from, and that time is one of them or the next reload; whoever
else brings one forward notifies the control worker, and so `poll` returns by the
time that a deadline has come.  The wait for the acknowledgement of a `RELOAD`
ends with that or after two seconds. -/
theorem deadlines_agree (cfg : ServerConfig) (rules : Rules)
    (hlifetime : MIN_SESSION_LIFETIME ≤ cfg.maxSessionLifetime) :
    (∀ now sessions x, x ∈ sessions →
      (x ∉ (expire cfg now sessions).1 ↔ x.idleDeadline ≤ now ∨
        ∃ deadline ∈ x.lifetimeDeadline cfg, deadline ≤ now)) ∧
    (∀ now commands calls sessions, ∀ x ∈ (controlPass cfg now commands calls sessions).1,
      now < x.idleDeadline ∧ ∀ deadline ∈ x.lifetimeDeadline cfg, now < deadline) ∧
    (∀ sessions pending nextConfigReload,
      nextWake cfg sessions pending nextConfigReload ≤ nextConfigReload ∧
      (∀ x ∈ sessions, ∀ deadline ∈ x.deadlines cfg,
        nextWake cfg sessions pending nextConfigReload ≤ deadline) ∧
      (∀ p ∈ pending, nextWake cfg sessions pending nextConfigReload ≤ p.deadline) ∧
      (nextWake cfg sessions pending nextConfigReload = nextConfigReload ∨
        (∃ x ∈ sessions, nextWake cfg sessions pending nextConfigReload ∈ x.deadlines cfg) ∨
        ∃ p ∈ pending, nextWake cfg sessions pending nextConfigReload = p.deadline)) ∧
    (∀ as tr s a s' evs, (server cfg rules).Run Machine.Free as tr s → a.isControl = false →
      step cfg s a = some (s', evs) → ∀ y ∈ s'.sessions,
        (∀ x ∈ s.sessions, x.serial = y.serial → BroughtForward cfg x y) →
        notifiesControl s a evs = true) ∧
    (∀ as tr s alarm, (timed cfg rules).Run Machine.Free as tr s → s.timer = .asleep alarm →
      ∀ deadline ∈ s.deadlines cfg, deadline ≤ s.server.now →
        s.wake = true ∨ alarm ≤ s.server.now) ∧
    ∀ as tr s began, (timed cfg rules).Run Machine.Free as tr s → s.timer = .awaiting began →
      began ≤ s.server.now ∧
      (s.server.now < began + RELOAD_ACK_TIMEOUT ∨
        ∃ r, timedStep cfg s (.goOn (.respond false)) = some r) ∧
      ∃ number, s.server.control = .respond number ∧
        (number ∈ s.server.acknowledged →
          ∃ r, timedStep cfg s (.goOn (.respond true)) = some r) := by
  refine ⟨fun now sessions x hx => ?_, fun now commands calls sessions x hx => ?_,
    fun sessions pending nextConfigReload => ?_, ?_, ?_, ?_⟩
  · rw [mem_expire hlifetime]
    exact ⟨fun h => Classical.byContradiction fun hne => h ⟨hx, hne⟩, fun h hmem => hmem.2 h⟩
  · have hkept := not_expired_of_pass hlifetime hx
    simp only [Expired, not_or, Nat.not_le, not_exists, not_and] at hkept
    exact hkept
  · obtain ⟨hreload, hsessions, hpending⟩ := nextWake_le cfg sessions pending nextConfigReload
    exact ⟨hreload, hsessions, hpending, nextWake_mem cfg sessions pending nextConfigReload⟩
  · intro as tr s a s' evs hr ha hstep y hy hforward
    exact notifies_of_broughtForward (server_clocked hr) ha hstep hy hforward
  · intro as tr s alarm hr htimer deadline hdeadline hle
    have hphase : (s.forAlarm cfg).phase = .asleep alarm := by
      show s.timer.phase = .asleep alarm
      rw [htimer]
      rfl
    exact (timed_sound hr).due hphase hdeadline hle
  · intro as tr s began hr htimer
    obtain ⟨hle, number, hpc⟩ := timed_awaits hr began htimer
    refine ⟨hle, ?_, number, hpc, fun hack => respond_isSome htimer hpc rfl fun _ => hack⟩
    rcases Nat.lt_or_ge s.server.now (began + RELOAD_ACK_TIMEOUT) with hlt | hge
    · exact .inl hlt
    · refine .inr (respond_isSome htimer hpc ?_ fun h => absurd h Bool.false_ne_true)
      rw [ServerState.givesUp, decide_eq_true hge]
      rfl

end Moves

namespace Sample

def noReload : ControlAction := .decide (.error (IoError.new .other ""))

/-- The control worker goes to sleep, then a handshake goes on, and two seconds go by. -/
def handshakeMeanwhile : List TimedAction :=
  [.pass [] ⟨fun _ => [], fun _ => [], fun _ => []⟩ fun _ => ⟨⟨.ok (), []⟩, 0⟩, .goOn noReload,
    .deadlines, .poll] ++ (turn silent 1 false).map .other ++
    [.other (.tick (Duration.fromSecs 2))]

def sleeping : TimedState :=
  ((timed config (rules none)).outcome (fun _ _ => true) handshakeMeanwhile).1

def alarmOf (s : TimedState) : Option Instant :=
  match s.timer with
  | .asleep alarm => some alarm
  | _ => none

end Sample

theorem timer_of_alarmOf {s : TimedState} {alarm : Instant} (h : Sample.alarmOf s = some alarm) :
    s.timer = .asleep alarm := by
  unfold Sample.alarmOf at h
  split at h
  · rename_i heq
    rw [heq, Option.some.inj h]
  · cases h

/-- The new deadline is at one second; the alarm is set to thirty. -/
theorem deadlines_agree_sleeping :
    ∃ alarm deadline, Sample.sleeping.timer = .asleep alarm ∧
      deadline ∈ Sample.sleeping.deadlines Sample.config ∧
      deadline ≤ Sample.sleeping.server.now ∧
      (Sample.sleeping.wake = true ∨ alarm ≤ Sample.sleeping.server.now) := by
  have hrun := @Machine.run_outcome _ _ _ (timed Sample.config (Sample.rules none)) Machine.Free
    Sample.handshakeMeanwhile (fun _ _ => true) (fun _ _ _ => trivial) (by decide +kernel)
  have htimer := timer_of_alarmOf (s := Sample.sleeping)
    (show Sample.alarmOf Sample.sleeping = some (Duration.fromSecs 30) by decide +kernel)
  have hany : Sample.sleeping.server.sessions.any (fun x =>
      (x.deadlines Sample.config).contains (Duration.fromSecs 1)) = true := by decide +kernel
  obtain ⟨x, hx, hcontains⟩ := List.any_eq_true.mp hany
  have hdeadline : Duration.fromSecs 1 ∈ Sample.sleeping.deadlines Sample.config :=
    .inl ⟨x, hx, List.contains_iff_mem.mp hcontains⟩
  have hdue : Duration.fromSecs 1 ≤ Sample.sleeping.server.now := by decide +kernel
  obtain ⟨-, -, -, -, hsleep, -⟩ :=
    deadlines_agree Sample.config (Sample.rules none) (by decide)
  exact ⟨_, _, htimer, hdeadline, hdue, hsleep _ _ _ _ hrun htimer _ hdeadline hdue⟩

namespace Sample

/-- A handshake goes on while a `RELOAD` is carried out, and the decrypt worker
does not come to the new rules for more than a second. -/
def unacknowledged : List TimedAction :=
  [.pass [.ok 0] (sending ["RELOAD\n"]) fun _ => ⟨⟨.ok (), []⟩, 0⟩,
    .goOn (.decide (.ok (rules none))), .goOn .purge] ++
    (turn silent 1 false).map .other ++
    [.goOn .send, .other (.tick (Duration.fromSecs 1 + 500000000))]

def awaiting : TimedState :=
  ((timed config (rules none)).outcome (fun _ _ => true) unacknowledged).1

/-- No answer can be given yet. -/
def stuck (s : TimedState) (answered : Bool) : Bool :=
  (timedStep config s (.goOn (.respond answered))).isNone

end Sample

/-- The deadline of the handshake comes while the control worker waits for the
acknowledgement, and goes by. -/
theorem reload_wait_oversleeps :
    ∃ as tr s deadline, (timed Sample.config (Sample.rules none)).Run Machine.Free as tr s ∧
      s.timer = .awaiting 0 ∧ deadline ∈ s.deadlines Sample.config ∧
      0 < deadline ∧ deadline < s.server.now ∧
      ∀ answered, timedStep Sample.config s (.goOn (.respond answered)) = none := by
  have hrun := @Machine.run_outcome _ _ _ (timed Sample.config (Sample.rules none)) Machine.Free
    Sample.unacknowledged (fun _ _ => true) (fun _ _ _ => trivial) (by decide +kernel)
  have hany : Sample.awaiting.server.sessions.any (fun x =>
      (x.deadlines Sample.config).contains (Duration.fromSecs 1)) = true := by decide +kernel
  obtain ⟨x, hx, hcontains⟩ := List.any_eq_true.mp hany
  have hstuck : (Sample.stuck Sample.awaiting true && Sample.stuck Sample.awaiting false) = true := by
    decide +kernel
  obtain ⟨htrue, hfalse⟩ := Bool.and_eq_true_iff.mp hstuck
  refine ⟨_, _, Sample.awaiting, Duration.fromSecs 1, hrun, rfl,
    .inl ⟨x, hx, List.contains_iff_mem.mp hcontains⟩, by decide, by decide +kernel, fun answered => ?_⟩
  cases answered with
  | true => exact Option.isNone_iff_eq_none.mp htrue
  | false => exact Option.isNone_iff_eq_none.mp hfalse

end AutobricksVpn
