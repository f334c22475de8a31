/-
# `AutobricksVpn.Server.Publish` — what watchers are told

A watcher gets a report when it registers, and one more each time the identity
of the authenticated sessions is found to differ from the one published last
(`publish_if_changed`).  Between two reports the sessions are changed by the
other workers, and by the commands of the very pass in which it registers.

A watcher that registers is told of the sessions as they are then, and what was
published last is not touched.  So there is one way to leave it behind: the
sessions had changed since, and a later command of the same pass changes them
back (`LeftBehind`).  In all other passes every watcher is up to date afterwards
(`watchers_current`).
-/
import AutobricksVpn.Server.ControlSocket
import AutobricksVpn.Server.Invariants

namespace AutobricksVpn

/-! ## The commands of a pass -/

def Command.disconnects (address : Ipv4Addr) : Command → Bool
  | .disconnect named => address == named
  | .watch | .status | .reload _ | .invalid => false

/-- The sessions that no command of the batch disconnects. -/
def spared (lines : List (Nat × Command)) (sessions : List Session) : List Session :=
  sessions.filter fun x => !(x.established && lines.any fun line => line.2.disconnects x.address)

theorem handleCommand_eq_spared (stream : Nat) (command : Command) (sessions : List Session) :
    (handleCommand sessions command).1 = spared [(stream, command)] sessions := by
  cases command with
  | disconnect address =>
      refine List.filter_congr fun x _ => ?_
      simp [Command.disconnects]
  | watch | status | reload | invalid =>
      refine (List.filter_eq_self.mpr fun x _ => ?_).symm
      simp [Command.disconnects]

theorem spared_nil (sessions : List Session) : spared [] sessions = sessions :=
  List.filter_eq_self.mpr fun x _ => by simp

theorem spared_cons (line : Nat × Command) (lines : List (Nat × Command)) (sessions : List Session) :
    spared (line :: lines) sessions = spared lines (spared [line] sessions) := by
  unfold spared
  rw [List.filter_filter]
  refine List.filter_congr fun x _ => ?_
  cases x.established <;> simp [Bool.and_comm]

theorem handleCommands_eq_spared :
    ∀ (lines : List (Nat × Command)) (sessions : List Session),
      (handleCommands (lines.map Prod.snd) sessions).1 = spared lines sessions := by
  intro lines
  induction lines with
  | nil => exact fun sessions => (spared_nil sessions).symm
  | cons line lines ih =>
      intro sessions
      rw [spared_cons, ← handleCommand_eq_spared line.1 line.2, ← ih]
      rfl

/-! ## Who is registered -/

/-- The first flush of a watcher. -/
def greeting (now : Instant) (calls : SocketCalls) (stream : Nat) (sessions : List Session) :
    Watcher.Flushed :=
  (Watcher.new (Report.message ⟨now, sessions⟩)).flush (calls.greets stream)

/-- The watchers that the lines of a pass register. -/
inductive Registered (now : Instant) (calls : SocketCalls) (lines : List (Nat × Command))
    (sessions : List Session) : Subscriber → Prop
  | watch {before after : List (Nat × Command)} {stream : Nat} :
      lines = before ++ (stream, .watch) :: after →
      (greeting now calls stream (spared before sessions)).ok = true →
      Registered now calls lines sessions
        ⟨stream, (greeting now calls stream (spared before sessions)).watcher,
          ⟨now, spared before sessions⟩⟩

section Passes

variable {now : Instant} {calls : SocketCalls} {lines : List (Nat × Command)}
  {sessions : List Session} {w : Subscriber} {c : ControlSocket}

theorem registered_nil : ¬ Registered now calls [] sessions w := by
  rintro ⟨h, -⟩
  exact absurd h.symm (List.append_ne_nil_of_right_ne_nil _ (List.cons_ne_nil _ _))

theorem registered_cons {line : Nat × Command} :
    Registered now calls (line :: lines) sessions w ↔
      (line.2 = .watch ∧ (greeting now calls line.1 sessions).ok = true ∧
        w = ⟨line.1, (greeting now calls line.1 sessions).watcher, ⟨now, sessions⟩⟩) ∨
      Registered now calls lines (spared [line] sessions) w := by
  constructor
  · rintro @⟨before, after, stream, hlines, hok⟩
    cases before with
    | nil =>
        obtain ⟨rfl, -⟩ := List.cons.inj hlines
        rw [spared_nil] at hok ⊢
        exact .inl ⟨rfl, hok, rfl⟩
    | cons first before =>
        obtain ⟨rfl, hrest⟩ := List.cons.inj hlines
        rw [spared_cons] at hok ⊢
        exact .inr (.watch hrest hok)
  · rintro (⟨hwatch, hok, rfl⟩ | @⟨before, after, stream, hlines, hok⟩)
    · obtain ⟨stream, command⟩ := line
      obtain rfl : command = .watch := hwatch
      have h := @Registered.watch now calls ((stream, .watch) :: lines) sessions [] lines stream rfl
      rw [spared_nil] at h
      exact h hok
    · rw [← spared_cons] at hok ⊢
      exact .watch (congrArg (line :: ·) hlines) hok

/-- Serving registers the watchers of the lines, and publishes nothing. -/
theorem serve_watchers (now : Instant) (calls : SocketCalls) (pending : List PendingCommand)
    (c : ControlSocket) (sessions : List Session) :
    (ControlSocket.serve now calls pending c sessions).control.lastIdentity = c.lastIdentity ∧
      ∀ w, w ∈ (ControlSocket.serve now calls pending c sessions).control.watchers ↔
        w ∈ c.watchers ∨ Registered now calls (ControlSocket.batch now calls pending) sessions w := by
  refine ControlSocket.serve_induction
    (motive := fun lines c sessions r => r.control.lastIdentity = c.lastIdentity ∧
      ∀ w, w ∈ r.control.watchers ↔ w ∈ c.watchers ∨ Registered now calls lines sessions w)
    ?_ (fun _ _ _ _ _ h => h) ?_ pending c sessions
  · intro c sessions
    exact ⟨rfl, fun w => ⟨.inl, fun h => h.resolve_right registered_nil⟩⟩
  · intro stream line lines c sessions r h
    obtain ⟨hidentity, hwatchers⟩ := h
    have hleft := (ControlSocket.handleCommand_sessions now calls c stream line sessions).1
    rw [handleCommand_eq_spared stream] at hleft
    have hfirst : (c.handleCommand now calls stream line sessions).control.lastIdentity =
          c.lastIdentity ∧
        ∀ w, w ∈ (c.handleCommand now calls stream line sessions).control.watchers ↔
          w ∈ c.watchers ∨ (readCommand stream line = .watch ∧
            (greeting now calls stream sessions).ok = true ∧
            w = ⟨stream, (greeting now calls stream sessions).watcher, ⟨now, sessions⟩⟩) := by
      unfold ControlSocket.handleCommand
      cases readCommand stream line with
      | watch =>
          cases hok : (greeting now calls stream sessions).ok with
          | true =>
              have hok' := hok
              unfold greeting at hok'
              dsimp only
              rw [if_pos hok']
              refine ⟨rfl, fun w => ?_⟩
              rw [List.mem_append, List.mem_singleton]
              exact or_congr_right ⟨fun h => ⟨rfl, rfl, h⟩, fun h => h.2.2⟩
          | false =>
              have hok' := ne_true_of_eq_false hok
              unfold greeting at hok'
              dsimp only
              rw [if_neg hok']
              exact ⟨rfl, fun w => ⟨.inl, fun h => h.resolve_right fun h => Bool.false_ne_true h.2.1⟩⟩
      | status | reload | disconnect | invalid =>
          exact ⟨rfl, fun w => ⟨.inl, fun h => h.resolve_right fun h => by cases h.1⟩⟩
    refine ⟨hidentity.trans hfirst.1, fun w => ?_⟩
    rw [registered_cons, ← hleft, ← or_assoc, ← hfirst.2 w]
    exact hwatchers w

theorem mem_flushWatchers {pushes : Nat → List (Except IoError Nat)} {watchers : List Subscriber} :
    w ∈ ControlSocket.flushWatchers pushes watchers ↔
      ∃ v ∈ watchers, (v.watcher.flush (pushes v.stream)).ok = true ∧
        w = { v with watcher := (v.watcher.flush (pushes v.stream)).watcher } := by
  unfold ControlSocket.flushWatchers
  rw [List.mem_filterMap]
  refine exists_congr fun v => and_congr_right fun _ => ?_
  dsimp only
  split
  · rename_i hok
    exact ⟨fun h => ⟨hok, (Option.some.inj h).symm⟩, fun h => congrArg some h.2.symm⟩
  · rename_i hok
    exact ⟨fun h => (by cases h), fun h => absurd h.1 hok⟩

/-- Whoever is told is told of the same sessions as what was published last. -/
def ControlSocket.InStep (c : ControlSocket) : Prop :=
  ∀ w ∈ c.watchers, sessionIdentity w.given.sessions = c.lastIdentity

/-- Once it has compared, what was published last is the identity of the sessions. -/
theorem publishIfChanged_lastIdentity (pushes : Nat → List (Except IoError Nat)) :
    (c.publishIfChanged now pushes sessions).lastIdentity = sessionIdentity sessions := by
  unfold ControlSocket.publishIfChanged
  dsimp only
  split
  · rfl
  · rename_i h
    exact (not_ne_iff.mp h).symm

/-- A change is told to everybody. -/
theorem publishIfChanged_told {pushes : Nat → List (Except IoError Nat)} :
    sessionIdentity sessions ≠ c.lastIdentity →
    ∀ w ∈ (c.publishIfChanged now pushes sessions).watchers, w.given = ⟨now, sessions⟩ := by
  intro hchanged w hw
  unfold ControlSocket.publishIfChanged at hw
  dsimp only at hw
  rw [if_pos hchanged] at hw
  obtain ⟨v, hv, -, rfl⟩ := mem_flushWatchers.mp hw
  obtain ⟨u, -, rfl⟩ := List.mem_map.mp hv
  rfl

/-- Without a change the watchers are the ones that were there. -/
theorem mem_publishIfChanged {pushes : Nat → List (Except IoError Nat)} :
    sessionIdentity sessions = c.lastIdentity →
    (w ∈ (c.publishIfChanged now pushes sessions).watchers ↔
      ∃ v ∈ c.watchers, (v.watcher.flush (pushes v.stream)).ok = true ∧
        w = { v with watcher := (v.watcher.flush (pushes v.stream)).watcher }) := by
  intro hsame
  unfold ControlSocket.publishIfChanged
  dsimp only
  rw [if_neg (not_not_intro hsame)]
  exact mem_flushWatchers

theorem ControlSocket.InStep.publishIfChanged (pushes : Nat → List (Except IoError Nat)) :
    c.InStep → (c.publishIfChanged now pushes sessions).InStep := by
  intro h w hw
  rw [publishIfChanged_lastIdentity]
  by_cases hsame : sessionIdentity sessions = c.lastIdentity
  · obtain ⟨v, hv, -, rfl⟩ := (mem_publishIfChanged hsame).mp hw
    exact (h v hv).trans hsame.symm
  · rw [publishIfChanged_told hsame w hw]

/-- The last report is of the sessions as they are. -/
def UpToDate (sessions : List Session) (w : Subscriber) : Prop :=
  sessionIdentity w.given.sessions = sessionIdentity sessions

/-- The commands leave the sessions as they were published last, and a watcher
that stays was told of something else in between. -/
def LeftBehind (now : Instant) (calls : SocketCalls) (lastIdentity : String)
    (lines : List (Nat × Command)) (sessions : List Session) : Prop :=
  sessionIdentity (spared lines sessions) = lastIdentity ∧
    ∃ w, Registered now calls lines sessions w ∧
      (w.watcher.flush (calls.pushes w.stream)).ok = true ∧
      sessionIdentity w.given.sessions ≠ lastIdentity

theorem process_eq {arrivals : List (Except IoError Nat)} {r : Processed} :
    c.process now arrivals calls sessions = .ok r →
    ∃ pending, ControlSocket.acceptAll now arrivals c.pending = .ok pending ∧
      r.sessions = spared (ControlSocket.batch now calls pending) sessions ∧
      r.control = (ControlSocket.serve now calls pending { c with pending := [] }
        sessions).control.publishIfChanged now calls.pushes r.sessions := by
  intro h
  unfold ControlSocket.process at h
  split at h
  · cases h
  · rename_i pending hpending
    obtain rfl := Except.ok.inj h
    refine ⟨pending, hpending, ?_, rfl⟩
    exact (ControlSocket.serve_sessions pending _ sessions).1.trans (handleCommands_eq_spared _ _)

/-- One pass. -/
theorem process_upToDate {arrivals : List (Except IoError Nat)} {pending : List PendingCommand}
    {r : Processed} :
    c.InStep → ControlSocket.acceptAll now arrivals c.pending = .ok pending →
    c.process now arrivals calls sessions = .ok r →
    ((∀ w ∈ r.control.watchers, UpToDate r.sessions w) ↔
      ¬ LeftBehind now calls c.lastIdentity (ControlSocket.batch now calls pending) sessions) := by
  intro hstep hpending h
  obtain ⟨pending', hpending', hsessions, hcontrol⟩ := process_eq h
  obtain rfl := Except.ok.inj (hpending.symm.trans hpending')
  obtain ⟨hlast, hmem⟩ := serve_watchers now calls pending
    { c with pending := [] } sessions
  rw [hcontrol]
  by_cases hsame : sessionIdentity r.sessions = c.lastIdentity
  · have hpublish := fun w =>
      @mem_publishIfChanged now r.sessions w _ calls.pushes (hsame.trans hlast.symm)
    constructor
    · rintro hall ⟨-, w, hw, hok, hdiffers⟩
      refine hdiffers ?_
      rw [← hsame]
      exact hall { w with watcher := (w.watcher.flush (calls.pushes w.stream)).watcher }
        ((hpublish _).mpr ⟨w, (hmem w).mpr (.inr hw), hok, rfl⟩)
    · intro hnot w hw
      obtain ⟨v, hv, hok, rfl⟩ := (hpublish w).mp hw
      show sessionIdentity v.given.sessions = sessionIdentity r.sessions
      rw [hsame]
      rcases (hmem v).mp hv with hv | hv
      · exact hstep v hv
      · refine not_ne_iff.mp fun hdiffers => hnot ⟨?_, v, hv, hok, hdiffers⟩
        rw [← hsessions]
        exact hsame
  · refine iff_of_true (fun w hw => ?_) fun hleft => hsame ?_
    · have htold := publishIfChanged_told (fun heq => hsame (heq.trans hlast)) w hw
      rw [UpToDate, htold]
    · rw [hsessions]
      exact hleft.1

end Passes

/-! ## Runs -/

/-- The control socket beside the sessions that all workers share. -/
structure Reporting where
  control : ControlSocket
  sessions : List Session

/-- What comes between two passes: a worker changes the sessions in any way,
`publish_if_changed` is called again (after expiry and after a reload), a
reload is taken up and answered, connections are found closed. -/
inductive ReportingAction where
  | change (sessions : List Session)
  | process (now : Instant) (arrivals : List (Except IoError Nat)) (calls : SocketCalls)
  | publish (now : Instant) (pushes : Nat → List (Except IoError Nat))
  | takeReload
  | respondReload (ok : Bool)
  | hangUp (stays : Nat → Bool)

/-- `respond_reload`. -/
def reloadResponse (ok : Bool) : String :=
  if ok then "\x7b\"ok\":true\x7d\n" else "\x7b\"ok\":false,\"error\":\"reload_failed\"\x7d\n"

def reporting : Machine Reporting ReportingAction Answer where
  init := { control := .start, sessions := [] }
  step
    | s, .change sessions => some ({ s with sessions := sessions }, [])
    | s, .process now arrivals calls =>
        match s.control.process now arrivals calls s.sessions with
        | .ok r => some ({ control := r.control, sessions := r.sessions }, r.answers)
        | .error _ => none
    | s, .publish now pushes =>
        some ({ s with control := s.control.publishIfChanged now pushes s.sessions }, [])
    | s, .takeReload => some ({ s with control := { s.control with reloadRequested := false } }, [])
    | s, .respondReload ok =>
        some ({ s with control := { s.control with reloadResponses := [] } },
          s.control.reloadResponses.map fun stream => ⟨stream, reloadResponse ok⟩)
    | s, .hangUp stays =>
        some ({ s with control := { s.control with
          watchers := s.control.watchers.filter fun w => stays w.stream } }, [])

/-- The step does not leave a watcher behind. -/
def KeepsUp (s : Reporting) : ReportingAction → Prop
  | .process now arrivals calls =>
      ∀ pending, ControlSocket.acceptAll now arrivals s.control.pending = .ok pending →
        ¬ LeftBehind now calls s.control.lastIdentity (ControlSocket.batch now calls pending) s.sessions
  | .change _ | .publish _ _ | .takeReload | .respondReload _ | .hangUp _ => True

section Runs

variable {G : Reporting → ReportingAction → Prop} {as : List ReportingAction} {tr : List Answer}
  {s : Reporting}

theorem process_step {now : Instant} {arrivals : List (Except IoError Nat)} {calls : SocketCalls}
    {s' : Reporting} {evs : List Answer} :
    reporting.step s (.process now arrivals calls) = some (s', evs) →
    ∃ r, s.control.process now arrivals calls s.sessions = .ok r ∧
      s' = { control := r.control, sessions := r.sessions } ∧ evs = r.answers := by
  intro h
  dsimp only [reporting] at h
  split at h
  · rename_i r hr
    obtain ⟨rfl, rfl⟩ := Prod.mk.inj (Option.some.inj h)
    exact ⟨r, hr, rfl, rfl⟩
  · cases h

/-- One pass: everybody is up to date after it just when it leaves nobody behind. -/
theorem step_upToDate {now : Instant} {arrivals : List (Except IoError Nat)} {calls : SocketCalls}
    {s' : Reporting} {evs : List Answer} :
    s.control.InStep → reporting.step s (.process now arrivals calls) = some (s', evs) →
    ((∀ w ∈ s'.control.watchers, UpToDate s'.sessions w) ↔ KeepsUp s (.process now arrivals calls)) := by
  intro hstep h
  obtain ⟨r, hr, rfl, rfl⟩ := process_step h
  obtain ⟨pending, hpending, -, -⟩ := process_eq hr
  rw [process_upToDate hstep hpending hr]
  constructor
  · intro hnot pending' hpending'
    obtain rfl := Except.ok.inj (hpending.symm.trans hpending')
    exact hnot
  · exact fun hkeeps => hkeeps pending hpending

theorem inStep_of_run : reporting.Run KeepsUp as tr s → s.control.InStep := by
  refine Machine.Run.invariant (fun _ (s : Reporting) => s.control.InStep) ?_ ?_
  · exact fun w hw => absurd hw List.not_mem_nil
  · intro tr s a s' evs hs hG h
    cases a with
    | process now arrivals calls =>
        have hall := (step_upToDate hs h).mpr hG
        obtain ⟨r, hr, rfl, -⟩ := process_step h
        obtain ⟨pending, -, -, hcontrol⟩ := process_eq hr
        intro w hw
        show sessionIdentity w.given.sessions = r.control.lastIdentity
        rw [hcontrol, publishIfChanged_lastIdentity]
        exact hall w hw
    | publish now pushes =>
        obtain ⟨rfl, -⟩ := Prod.mk.inj (Option.some.inj h)
        exact hs.publishIfChanged pushes
    | change | takeReload | respondReload =>
        obtain ⟨rfl, -⟩ := Prod.mk.inj (Option.some.inj h)
        exact hs
    | hangUp stays =>
        obtain ⟨rfl, -⟩ := Prod.mk.inj (Option.some.inj h)
        exact fun w hw => hs w (List.mem_filter.mp hw).1

/-! ## The report given last -/

/-- What is still to be written ends with `message`, unless all is written. -/
structure Tells (w : Watcher) (message : List UInt8) : Prop where
  next : ∀ bytes, w.next = some bytes → bytes = message
  pending : w.next = none → w.pending ≠ [] → w.pending = message
  idle : w.pending = [] → w.next = none

theorem tells_new (message : List UInt8) : Tells (Watcher.new message) message :=
  ⟨fun _ h => (by cases h), fun _ _ => rfl, fun _ => rfl⟩

theorem Tells.enqueueLatest {w : Watcher} {old : List UInt8} (message : List UInt8) :
    Tells w old → Tells (w.enqueueLatest message) message := by
  intro h
  unfold Watcher.enqueueLatest
  by_cases hidle : w.pending = []
  · rw [if_pos hidle]
    have hnone := h.idle hidle
    refine ⟨fun _ hsome => (by cases hnone.symm.trans hsome), fun _ _ => ?_, fun _ => hnone⟩
    exact congrArg (· ++ message) hidle
  · rw [if_neg hidle]
    exact ⟨fun _ hsome => (Option.some.inj hsome).symm, fun h => (by cases h),
      fun hnil => absurd hnil hidle⟩

theorem Tells.takeNext {w w' : Watcher} {message : List UInt8} :
    Tells w message → w.takeNext = some w' → Tells w' message := by
  intro h hw'
  unfold Watcher.takeNext at hw'
  split at hw'
  · obtain ⟨bytes, hbytes, rfl⟩ := Option.map_eq_some_iff.mp hw'
    rw [h.next bytes hbytes]
    exact tells_new message
  · rw [← Option.some.inj hw']
    exact h

theorem Tells.flush {message : List UInt8} (calls : List (Except IoError Nat)) :
    ∀ {w : Watcher}, Tells w message → Tells (w.flush calls).watcher message := by
  have hidle : Tells Watcher.idle message :=
    ⟨fun _ h => (by cases h), fun _ h => absurd rfl h, fun _ => rfl⟩
  induction calls with
  | nil =>
      intro w h
      unfold Watcher.flush
      cases hnext : w.takeNext with
      | none => exact hidle
      | some w' => exact h.takeNext hnext
  | cons call calls ih =>
      intro w h
      unfold Watcher.flush
      cases hnext : w.takeNext with
      | none => exact hidle
      | some w' =>
          have hw' := h.takeNext hnext
          cases call with
          | error error => exact hw'
          | ok room =>
              dsimp only
              split
              · exact hw'
              · exact ih ⟨hw'.next, hw'.pending, hw'.idle⟩

/-- The report a watcher was given last is the last one it writes. -/
theorem tells_given :
    reporting.Run G as tr s → ∀ w ∈ s.control.watchers, Tells w.watcher w.given.message := by
  have hpublish : ∀ (now : Instant) (pushes : Nat → List (Except IoError Nat)) (c : ControlSocket)
      (sessions : List Session), (∀ w ∈ c.watchers, Tells w.watcher w.given.message) →
      ∀ w ∈ (c.publishIfChanged now pushes sessions).watchers, Tells w.watcher w.given.message := by
    intro now pushes c sessions hc w hw
    unfold ControlSocket.publishIfChanged at hw
    dsimp only at hw
    split at hw
    · obtain ⟨v, hv, -, rfl⟩ := mem_flushWatchers.mp hw
      obtain ⟨u, hu, rfl⟩ := List.mem_map.mp hv
      exact ((hc u hu).enqueueLatest _).flush _
    · obtain ⟨v, hv, -, rfl⟩ := mem_flushWatchers.mp hw
      exact (hc v hv).flush _
  refine Machine.Run.invariant
    (fun _ (s : Reporting) => ∀ w ∈ s.control.watchers, Tells w.watcher w.given.message) ?_ ?_
  · exact fun w hw => absurd hw List.not_mem_nil
  · intro tr s a s' evs hs _ h
    cases a with
    | process now arrivals calls =>
        obtain ⟨r, hr, rfl, -⟩ := process_step h
        obtain ⟨pending, -, -, hcontrol⟩ := process_eq hr
        dsimp only
        rw [hcontrol]
        refine hpublish now calls.pushes _ r.sessions fun w hw => ?_
        rcases ((serve_watchers now calls pending _ s.sessions).2 w).mp hw with hw | ⟨-, -⟩
        · exact hs w hw
        · exact (tells_new _).flush _
    | publish now pushes =>
        obtain ⟨rfl, -⟩ := Prod.mk.inj (Option.some.inj h)
        exact hpublish now pushes s.control s.sessions hs
    | change | takeReload | respondReload =>
        obtain ⟨rfl, -⟩ := Prod.mk.inj (Option.some.inj h)
        exact hs
    | hangUp stays =>
        obtain ⟨rfl, -⟩ := Prod.mk.inj (Option.some.inj h)
        exact fun w hw => hs w (List.mem_filter.mp hw).1

/-- **Watchers are up to date.**  As long as no pass takes the sessions back to
what was published last after telling a new watcher of something else, every
watcher's last report is of the authenticated sessions as they are after a
pass; and a pass that does so leaves one that is not.  The last report is what the
watcher has still to write, at the end, or has written last. -/
theorem watchers_upToDate :
    reporting.Run KeepsUp as tr s → ∀ now arrivals calls s' evs,
    reporting.step s (.process now arrivals calls) = some (s', evs) →
    ((∀ w ∈ s'.control.watchers, UpToDate s'.sessions w) ↔ KeepsUp s (.process now arrivals calls)) ∧
      ∀ w ∈ s'.control.watchers, Tells w.watcher w.given.message := by
  intro hr now arrivals calls s' evs h
  exact ⟨step_upToDate (inStep_of_run hr) h, tells_given (hr.free.next trivial h)⟩

end Runs

/-! ## One pass is enough -/

namespace Sample

/-- The client of the small server, logged in. -/
def connected : Session :=
  { Session.create 0 (peer 1) 16 0 with
    address := address, fingerprint := some fingerprint, established := true
    authenticated := true, establishedAt := some 0 }

/-- Connection `n` sends text `n`; the watchers take nothing yet. -/
def sending (texts : List String) : SocketCalls :=
  { reads := fun n => [.ok (asBytes (texts.getD n ""))], greets := fun _ => [], pushes := fun _ => [] }

def loggedIn : Reporting := { control := .start, sessions := [connected] }

def watch : ReportingAction := .process 0 [.ok 0] (sending ["WATCH\n"])

def watchAndDisconnect : ReportingAction :=
  .process 0 [.ok 0, .ok 1] (sending ["WATCH\n", "DISCONNECT 10.9.1.2\n"])

def stale (s : Reporting) : Bool :=
  s.control.watchers.any fun w =>
    decide (sessionIdentity w.given.sessions ≠ sessionIdentity s.sessions)

end Sample

theorem run_loggedIn {G : Reporting → ReportingAction → Prop}
    (hG : G reporting.init (.change [Sample.connected])) :
    reporting.Run G [.change [Sample.connected]] [] Sample.loggedIn :=
  Machine.Run.next .start hG rfl

theorem watchers_upToDate_registered :
    ∃ s' evs, reporting.step Sample.loggedIn Sample.watch = some (s', evs) ∧
      s'.control.watchers.length = 1 ∧
      ∀ w ∈ s'.control.watchers,
        UpToDate s'.sessions w ∧ Tells w.watcher w.given.message := by
  have hany : (reporting.step Sample.loggedIn Sample.watch).any
      (fun r => r.1.control.watchers.length == 1) = true := by decide +kernel
  obtain ⟨⟨s', evs⟩, hs, hone⟩ := (Option.any_eq_true _ _).mp hany
  obtain ⟨hiff, htells⟩ := watchers_upToDate (run_loggedIn trivial) 0 [.ok 0] _ s' evs hs
  refine ⟨s', evs, hs, eq_of_beq hone, fun w hw => ⟨hiff.mpr ?_ w hw, htells w hw⟩⟩
  intro pending hpending hleft
  have hchanged : (ControlSocket.acceptAll 0 [.ok 0] []).toOption.all (fun pending =>
      decide (sessionIdentity (spared (ControlSocket.batch 0 (Sample.sending ["WATCH\n"]) pending)
        [Sample.connected]) ≠ "")) = true := by decide +kernel
  have hpending : ControlSocket.acceptAll 0 [.ok 0] [] = .ok pending := hpending
  rw [hpending] at hchanged
  exact of_decide_eq_true hchanged hleft.1

/-- The client logs in; before that is published, a connection starts to watch
and another one disconnects the client.  The watcher has it listed for good. -/
theorem watcher_left_behind :
    ∃ as tr s, reporting.Run Machine.Free as tr s ∧ ∃ now arrivals calls s' evs,
      reporting.step s (.process now arrivals calls) = some (s', evs) ∧
      ∃ w ∈ s'.control.watchers,
        Tells w.watcher w.given.message ∧ ¬ UpToDate s'.sessions w := by
  refine ⟨_, [], Sample.loggedIn, run_loggedIn trivial, 0, [.ok 0, .ok 1],
    Sample.sending ["WATCH\n", "DISCONNECT 10.9.1.2\n"], ?_⟩
  have hany : (reporting.step Sample.loggedIn Sample.watchAndDisconnect).any
      (fun r => Sample.stale r.1) = true := by decide +kernel
  obtain ⟨⟨s', evs⟩, hs, hstale⟩ := (Option.any_eq_true _ _).mp hany
  obtain ⟨w, hw, hdiffers⟩ := List.any_eq_true.mp hstale
  have hdiffers : sessionIdentity w.given.sessions ≠ sessionIdentity s'.sessions :=
    of_decide_eq_true hdiffers
  have htells := tells_given (G := Machine.Free) ((run_loggedIn trivial).next trivial hs) w hw
  exact ⟨s', evs, hs, w, hw, htells, hdiffers⟩

end AutobricksVpn
