/-
# `AutobricksVpn.Web.ActivityReplay` — the recorded events, replayed

Who replays what the activity log records, from the addresses of the first
snapshot on, gets at most the addresses of the latest one (`Within`).  While the
connection to the VPN server lasts he gets all of them: a snapshot is compared
with the one before.

When the connection ends, `handleClose` records that all clients have
disconnected.  The first snapshot of the next connection is compared with
nothing, so a client that is still in it stays disconnected in the log: the log
tells the truth in exactly those runs where a new connection begins without
sessions (`replays_iff`).
-/
import AutobricksVpn.Lib.Replay
import AutobricksVpn.Web.ActivityLog

namespace AutobricksVpn

namespace Web

/-- The member `vpnAddress`. -/
def Entry.vpnAddress (entry : Entry) : Option Text :=
  match entry.details.lookup "vpnAddress".toList with
  | some (.string vpnAddress) => some vpnAddress
  | _ => none

/-- What an event says of the set of the connected addresses. -/
def Entry.change (entry : Entry) : Option (SetChange Text) :=
  match entry.type with
  | .clientConnected => entry.vpnAddress.map .add
  | .clientDisconnected => entry.vpnAddress.map .remove
  | .serverStarted | .serverStopped => none

def addresses (sessions : List WatchedSession) : Finset Text :=
  (sessions.map (·.vpnAddress)).toFinset

namespace ActivityLog

/-- The changes recorded, in the order of recording. -/
def changes (log : ActivityLog) : List (SetChange Text) := log.recorded.filterMap Entry.change

def keys (log : ActivityLog) : List Text := log.sessions.map Prod.fst

/-- The addresses that are connected when the changes are replayed. -/
def replayed (start : Finset Text) (log : ActivityLog) : Finset Text :=
  SetChange.replay start log.changes

section Replay

variable (localeCompare : Text → Text → Ordering) (stamps : Nat → Stamp)

/-! ## What the handlers record -/

/-- `log'` has recorded these changes after `log`, and is otherwise as connected. -/
structure Logged (log log' : ActivityLog) (more : List (SetChange Text)) : Prop where
  changes : log'.changes = log.changes ++ more
  sessions : log'.sessions = log.sessions
  connected : log'.connected = log.connected

theorem Logged.trans {log log₁ log₂ : ActivityLog} {more more' : List (SetChange Text)}
    (h : Logged log log₁ more) (h' : Logged log₁ log₂ more') : Logged log log₂ (more ++ more') where
  changes := by rw [h'.changes, h.changes, List.append_assoc]
  sessions := h'.sessions.trans h.sessions
  connected := h'.connected.trans h.connected

theorem Logged.replayed {log log' : ActivityLog} {more : List (SetChange Text)}
    (h : Logged log log' more) (start : Finset Text) :
    log'.replayed start = SetChange.replay (log.replayed start) more := by
  rw [ActivityLog.replayed, h.changes, SetChange.replay_append]
  rfl

theorem logged_record (type : EventType) (details : List (Text × Json)) (occurredAt : Option Text)
    (log : ActivityLog) :
    Logged log (log.record localeCompare stamps type details occurredAt).1
      (log.nextEntry stamps type details occurredAt).change.toList where
  changes := by
    unfold ActivityLog.changes
    rw [record_recorded, List.filterMap_append]
    rfl
  sessions := record_sessions localeCompare stamps type details occurredAt log
  connected := record_connected localeCompare stamps type details occurredAt log

/-- The change that an event of this type is. -/
def changeOf (type : EventType) (vpnAddress : Text) : List (SetChange Text) :=
  match type with
  | .clientConnected => [.add vpnAddress]
  | .clientDisconnected => [.remove vpnAddress]
  | .serverStarted | .serverStopped => []

theorem change_client (n : Nat) (type : EventType) (vpnAddress : Text) (session : WatchedSession)
    (occurredAt : Option Text) :
    (entryOf stamps n type (clientDetails vpnAddress session) occurredAt).change.toList =
      changeOf type vpnAddress := by
  cases type <;> rfl

theorem flatMap_added (keys : List Text) :
    keys.flatMap (changeOf .clientConnected) = keys.map .add :=
  List.map_eq_flatMap.symm

theorem flatMap_removed (keys : List Text) :
    keys.flatMap (changeOf .clientDisconnected) = keys.map .remove :=
  List.map_eq_flatMap.symm

theorem map_filter_keys (map : List (Text × WatchedSession)) (known : List Text) :
    (map.filter (·.1 ∉ known)).map Prod.fst = (map.map Prod.fst).filter (· ∉ known) := by
  rw [List.filter_map]
  rfl

/-- The replayed addresses are among those of the latest snapshot; between two
connections there are none. -/
structure Within (start : Finset Text) (log : ActivityLog) : Prop where
  subset : log.connected = true → log.replayed start ⊆ log.keys.toFinset
  empty : log.connected = false → log.replayed start = ∅

/-- While connected they are those of the latest snapshot. -/
structure Exact (start : Finset Text) (log : ActivityLog) : Prop where
  eq : log.connected = true → log.replayed start = log.keys.toFinset
  empty : log.connected = false → log.replayed start = ∅

theorem Exact.within {start : Finset Text} {log : ActivityLog} (h : Exact start log) :
    Within start log :=
  ⟨fun hconnected => (h.eq hconnected).subset, h.empty⟩

section Written

variable {stamps} (hwritten : ∀ n, (stamps n).written = none)
include hwritten

theorem record_written (type : EventType) (details : List (Text × Json))
    (occurredAt : Option Text) (log : ActivityLog) :
    (log.record localeCompare stamps type details occurredAt).2 = none := by
  rw [record_throws, hwritten]

theorem recordClients_written (type : EventType) (clients : List (Text × WatchedSession)) :
    ∀ log : ActivityLog, ∃ log', log.recordClients localeCompare stamps type clients = (log', none) ∧
      Logged log log' ((clients.map Prod.fst).flatMap (changeOf type)) := by
  induction clients with
  | nil => exact fun log => ⟨log, rfl, (List.append_nil _).symm, rfl, rfl⟩
  | cons client clients ih =>
      intro log
      obtain ⟨vpnAddress, session⟩ := client
      have hthrows := record_written localeCompare hwritten type (clientDetails vpnAddress session)
        none log
      have hfirst := logged_record localeCompare stamps type (clientDetails vpnAddress session) none log
      obtain ⟨log', hrest, hlogged⟩ :=
        ih (log.record localeCompare stamps type (clientDetails vpnAddress session) none).1
      rw [nextEntry, change_client] at hfirst
      refine ⟨log', ?_, ?_⟩
      · rw [recordClients]
        rcases hrecorded : log.record localeCompare stamps type (clientDetails vpnAddress session) none
          with ⟨log₁, thrown⟩
        rw [hrecorded] at hthrows hrest
        subst hthrows
        exact hrest
      · rw [List.map_cons, List.flatMap_cons]
        exact hfirst.trans hlogged

/-- The changes of a snapshot: none if it is the first one of a connection, else
its difference from the one before. -/
def messageChanges (sessions : List WatchedSession) (log : ActivityLog) : List (SetChange Text) :=
  if log.connected then SetChange.difference log.keys ((sessionMap sessions).map Prod.fst) else []

theorem handleMessage_written (stat : Except FsError SocketStat) (sessions : List WatchedSession)
    (log : ActivityLog) :
    (log.handleMessage localeCompare stamps stat (.sessions sessions)).1.changes =
        log.changes ++ log.messageChanges sessions ∧
      (log.handleMessage localeCompare stamps stat (.sessions sessions)).1.keys =
        (sessionMap sessions).map Prod.fst ∧
      (log.handleMessage localeCompare stamps stat (.sessions sessions)).1.connected = true := by
  unfold handleMessage messageChanges
  dsimp only
  by_cases hconnected : log.connected = false
  · rw [if_pos hconnected, if_neg (Bool.eq_false_iff.mp hconnected)]
    cases stat with
    | error error => exact ⟨(List.append_nil _).symm, rfl, rfl⟩
    | ok socket =>
        dsimp only
        split
        · have hlogged := logged_record localeCompare stamps .serverStarted [] (some socket.birthtime)
            { log with connected := true, sessions := sessionMap sessions,
                       serverId := some socket.serverId }
          exact ⟨hlogged.changes, congrArg _ hlogged.sessions, hlogged.connected⟩
        · exact ⟨(List.append_nil _).symm, rfl, rfl⟩
  · rw [if_neg hconnected, if_pos (Bool.eq_true_of_not_eq_false hconnected)]
    obtain ⟨log₁, hcame, hadded⟩ := recordClients_written localeCompare hwritten .clientConnected
      ((sessionMap sessions).filter (·.1 ∉ log.sessions.map Prod.fst)) log
    obtain ⟨log₂, hgone, hremoved⟩ := recordClients_written localeCompare hwritten
      .clientDisconnected (log.sessions.filter (·.1 ∉ (sessionMap sessions).map Prod.fst)) log₁
    have hlogged := hadded.trans hremoved
    rw [hcame]
    dsimp only
    rw [hgone]
    refine ⟨?_, rfl, ?_⟩
    · refine hlogged.changes.trans (congrArg _ ?_)
      rw [flatMap_added, flatMap_removed, map_filter_keys, map_filter_keys]
      -- only the instances that decide membership differ
      exact congrArg₂ (· ++ ·)
        (congrArg _ (List.filter_congr fun _ _ => decide_eq_decide.mpr Iff.rfl))
        (congrArg _ (List.filter_congr fun _ _ => decide_eq_decide.mpr Iff.rfl))
    · exact hlogged.connected.trans (Bool.eq_true_of_not_eq_false hconnected)

theorem handleClose_written (log : ActivityLog) (hstopping : log.stopping = false) :
    (log.handleClose localeCompare stamps).1.changes =
        log.changes ++ (if log.connected then log.keys.map .remove else []) ∧
      (log.handleClose localeCompare stamps).1.connected = false := by
  unfold handleClose
  rw [if_neg (Bool.eq_false_iff.mp hstopping)]
  by_cases hconnected : log.connected = true
  · obtain ⟨log₁, hgone, hremoved⟩ := recordClients_written localeCompare hwritten
      .clientDisconnected log.sessions log
    have hstopped := logged_record localeCompare stamps .serverStopped [] none log₁
    have hthrows := record_written localeCompare hwritten .serverStopped [] none log₁
    have hlogged := hremoved.trans hstopped
    rw [if_pos hconnected, if_pos hconnected, recordStopped, hgone]
    dsimp only
    rcases hrecorded : log₁.record localeCompare stamps .serverStopped [] none with ⟨log₂, thrown⟩
    rw [hrecorded] at hthrows hlogged
    subst hthrows
    refine ⟨hlogged.changes.trans (congrArg _ ?_), rfl⟩
    rw [flatMap_removed]
    exact List.append_nil _
  · rw [if_neg hconnected, if_neg hconnected]
    exact ⟨(List.append_nil _).symm, rfl⟩

section Step

variable {start : Finset Text} {log : ActivityLog}

theorem replayed_message (stat : Except FsError SocketStat) (sessions : List WatchedSession) :
    (log.handleMessage localeCompare stamps stat (.sessions sessions)).1.replayed start =
      SetChange.replay (log.replayed start) (log.messageChanges sessions) := by
  rw [replayed, (handleMessage_written localeCompare hwritten stat sessions log).1,
    SetChange.replay_append]
  rfl

theorem keys_message (stat : Except FsError SocketStat) (sessions : List WatchedSession) :
    (log.handleMessage localeCompare stamps stat (.sessions sessions)).1.keys.toFinset =
      addresses sessions := by
  rw [(handleMessage_written localeCompare hwritten stat sessions log).2.1]
  ext vpnAddress
  rw [List.mem_toFinset, mem_keys_sessionMap, addresses, List.mem_toFinset]

theorem Within.handleMessage (h : Within start log) (stat : Except FsError SocketStat)
    (sessions : List WatchedSession) :
    Within start (log.handleMessage localeCompare stamps stat (.sessions sessions)).1 := by
  obtain ⟨-, hkeys, hconnected⟩ := handleMessage_written localeCompare hwritten stat sessions log
  refine ⟨fun _ => ?_, fun hoff => absurd (hoff.symm.trans hconnected) Bool.false_ne_true⟩
  rw [replayed_message localeCompare hwritten, messageChanges]
  split
  · rename_i hbefore
    rw [hkeys]
    exact SetChange.replay_difference_subset (h.subset hbefore) _
  · rename_i hbefore
    rw [SetChange.replay_nil, h.empty (Bool.eq_false_iff.mpr hbefore)]
    exact Finset.empty_subset _

/-- A first snapshot must be empty. -/
theorem Exact.handleMessage (h : Exact start log) (stat : Except FsError SocketStat)
    {sessions : List WatchedSession} (hfirst : log.connected = false → sessions = []) :
    Exact start (log.handleMessage localeCompare stamps stat (.sessions sessions)).1 := by
  obtain ⟨-, hkeys, hconnected⟩ := handleMessage_written localeCompare hwritten stat sessions log
  refine ⟨fun _ => ?_, fun hoff => absurd (hoff.symm.trans hconnected) Bool.false_ne_true⟩
  rw [replayed_message localeCompare hwritten, messageChanges]
  split
  · rename_i hbefore
    rw [h.eq hbefore, hkeys]
    exact SetChange.replay_difference _ _
  · rename_i hbefore
    have hoff := Bool.eq_false_iff.mpr hbefore
    rw [SetChange.replay_nil, h.empty hoff, hkeys, hfirst hoff]
    rfl

/-- While the log is stopping nothing is done; else what was left is removed. -/
theorem Within.close (h : Within start log) :
    log.step localeCompare stamps .close = log ∨
      (log.step localeCompare stamps .close).connected = false ∧
        (log.step localeCompare stamps .close).replayed start = ∅ := by
  cases hstopping : log.stopping with
  | true =>
      left
      rw [ActivityLog.step, ActivityLog.handleClose, if_pos hstopping]
  | false =>
      obtain ⟨hchanges, hoff⟩ := handleClose_written localeCompare hwritten log hstopping
      refine .inr ⟨hoff, ?_⟩
      rw [ActivityLog.step, replayed, hchanges, SetChange.replay_append]
      split
      · rename_i hconnected
        exact SetChange.replay_removes_subset (h.subset hconnected)
      · rename_i hconnected
        exact h.empty (Bool.eq_false_iff.mpr hconnected)

end Step

/-! ## Runs -/

/-- A first snapshot of a later connection has no sessions. -/
def Admitted (log : ActivityLog) : Action → Prop
  | .message _ (.sessions sessions) => log.connected = false → sessions = []
  | _ => True

theorem Within.step {start : Finset Text} {log : ActivityLog} (h : Within start log)
    (action : Action) : Within start (log.step localeCompare stamps action) := by
  cases action with
  | message stat message =>
      cases message with
      | sessions sessions => exact h.handleMessage localeCompare hwritten stat sessions
      | other => exact h
  | close =>
      rcases h.close localeCompare hwritten with hsame | ⟨hoff, hempty⟩
      · rw [hsame]
        exact h
      · exact ⟨fun hon => absurd (hoff.symm.trans hon) Bool.false_ne_true, fun _ => hempty⟩
  | start => exact ⟨h.subset, h.empty⟩
  | stop => exact ⟨h.subset, h.empty⟩

theorem Exact.step {start : Finset Text} {log : ActivityLog} (h : Exact start log)
    {action : Action} (hadmitted : Admitted log action) :
    Exact start (log.step localeCompare stamps action) := by
  cases action with
  | message stat message =>
      cases message with
      | sessions sessions => exact h.handleMessage localeCompare hwritten stat hadmitted
      | other => exact h
  | close =>
      rcases h.within.close localeCompare hwritten with hsame | ⟨hoff, hempty⟩
      · rw [hsame]
        exact h
      · exact ⟨fun hon => absurd (hoff.symm.trans hon) Bool.false_ne_true, fun _ => hempty⟩
  | start => exact ⟨h.eq, h.empty⟩
  | stop => exact ⟨h.eq, h.empty⟩

theorem Within.run {start : Finset Text} (actions : List Action) : ∀ {log : ActivityLog},
    Within start log → Within start (log.run localeCompare stamps actions) := by
  induction actions with
  | nil => exact fun h => h
  | cons action actions ih => exact fun h => ih (h.step localeCompare hwritten action)

end Written

/-- Every action of the run is one that the log admits. -/
def AdmittedRun (log : ActivityLog) (actions : List Action) : Prop :=
  ∀ before action after, actions = before ++ action :: after →
    Admitted (log.run localeCompare stamps before) action

/-- After each snapshot the recorded events replay to its addresses. -/
def Replays (start : Finset Text) (log : ActivityLog) (actions : List Action) : Prop :=
  ∀ before stat sessions after, actions = before ++ .message stat (.sessions sessions) :: after →
    (log.run localeCompare stamps (before ++ [.message stat (.sessions sessions)])).replayed start =
      addresses sessions

theorem AdmittedRun.left {log : ActivityLog} {before after : List Action}
    (h : AdmittedRun localeCompare stamps log (before ++ after)) :
    AdmittedRun localeCompare stamps log before :=
  fun first action rest heq => h first action (rest ++ after) (by
    rw [heq, List.append_assoc, List.cons_append])

variable {stamps} in
theorem Exact.run (hwritten : ∀ n, (stamps n).written = none) {start : Finset Text}
    (actions : List Action) : ∀ {log : ActivityLog}, Exact start log →
      AdmittedRun localeCompare stamps log actions →
      Exact start (log.run localeCompare stamps actions) := by
  induction actions with
  | nil => exact fun h _ => h
  | cons action actions ih =>
      intro log h hadmitted
      refine ih (h.step localeCompare hwritten (hadmitted [] action actions rfl)) ?_
      intro before action' after heq
      exact hadmitted (action :: before) action' after (by rw [heq, List.cons_append])

theorem run_message (before : List Action) (stat : Except FsError SocketStat)
    (message : WatchMessage) (log : ActivityLog) :
    log.run localeCompare stamps (before ++ [.message stat message]) =
      ((log.run localeCompare stamps before).handleMessage localeCompare stamps stat message).1 :=
  List.foldl_append

/-! ## The first snapshot -/

/-- No snapshot is handled. -/
def Idle (actions : List Action) : Prop :=
  ∀ stat sessions, Action.message stat (.sessions sessions) ∉ actions

theorem run_idle {actions : List Action} : ∀ {log : ActivityLog}, Idle actions →
    log.connected = false ∧ log.recorded = [] →
    (log.run localeCompare stamps actions).connected = false ∧
      (log.run localeCompare stamps actions).recorded = [] := by
  induction actions with
  | nil => exact fun _ h => h
  | cons action actions ih =>
      intro log hidle h
      refine ih (fun stat sessions hmem => hidle stat sessions (List.mem_cons_of_mem _ hmem)) ?_
      cases action with
      | message stat message =>
          cases message with
          | sessions sessions => exact absurd List.mem_cons_self (hidle stat sessions)
          | other => exact h
      | close =>
          rw [step, handleClose, h.1, if_neg Bool.false_ne_true]
          split
          · exact h
          · exact ⟨rfl, h.2⟩
      | start => exact h
      | stop => exact h

section First

variable {stamps} (hwritten : ∀ n, (stamps n).written = none) {log : ActivityLog}
include hwritten

theorem exact_first (stat : Except FsError SocketStat) (first : List WatchedSession)
    (h : log.connected = false ∧ log.recorded = []) :
    Exact (addresses first)
      (log.handleMessage localeCompare stamps stat (.sessions first)).1 := by
  have hconnected := (handleMessage_written localeCompare hwritten stat first log).2.2
  refine ⟨fun _ => ?_, fun hoff => absurd (hoff.symm.trans hconnected) Bool.false_ne_true⟩
  rw [keys_message localeCompare hwritten, replayed_message localeCompare hwritten, messageChanges,
    h.1, if_neg Bool.false_ne_true, replayed, changes, h.2]
  rfl

theorem admitted_of_replays {start : Finset Text} {actions : List Action} (h : Within start log)
    (hreplays : Replays localeCompare stamps start log actions) :
    AdmittedRun localeCompare stamps log actions := by
  intro before action after heq
  match action, heq with
  | .message stat (.sessions sessions), heq =>
      intro hoff
      have hempty := (h.run localeCompare hwritten before).empty hoff
      have hlatest := hreplays before stat sessions after heq
      rw [run_message, replayed_message localeCompare hwritten, hempty, messageChanges, hoff,
        if_neg Bool.false_ne_true, SetChange.replay_nil] at hlatest
      exact List.map_eq_nil_iff.mp (List.toFinset_eq_empty_iff _ |>.mp hlatest.symm)
  | .message stat .other, _ => trivial
  | .close, _ => trivial
  | .start, _ => trivial
  | .stop, _ => trivial

theorem replays_of_admitted {start : Finset Text} {actions : List Action} (h : Exact start log)
    (hadmitted : AdmittedRun localeCompare stamps log actions) :
    Replays localeCompare stamps start log actions := by
  intro before stat sessions after heq
  have hbefore : Exact start (log.run localeCompare stamps before) :=
    h.run localeCompare hwritten before (AdmittedRun.left localeCompare stamps (heq ▸ hadmitted))
  have hafter := hbefore.handleMessage localeCompare hwritten stat (hadmitted before _ after heq)
  have hconnected := (handleMessage_written localeCompare hwritten stat sessions
    (log.run localeCompare stamps before)).2.2
  rw [run_message, hafter.eq hconnected, keys_message localeCompare hwritten]

end First

/-- **The log replays to the live sessions exactly when every later connection
begins without them.**  Of a run in which the file can be written, take the
actions up to the first snapshot and those after it. -/
theorem replays_iff {file : Except FsError Text} {fresh : ActivityLog}
    (hnew : ActivityLog.new file = .ok fresh) (hwritten : ∀ n, (stamps n).written = none)
    {idle : List Action} (hidle : Idle idle) (stat : Except FsError SocketStat)
    (first : List WatchedSession) (later : List Action) :
    Replays localeCompare stamps (addresses first)
        (fresh.run localeCompare stamps (idle ++ [.message stat (.sessions first)])) later ↔
      AdmittedRun localeCompare stamps
        (fresh.run localeCompare stamps (idle ++ [.message stat (.sessions first)])) later := by
  have hexact : Exact (addresses first)
      (fresh.run localeCompare stamps (idle ++ [.message stat (.sessions first)])) := by
    rw [run_message]
    exact exact_first localeCompare hwritten stat first
      (run_idle localeCompare stamps hidle (new_fresh hnew))
  exact ⟨admitted_of_replays localeCompare hwritten hexact.within,
    replays_of_admitted localeCompare hwritten hexact⟩

/-- A client that stays connected while the console reconnects. -/
theorem reconnect_forgets :
    let stamps : Nat → Stamp := fun _ => ⟨"id".toList, "2024-01-01T00:00:00.000Z".toList, none⟩
    ¬ ∀ (file : Except FsError Text) (fresh : ActivityLog) (idle : List Action)
        (stat : Except FsError SocketStat) (first : List WatchedSession) (later : List Action),
      ActivityLog.new file = .ok fresh → Idle idle →
      Replays compare stamps (addresses first)
        (fresh.run compare stamps (idle ++ [.message stat (.sessions first)])) later := by
  intro stamps h
  have hreplayed := h (.error ⟨"ENOENT", "no such file"⟩) _ []
    (.ok ⟨1, 2, "3".toList, "2024-01-01T00:00:00.000Z".toList⟩)
    [⟨"10.9.1.2".toList, some "ab".toList, none⟩]
    [.close, .message (.ok ⟨1, 2, "3".toList, "2024-01-01T00:00:00.000Z".toList⟩)
      (.sessions [⟨"10.9.1.2".toList, some "ab".toList, none⟩])]
    rfl (fun _ _ => List.not_mem_nil) [.close] _ _ [] rfl
  exact absurd hreplayed (by decide)

/-- The server starts again, and the client comes back. -/
theorem replays_iff_restart :
    let stamps : Nat → Stamp := fun _ => ⟨"id".toList, "2024-01-01T00:00:00.000Z".toList, none⟩
    let client : WatchedSession := ⟨"10.9.1.2".toList, some "ab".toList, none⟩
    let stat : Except FsError SocketStat := .error ⟨"ENOENT", "no such file"⟩
    let later : List Action := [.close, .message stat (.sessions []), .message stat (.sessions [client])]
    ∃ fresh, ActivityLog.new (.error ⟨"ENOENT", "no such file"⟩) = .ok fresh ∧
      Replays compare stamps (addresses [client])
        (fresh.run compare stamps ([.close] ++ [.message stat (.sessions [client])])) later := by
  intro stamps client stat later
  have hnew : ActivityLog.new (.error ⟨"ENOENT", "no such file"⟩) =
      .ok ⟨[], none, [], false, false, none, []⟩ := rfl
  refine ⟨_, hnew, (replays_iff compare stamps hnew (fun _ => rfl) ?_ stat [client] later).mpr ?_⟩
  · rintro _ _ hmem
    cases List.mem_singleton.mp hmem
  · intro before action after heq
    rcases before with _ | ⟨_, _ | ⟨_, _ | ⟨_, before⟩⟩⟩
    · obtain ⟨rfl, -⟩ := List.cons.inj heq
      trivial
    · obtain ⟨rfl, hrest⟩ := List.cons.inj heq
      obtain ⟨rfl, -⟩ := List.cons.inj hrest
      exact fun _ => rfl
    · obtain ⟨rfl, hrest⟩ := List.cons.inj heq
      obtain ⟨hsecond, hrest⟩ := List.cons.inj hrest
      obtain ⟨rfl, -⟩ := List.cons.inj hrest
      rw [← hsecond]
      exact fun hoff => absurd hoff (by decide)
    · have hlength : 3 = (_ :: _ :: _ :: before ++ action :: after).length :=
        congrArg List.length heq
      simp only [List.length_append, List.length_cons, List.cons_append] at hlength
      omega

end Replay

end ActivityLog

end Web

end AutobricksVpn
