/-
# `AutobricksVpn.Web.ActivityLog` — the newest hundred events

`ActivityLog` of `web/src/activity-log.js`.  The watcher of the VPN server's
control socket hands it the snapshots (`handleMessage`) and the end of the
connection (`handleClose`); what has changed is recorded (`record`), kept
newest first and cut at `MAX_ENTRIES`, and written to a file each time.

| | |
| :-- | :-- |
| `localeCompare` | the collation, a consistent comparator; on the texts of `toISOString` it is the order of the characters (`Collates`) |
| `Stamp` | what `#record` gets from its surroundings: a new id, the time, and whether the file can be written |
| `stat` | the control socket on disk, when a snapshot is the first one |

What `#record` throws ends the handler.  The listeners of the log and the timer
that reconnects are left out.

Whatever is recorded, with whatever times from `toISOString`, the log holds the
first hundred of all entries in the order of their times, later records first
among equal times, and its file holds the same list (`keeps_newest`).  Times that
are written with and without milliseconds are not kept in order
(`mixed_precision_misplaced`).
-/
import AutobricksVpn.Config.Text
import AutobricksVpn.Lib.IsoTime
import AutobricksVpn.Lib.Json
import AutobricksVpn.Lib.Newest

namespace AutobricksVpn

namespace Web

def MAX_ENTRIES : Nat := 100

inductive EventType where
  | serverStarted
  | serverStopped
  | clientConnected
  | clientDisconnected
  deriving DecidableEq

def EventType.text : EventType → Text
  | .serverStarted => "server_started".toList
  | .serverStopped => "server_stopped".toList
  | .clientConnected => "client_connected".toList
  | .clientDisconnected => "client_disconnected".toList

def EventType.all : List EventType :=
  [.serverStarted, .serverStopped, .clientConnected, .clientDisconnected]

def EventType.ofText (text : Text) : Option EventType := EventType.all.find? (·.text = text)

/-- An entry; `details` are its members behind the first three. -/
structure Entry where
  id : Text
  type : EventType
  occurredAt : Text
  details : List (Text × Json)

def Entry.toJson (entry : Entry) : Json :=
  .object (("id".toList, .string entry.id) :: ("type".toList, .string entry.type.text) ::
    ("occurredAt".toList, .string entry.occurredAt) :: entry.details)

def Entry.ofJson : Json → Option Entry
  | .object ((first, .string id) :: (second, .string type) :: (third, .string occurredAt) :: details) =>
      if first = "id".toList ∧ second = "type".toList ∧ third = "occurredAt".toList then
        (EventType.ofText type).map fun type => ⟨id, type, occurredAt, details⟩
      else none
  | _ => none

/-- One object of a snapshot's `sessions`; absent members are `none`. -/
structure WatchedSession where
  vpnAddress : Text
  fingerprint : Option Text
  clientIp : Option Text
  deriving DecidableEq

/-- A message that is no snapshot has another `type`, or `sessions` that are no array. -/
inductive WatchMessage where
  | sessions (sessions : List WatchedSession)
  | other

structure FsError where
  code : String
  message : String
  deriving DecidableEq

structure Stamp where
  id : Text
  now : Text
  /-- What making the directory, writing or renaming throws. -/
  written : Option FsError

/-- The control socket on disk. -/
structure SocketStat where
  dev : Nat
  ino : Nat
  birthtimeMs : Text
  birthtime : Text

def SocketStat.serverId (socket : SocketStat) : Text :=
  (toString socket.dev).toList ++ ':' :: ((toString socket.ino).toList ++ ':' :: socket.birthtimeMs)

/-! ## The map of the sessions -/

/-- `Map.prototype.set`: a key keeps its place. -/
def mapSet (key : Text) (session : WatchedSession) (map : List (Text × WatchedSession)) :
    List (Text × WatchedSession) :=
  if key ∈ map.map Prod.fst then
    map.map fun entry => if entry.1 = key then (key, session) else entry
  else map ++ [(key, session)]

def sessionMap (sessions : List WatchedSession) : List (Text × WatchedSession) :=
  sessions.foldl (fun map session => mapSet session.vpnAddress session map) []

theorem mem_keys_mapSet {key a : Text} {session : WatchedSession}
    {map : List (Text × WatchedSession)} :
    a ∈ (mapSet key session map).map Prod.fst ↔ a ∈ map.map Prod.fst ∨ a = key := by
  unfold mapSet
  split
  · rename_i hkey
    have hkeys : (map.map fun entry => if entry.1 = key then (key, session) else entry).map Prod.fst =
        map.map Prod.fst := by
      rw [List.map_map]
      refine List.map_congr_left fun entry _ => ?_
      rw [Function.comp_apply]
      split
      · rename_i heq
        exact heq.symm
      · rfl
    rw [hkeys]
    exact ⟨.inl, fun h => h.elim id fun heq => heq ▸ hkey⟩
  · rw [List.map_append, List.mem_append, List.map_singleton, List.mem_singleton]

theorem mem_keys_sessionMap {a : Text} (sessions : List WatchedSession) :
    a ∈ (sessionMap sessions).map Prod.fst ↔ a ∈ sessions.map (·.vpnAddress) := by
  have hfold : ∀ map, a ∈ (sessions.foldl (fun map session => mapSet session.vpnAddress session map)
      map).map Prod.fst ↔ a ∈ map.map Prod.fst ∨ a ∈ sessions.map (·.vpnAddress) := by
    induction sessions with
    | nil => exact fun map => (or_iff_left List.not_mem_nil).symm
    | cons session sessions ih =>
        intro map
        rw [List.foldl_cons, ih, mem_keys_mapSet, List.map_cons, List.mem_cons, or_assoc]
  exact (hfold []).trans (or_iff_right List.not_mem_nil)

/-! ## The log -/

/-- `sessions` is empty where the code has `null`: nothing reads it before the
first snapshot of a connection.  `file` is the text at `filePath`, and `recorded`
everything that this object has recorded, oldest first, which the code forgets. -/
structure ActivityLog where
  entries : List Entry
  serverId : Option Text
  sessions : List (Text × WatchedSession)
  connected : Bool
  stopping : Bool
  file : Option Text
  recorded : List Entry

def fileText (serverId : Option Text) (entries : List Entry) : Text :=
  Json.stringify (.object
    [("serverId".toList, serverId.elim .null .string), ("entries".toList, .array (entries.map Entry.toJson))])

/-- What the constructor throws.  `foreign` is a file with values that this
program never writes, which the model does not hold. -/
inductive LoadError where
  | fs (error : FsError)
  | syntaxError
  | typeError
  | foreign

/-- `Array.isArray(saved.entries) ? saved.entries.slice(0, MAX_ENTRIES) : []`. -/
def savedEntries (saved : Json) : Option (List Entry) :=
  match saved.get "entries".toList with
  | some (.array items) => (items.take MAX_ENTRIES).mapM Entry.ofJson
  | _ => some []

/-- `saved.serverId ?? null`. -/
def savedServerId (saved : Json) : Option (Option Text) :=
  match saved.get "serverId".toList with
  | some (.string serverId) => some (some serverId)
  | some .null | none => some none
  | _ => none

def ActivityLog.new (file : Except FsError Text) : Except LoadError ActivityLog :=
  match file with
  | .error error =>
      if error.code = "ENOENT" then .ok ⟨[], none, [], false, false, none, []⟩
      else .error (.fs error)
  | .ok text =>
      match Json.parse text with
      | none => .error .syntaxError
      | some .null => .error .typeError
      | some saved =>
          match savedEntries saved, savedServerId saved with
          | some entries, some serverId => .ok ⟨entries, serverId, [], false, false, some text, []⟩
          | _, _ => .error .foreign

section Handlers

variable (localeCompare : Text → Text → Ordering) (stamps : Nat → Stamp)

/-- `right.occurredAt.localeCompare(left.occurredAt)` does not put `left` behind `right`. -/
def Newer (left right : Entry) : Prop := (localeCompare right.occurredAt left.occurredAt).isLE = true

instance : DecidableRel (Newer localeCompare) :=
  fun left right => inferInstanceAs (Decidable ((localeCompare right.occurredAt left.occurredAt).isLE = true))

/-- The entry that is recorded `n`-th. -/
def entryOf (n : Nat) (type : EventType) (details : List (Text × Json)) (occurredAt : Option Text) :
    Entry :=
  ⟨(stamps n).id, type, occurredAt.getD (stamps n).now, details⟩

namespace ActivityLog

/-- `#record`: the log afterwards, and what it throws. -/
def record (type : EventType) (details : List (Text × Json)) (occurredAt : Option Text)
    (log : ActivityLog) : ActivityLog × Option FsError :=
  let n := log.recorded.length
  let entry := entryOf stamps n type details occurredAt
  let entries := ((entry :: log.entries).insertionSort (Newer localeCompare)).take MAX_ENTRIES
  let log := { log with entries := entries, recorded := log.recorded ++ [entry] }
  match (stamps n).written with
  | some error => (log, some error)
  | none => ({ log with file := some (fileText log.serverId log.entries) }, none)

/-- `{ vpnAddress, fingerprint: session.fingerprint, clientIp: session.clientIp ?? null }`. -/
def clientDetails (vpnAddress : Text) (session : WatchedSession) : List (Text × Json) :=
  ("vpnAddress".toList, .string vpnAddress) ::
    ((session.fingerprint.map fun fingerprint => ("fingerprint".toList, Json.string fingerprint)).toList ++
      [("clientIp".toList, session.clientIp.elim .null .string)])

/-- One `#record` for each of the clients, up to the first that throws. -/
def recordClients (type : EventType) :
    List (Text × WatchedSession) → ActivityLog → ActivityLog × Option FsError
  | [], log => (log, none)
  | (vpnAddress, session) :: rest, log =>
      match log.record localeCompare stamps type (clientDetails vpnAddress session) none with
      | (log, some error) => (log, some error)
      | (log, none) => recordClients type rest log

def handleMessage (stat : Except FsError SocketStat) (message : WatchMessage) (log : ActivityLog) :
    ActivityLog × Option FsError :=
  match message with
  | .other => (log, none)
  | .sessions sessions =>
      let next := sessionMap sessions
      if log.connected = false then
        let log := { log with connected := true, sessions := next }
        match stat with
        | .error _ => (log, none)
        | .ok socket =>
            if some socket.serverId ≠ log.serverId then
              -- what `#record` throws is caught
              (({ log with serverId := some socket.serverId }.record localeCompare stamps
                .serverStarted [] (some socket.birthtime)).1, none)
            else (log, none)
      else
        let came := next.filter (·.1 ∉ log.sessions.map Prod.fst)
        let gone := log.sessions.filter (·.1 ∉ next.map Prod.fst)
        match recordClients localeCompare stamps .clientConnected came log with
        | (log, some error) => (log, some error)
        | (log, none) =>
            match recordClients localeCompare stamps .clientDisconnected gone log with
            | (log, some error) => (log, some error)
            | (log, none) => ({ log with sessions := next }, none)

/-- The body of `if (this.connected)`. -/
def recordStopped (log : ActivityLog) : ActivityLog × Option FsError :=
  match recordClients localeCompare stamps .clientDisconnected log.sessions log with
  | (log, some error) => (log, some error)
  | (log, none) => log.record localeCompare stamps .serverStopped [] none

def handleClose (log : ActivityLog) : ActivityLog × Option FsError :=
  if log.stopping then (log, none)
  else
    match if log.connected then log.recordStopped localeCompare stamps else (log, none) with
    | (log, some error) => (log, some error)
    | (log, none) => ({ log with connected := false, sessions := [] }, none)

/-- What happens to the log: a message or the end of the watcher's connection,
and the calls of `start` and `stop`. -/
inductive Action where
  | message (stat : Except FsError SocketStat) (message : WatchMessage)
  | close
  | start
  | stop

def step (log : ActivityLog) : Action → ActivityLog
  | .message stat message => (log.handleMessage localeCompare stamps stat message).1
  | .close => (log.handleClose localeCompare stamps).1
  | .start => { log with stopping := false }
  | .stop => { log with stopping := true }

def run (actions : List Action) (log : ActivityLog) : ActivityLog :=
  actions.foldl (step localeCompare stamps) log

end ActivityLog

end Handlers

/-! ## What the file holds -/

theorem EventType.ofText_text (type : EventType) : EventType.ofText type.text = some type := by
  cases type <;> decide

theorem Entry.ofJson_toJson (entry : Entry) : Entry.ofJson entry.toJson = some entry := by
  rw [Entry.toJson, Entry.ofJson, if_pos ⟨rfl, rfl, rfl⟩, EventType.ofText_text]
  rfl

theorem mapM_ofJson (entries : List Entry) :
    (entries.map Entry.toJson).mapM Entry.ofJson = some entries := by
  induction entries with
  | nil => rfl
  | cons entry entries ih =>
      rw [List.map_cons, List.mapM_cons, Entry.ofJson_toJson, ih]
      rfl

/-- A log reads what another one wrote. -/
theorem ActivityLog.new_fileText (serverId : Option Text) {entries : List Entry}
    (h : entries.length ≤ MAX_ENTRIES) :
    ActivityLog.new (.ok (fileText serverId entries)) =
      .ok ⟨entries, serverId, [], false, false, some (fileText serverId entries), []⟩ := by
  have hentries : savedEntries (.object [("serverId".toList, serverId.elim .null .string),
      ("entries".toList, .array (entries.map Entry.toJson))]) = some entries := by
    have hget : (Json.object [("serverId".toList, serverId.elim .null .string),
        ("entries".toList, .array (entries.map Entry.toJson))]).get "entries".toList =
          some (.array (entries.map Entry.toJson)) := rfl
    unfold savedEntries
    rw [hget]
    dsimp only
    rw [List.take_of_length_le (by rwa [List.length_map]), mapM_ofJson]
  have hserverId : savedServerId (.object [("serverId".toList, serverId.elim .null .string),
      ("entries".toList, .array (entries.map Entry.toJson))]) = some serverId := by
    cases serverId <;> rfl
  have hparse : Json.parse (fileText serverId entries) = _ := Json.parse_stringify _
  unfold ActivityLog.new
  dsimp only
  rw [hparse]
  dsimp only
  rw [hentries, hserverId]

section Kept

variable (localeCompare : Text → Text → Ordering) (stamps : Nat → Stamp)

namespace ActivityLog

/-! ## What is recorded -/

section Record

variable (type : EventType) (details : List (Text × Json)) (occurredAt : Option Text)
  (log : ActivityLog)

/-- The entry of the next `#record`. -/
def nextEntry : Entry := entryOf stamps log.recorded.length type details occurredAt

@[simp] theorem record_recorded :
    (log.record localeCompare stamps type details occurredAt).1.recorded =
      log.recorded ++ [log.nextEntry stamps type details occurredAt] := by
  unfold record
  dsimp only
  split <;> rfl

@[simp] theorem record_entries :
    (log.record localeCompare stamps type details occurredAt).1.entries =
      Newest.put (Newer localeCompare) MAX_ENTRIES log.entries
        (log.nextEntry stamps type details occurredAt) := by
  unfold record
  dsimp only
  split <;> rfl

@[simp] theorem record_sessions :
    (log.record localeCompare stamps type details occurredAt).1.sessions = log.sessions := by
  unfold record
  dsimp only
  split <;> rfl

@[simp] theorem record_connected :
    (log.record localeCompare stamps type details occurredAt).1.connected = log.connected := by
  unfold record
  dsimp only
  split <;> rfl

@[simp] theorem record_throws :
    (log.record localeCompare stamps type details occurredAt).2 =
      (stamps log.recorded.length).written := by
  unfold record
  dsimp only
  cases (stamps log.recorded.length).written <;> rfl

theorem record_file (h : (stamps log.recorded.length).written = none) :
    (log.record localeCompare stamps type details occurredAt).1.file =
      some (fileText log.serverId
        (log.record localeCompare stamps type details occurredAt).1.entries) := by
  unfold record
  dsimp only
  rw [h]

end Record

/-- `P` is kept by every handler when `#record` keeps it, for the times that may be
given, and when it does not depend on what the handlers set themselves. -/
structure Recordwise (allowed : Text → Prop) (P : ActivityLog → Prop) : Prop where
  record : ∀ {log} type details occurredAt, (∀ time ∈ occurredAt, allowed time) → P log →
    P (log.record localeCompare stamps type details occurredAt).1
  frame : ∀ {log log' : ActivityLog}, P log → log'.entries = log.entries →
    log'.recorded = log.recorded → P log'

/-- The times that a message may give. -/
def Action.Names (allowed : Text → Prop) : Action → Prop
  | .message (.ok socket) _ => allowed socket.birthtime
  | .message (.error _) _ | .close | .start | .stop => True

namespace Recordwise

variable {localeCompare stamps} {allowed : Text → Prop} {P : ActivityLog → Prop}
  (hP : Recordwise localeCompare stamps allowed P)
include hP

theorem recordClients (type : EventType) : ∀ (clients : List (Text × WatchedSession)) {log : ActivityLog},
    P log → P (log.recordClients localeCompare stamps type clients).1
  | [], _, h => h
  | (vpnAddress, session) :: rest, log, h => by
      have hrecord := hP.record type (clientDetails vpnAddress session) none nofun h
      rw [ActivityLog.recordClients]
      rcases hrecorded : log.record localeCompare stamps type (clientDetails vpnAddress session) none
        with ⟨log', _ | error⟩ <;> rw [hrecorded] at hrecord
      · exact recordClients type rest hrecord
      · exact hrecord

theorem handleMessage {stat : Except FsError SocketStat} {message : WatchMessage}
    {log : ActivityLog} (hnames : (Action.message stat message).Names allowed) (h : P log) :
    P (log.handleMessage localeCompare stamps stat message).1 := by
  cases message with
  | other => exact h
  | sessions sessions =>
      unfold ActivityLog.handleMessage
      dsimp only
      split
      · have hfirst : P { log with connected := true, sessions := sessionMap sessions } :=
          hP.frame h rfl rfl
        cases stat with
        | error error => exact hfirst
        | ok socket =>
            dsimp only
            split
            · refine hP.record _ _ _ (fun time htime => ?_) (hP.frame hfirst rfl rfl)
              rw [← Option.some.inj htime]
              exact hnames
            · exact hfirst
      · split
        · rename_i hcame
          have hcame' := hP.recordClients .clientConnected
            ((sessionMap sessions).filter (·.1 ∉ log.sessions.map Prod.fst)) h
          rw [hcame] at hcame'
          exact hcame'
        · rename_i log₁ hcame
          have hcame' := hP.recordClients .clientConnected
            ((sessionMap sessions).filter (·.1 ∉ log.sessions.map Prod.fst)) h
          rw [hcame] at hcame'
          have hgone := hP.recordClients .clientDisconnected
            (log.sessions.filter (·.1 ∉ (sessionMap sessions).map Prod.fst)) hcame'
          split
          · rename_i hthrown
            rw [hthrown] at hgone
            exact hgone
          · rename_i hdone
            rw [hdone] at hgone
            exact hP.frame hgone rfl rfl

theorem recordStopped {log : ActivityLog} (h : P log) :
    P (log.recordStopped localeCompare stamps).1 := by
  have hclients := hP.recordClients .clientDisconnected log.sessions h
  unfold ActivityLog.recordStopped
  split
  · rename_i hthrown
    rw [hthrown] at hclients
    exact hclients
  · rename_i hdone
    rw [hdone] at hclients
    exact hP.record .serverStopped [] none nofun hclients

theorem handleClose {log : ActivityLog} (h : P log) :
    P (log.handleClose localeCompare stamps).1 := by
  have hstopped : P (if log.connected then log.recordStopped localeCompare stamps
      else (log, none)).1 := by
    split
    · exact hP.recordStopped h
    · exact h
  unfold ActivityLog.handleClose
  split
  · exact h
  · split
    · rename_i hthrown
      rw [hthrown] at hstopped
      exact hstopped
    · rename_i hdone
      rw [hdone] at hstopped
      exact hP.frame hstopped rfl rfl

theorem run (actions : List Action) (hnames : ∀ action ∈ actions, action.Names allowed) :
    ∀ {log : ActivityLog}, P log → P (log.run localeCompare stamps actions) := by
  induction actions with
  | nil => exact fun h => h
  | cons action actions ih =>
      intro log h
      obtain ⟨hfirst, hrest⟩ := List.forall_mem_cons.mp hnames
      refine ih hrest ?_
      cases action with
      | message stat message => exact hP.handleMessage hfirst h
      | close => exact hP.handleClose h
      | start => exact hP.frame h rfl rfl
      | stop => exact hP.frame h rfl rfl

end Recordwise

/-! ## The newest hundred -/

/-- The arguments of a `#record`. -/
structure RecordCall where
  type : EventType
  details : List (Text × Json)
  occurredAt : Option Text

def recordCalls (calls : List RecordCall) (log : ActivityLog) : ActivityLog :=
  calls.foldl
    (fun log call => (log.record localeCompare stamps call.type call.details call.occurredAt).1) log

/-- The entries of these calls, the first of which is the `n`-th. -/
def entriesOf (calls : List RecordCall) (n : Nat) : List Entry :=
  (calls.zipIdx n).map fun (call, n) => entryOf stamps n call.type call.details call.occurredAt

theorem recordCalls_recorded (calls : List RecordCall) : ∀ log : ActivityLog,
    (log.recordCalls localeCompare stamps calls).recorded =
      log.recorded ++ entriesOf stamps calls log.recorded.length := by
  induction calls with
  | nil => exact fun log => (List.append_nil _).symm
  | cons call calls ih =>
      intro log
      rw [recordCalls, List.foldl_cons, ← recordCalls, ih, record_recorded, List.length_append,
        List.append_assoc]
      rfl

theorem Recordwise.recordCalls {allowed : Text → Prop} {P : ActivityLog → Prop}
    (hP : Recordwise localeCompare stamps allowed P) (calls : List RecordCall)
    (hnames : ∀ call ∈ calls, ∀ time ∈ call.occurredAt, allowed time) :
    ∀ {log : ActivityLog}, P log → P (log.recordCalls localeCompare stamps calls) := by
  induction calls with
  | nil => exact fun h => h
  | cons call calls ih =>
      intro log h
      obtain ⟨hfirst, hrest⟩ := List.forall_mem_cons.mp hnames
      exact ih hrest (hP.record _ _ _ hfirst h)

theorem new_fresh {file : Except FsError Text} {log : ActivityLog}
    (h : ActivityLog.new file = .ok log) : log.connected = false ∧ log.recorded = [] := by
  unfold ActivityLog.new at h
  split at h
  · split at h
    · rw [← Except.ok.inj h]
      exact ⟨rfl, rfl⟩
    · cases h
  · split at h
    · cases h
    · cases h
    · split at h
      · rw [← Except.ok.inj h]
        exact ⟨rfl, rfl⟩
      · cases h

/-- What is kept of everything that was saved or recorded. -/
def Kept (saved : List Entry) (log : ActivityLog) : Prop :=
  log.entries = ((log.recorded.reverse ++ saved).insertionSort (Newer localeCompare)).take MAX_ENTRIES

theorem kept_new {file : Except FsError Text} {log : ActivityLog} {saved : List Entry}
    (hnew : ActivityLog.new file = .ok log) (hentries : log.entries = saved.take MAX_ENTRIES)
    (hsorted : saved.Pairwise (Newer localeCompare)) : Kept localeCompare saved log := by
  unfold Kept
  rw [(new_fresh hnew).2, List.reverse_nil, List.nil_append, hsorted.insertionSort_eq, hentries]

/-- What the last `#record` wrote is read back. -/
theorem reload_of_kept {saved : List Entry} {log : ActivityLog} (call : RecordCall)
    (h : Kept localeCompare saved (log.recordCalls localeCompare stamps [call]))
    (hwritten : (stamps log.recorded.length).written = none) :
    ∃ text reloaded, (log.recordCalls localeCompare stamps [call]).file = some text ∧
      ActivityLog.new (.ok text) = .ok reloaded ∧
      reloaded.entries = (log.recordCalls localeCompare stamps [call]).entries := by
  have hlength : (log.recordCalls localeCompare stamps [call]).entries.length ≤ MAX_ENTRIES := by
    rw [h]
    exact List.length_take_le _ _
  exact ⟨_, _, record_file localeCompare stamps _ _ _ log hwritten, new_fileText _ hlength, rfl⟩

/-- The instant that an entry names. -/
def time (entry : Entry) : Nat := (IsoTime.instantOf entry.occurredAt).getD 0

/-- At the same time or later. -/
def Later (left right : Entry) : Prop := time right ≤ time left

instance : DecidableRel Later := fun left right =>
  inferInstanceAs (Decidable (time right ≤ time left))

/-- The first hundred of `held` in the order of the instants, newest first, where an
earlier position in `held` decides between equal instants. -/
def IsNewest (held entries : List Entry) : Prop := Newest.IsFirst Later MAX_ENTRIES held entries

/-- What `toISOString` writes, for the years from 0 to 9999. -/
def IsIso (text : Text) : Prop := ∃ t : IsoTime, t.text = text

/-- Such texts are collated by their characters. -/
def Collates : Prop :=
  ∀ a b : IsoTime, localeCompare a.text b.text = compare a.text b.text

/-- Of two such entries the collation puts the newer one first. -/
theorem newer_iff_later (h : Collates localeCompare) {left right : Entry}
    (hleft : IsIso left.occurredAt) (hright : IsIso right.occurredAt) :
    Newer localeCompare left right ↔ Later left right := by
  obtain ⟨tl, hl⟩ := hleft
  obtain ⟨tr, hr⟩ := hright
  have hinstant : ∀ {entry : Entry} {t : IsoTime}, t.text = entry.occurredAt →
      time entry = t.millis := by
    intro entry t ht
    rw [time, ← ht, IsoTime.instantOf_text]
    rfl
  unfold Newer Later
  rw [hinstant hl, hinstant hr, ← hl, ← hr, h, IsoTime.compare_text]
  exact Nat.isLE_compare

variable [Std.TransCmp localeCompare]

instance : Std.Total (Newer localeCompare) where
  total left right := by
    have hswap : localeCompare left.occurredAt right.occurredAt =
        (localeCompare right.occurredAt left.occurredAt).swap := Std.OrientedCmp.eq_swap
    unfold Newer
    rw [hswap]
    cases localeCompare right.occurredAt left.occurredAt <;> decide

instance : IsTrans Entry (Newer localeCompare) where
  trans _ _ _ hab hbc := Std.TransCmp.isLE_trans hbc hab

theorem kept_recordwise (saved : List Entry) :
    Recordwise localeCompare stamps (fun _ => True) (Kept localeCompare saved) where
  record := by
    intro log type details occurredAt _ h
    unfold Kept at h ⊢
    rw [record_entries, h, Newest.put_take, record_recorded, List.reverse_append,
      List.reverse_singleton, List.append_assoc, List.singleton_append]
  frame := by
    intro log log' h hentries hrecorded
    unfold Kept at h ⊢
    rw [hentries, hrecorded, h]

omit [Std.TransCmp localeCompare] in
/-- What is recorded has a time that was given, or that of the clock. -/
theorem iso_recordwise (hnow : ∀ n, IsIso (stamps n).now) :
    Recordwise localeCompare stamps IsIso
      fun log => ∀ entry ∈ log.recorded, IsIso entry.occurredAt where
  record := by
    intro log type details occurredAt hgiven h
    rw [record_recorded, List.forall_mem_append, List.forall_mem_singleton]
    refine ⟨h, ?_⟩
    cases occurredAt with
    | none => exact hnow _
    | some time => exact hgiven time rfl
  frame := fun h _ hrecorded => by rwa [hrecorded]

theorem isNewest_of_kept (hcollates : Collates localeCompare) {saved : List Entry}
    {log : ActivityLog} (h : Kept localeCompare saved log)
    (hiso : ∀ entry ∈ log.recorded.reverse ++ saved, IsIso entry.occurredAt) :
    IsNewest (log.recorded.reverse ++ saved) log.entries := by
  have hfirst := Newest.isFirst_insertionSort (Newer localeCompare) MAX_ENTRIES
    (log.recorded.reverse ++ saved)
  rw [← h] at hfirst
  exact hfirst.congr fun a ha b hb => newer_iff_later localeCompare hcollates (hiso a ha) (hiso b hb)

/-- **The log holds the newest hundred.**  After any calls of `#record`, and
after any run of the handlers, the entries are the first hundred of everything
saved or recorded, in the order of the instants, with later records first among
equal ones, as long as the times are those of `toISOString`; and whenever a call
has written the file, a new log reads the same entries from it. -/
theorem keeps_newest {file : Except FsError Text} {log : ActivityLog} {saved : List Entry}
    (hcollates : Collates localeCompare) (hnew : ActivityLog.new file = .ok log)
    (hentries : log.entries = saved.take MAX_ENTRIES)
    (hiso : ∀ entry ∈ saved, IsIso entry.occurredAt) (hsorted : saved.Pairwise Later)
    (hnow : ∀ n, IsIso (stamps n).now) :
    (∀ calls : List RecordCall, (∀ call ∈ calls, ∀ time ∈ call.occurredAt, IsIso time) →
      IsNewest ((entriesOf stamps calls 0).reverse ++ saved)
        (log.recordCalls localeCompare stamps calls).entries) ∧
    (∀ calls call, (stamps calls.length).written = none →
      ∃ text reloaded, (log.recordCalls localeCompare stamps (calls ++ [call])).file = some text ∧
        ActivityLog.new (.ok text) = .ok reloaded ∧
        reloaded.entries = (log.recordCalls localeCompare stamps (calls ++ [call])).entries) ∧
    ∀ actions : List Action, (∀ action ∈ actions, action.Names IsIso) →
      IsNewest ((log.run localeCompare stamps actions).recorded.reverse ++ saved)
        (log.run localeCompare stamps actions).entries := by
  have hsorted' : saved.Pairwise (Newer localeCompare) :=
    (List.Pairwise.iff_of_mem fun ha hb =>
      newer_iff_later localeCompare hcollates (hiso _ ha) (hiso _ hb)).mpr hsorted
  have hkept := kept_new localeCompare hnew hentries hsorted'
  have hfresh := (new_fresh hnew).2
  have hnone : ∀ entry ∈ log.recorded, IsIso entry.occurredAt := by
    rw [hfresh]
    exact fun _ h => absurd h List.not_mem_nil
  have hcalls := fun calls => (kept_recordwise localeCompare stamps saved).recordCalls
    localeCompare stamps calls (fun _ _ _ _ => trivial) hkept
  have hrecorded : ∀ calls, (log.recordCalls localeCompare stamps calls).recorded =
      entriesOf stamps calls 0 := by
    intro calls
    rw [recordCalls_recorded, hfresh]
    rfl
  have hall : ∀ {log : ActivityLog}, (∀ entry ∈ log.recorded, IsIso entry.occurredAt) →
      ∀ entry ∈ log.recorded.reverse ++ saved, IsIso entry.occurredAt := fun h =>
    List.forall_mem_append.mpr ⟨fun entry hentry => h entry (List.mem_reverse.mp hentry), hiso⟩
  refine ⟨fun calls hnames => ?_, fun calls call hwritten => ?_, fun actions hnames => ?_⟩
  · rw [← hrecorded]
    exact isNewest_of_kept localeCompare hcollates (hcalls calls)
      (hall ((iso_recordwise localeCompare stamps hnow).recordCalls localeCompare stamps calls
        hnames hnone))
  · have hlast := hcalls (calls ++ [call])
    have happ : log.recordCalls localeCompare stamps (calls ++ [call]) =
        (log.recordCalls localeCompare stamps calls).recordCalls localeCompare stamps [call] :=
      List.foldl_append
    rw [happ] at hlast ⊢
    refine reload_of_kept localeCompare stamps call hlast ?_
    rw [hrecorded, entriesOf, List.length_map, List.length_zipIdx]
    exact hwritten
  · exact isNewest_of_kept localeCompare hcollates
      ((kept_recordwise localeCompare stamps saved).run actions
        (fun action _ => by rcases action with (_ | _) | _ <;> trivial) hkept)
      (hall ((iso_recordwise localeCompare stamps hnow).run actions hnames hnone))

end ActivityLog

end Kept

namespace ActivityLog

/-! ## A server that is older than an entry -/

/-- Midnight of the second of January, and ten minutes before. -/
def midnight : Text := "2024-01-02T00:00:00.000Z".toList

def before : Text := "2024-01-01T23:50:00.000Z".toList

theorem isIso_midnight : IsIso midnight :=
  ⟨⟨2024, 1, 2, 0, 0, 0, 0, by decide, by decide, by decide, by decide, by decide, by decide,
    by decide, by decide, by decide⟩, by decide⟩

theorem isIso_before : IsIso before :=
  ⟨⟨2024, 1, 1, 23, 50, 0, 0, by decide, by decide, by decide, by decide, by decide, by decide,
    by decide, by decide, by decide⟩, by decide⟩

def savedTwo : List Entry :=
  [⟨"b".toList, .serverStopped, midnight, []⟩, ⟨"a".toList, .serverStarted, before, []⟩]

/-- A client connects at midnight, and the server is as old as the first entry. -/
def lateStart : List RecordCall :=
  [⟨.clientConnected, [], none⟩, ⟨.serverStarted, [], some before⟩]

def atMidnight : Nat → Stamp := fun n => ⟨(toString n).toList, midnight, none⟩

theorem keeps_newest_two :
    ∃ log, ActivityLog.new (.ok (fileText none savedTwo)) = .ok log ∧
      IsNewest ((entriesOf atMidnight lateStart 0).reverse ++ savedTwo)
        (log.recordCalls compare atMidnight lateStart).entries ∧
      (log.recordCalls compare atMidnight lateStart).entries.map Entry.id =
        ["0".toList, "b".toList, "1".toList, "a".toList] := by
  have hnew := @new_fileText none savedTwo (by decide)
  refine ⟨_, hnew, (keeps_newest compare atMidnight (fun _ _ => rfl) hnew rfl ?_ (by decide +kernel)
    fun _ => isIso_midnight).1 lateStart ?_, by decide +kernel⟩
  · exact List.forall_mem_cons.mpr ⟨isIso_midnight, List.forall_mem_singleton.mpr isIso_before⟩
  · refine List.forall_mem_cons.mpr ⟨nofun, List.forall_mem_singleton.mpr fun time htime => ?_⟩
    rw [← Option.some.inj htime]
    exact isIso_before

/-- A saved entry without milliseconds, and half a second later a new one. -/
def wholeSecond : List Entry :=
  [⟨"a".toList, .serverStopped, "2024-01-01T00:00:00Z".toList, []⟩]

def halfSecondLater : List RecordCall :=
  [⟨.serverStarted, [], some "2024-01-01T00:00:00.500Z".toList⟩]

/-- The older one stays in front. -/
theorem mixed_precision_misplaced :
    ∃ log, ActivityLog.new (.ok (fileText none wholeSecond)) = .ok log ∧
      (log.recordCalls compare atMidnight halfSecondLater).entries.map time =
        [63871286400000, 63871286400500] ∧
      ¬ IsNewest ((entriesOf atMidnight halfSecondLater 0).reverse ++ wholeSecond)
        (log.recordCalls compare atMidnight halfSecondLater).entries := by
  have hnew := @new_fileText none wholeSecond (by decide)
  refine ⟨_, hnew, by decide +kernel, fun ⟨_, hnewest⟩ => ?_⟩
  have htimes := congrArg (List.map time) (hnewest
    ((entriesOf atMidnight halfSecondLater 0).reverse ++ wholeSecond).zipIdx (List.Perm.refl _) ?_)
  · revert htimes
    decide +kernel
  · refine List.pairwise_pair.mpr ⟨?_, fun _ => by decide⟩
    show time _ ≤ time _
    decide +kernel

end ActivityLog

end Web

end AutobricksVpn
