/-
# `AutobricksVpn.Server.Watcher` — snapshots for a client that watches

A `WATCH` connection gets a snapshot of the sessions each time they change
(`Watcher` of `src/server/control.rs`).  The socket takes as much of it as it
has room for; what comes in the meantime is coalesced, so that at most one
snapshot waits, the latest, behind the one that is being written.

What is written is whole snapshots, in the order in which they came, and then a
part of one more; some are left out, and the last of those kept is the last that
came (`Progress`).
-/
import AutobricksVpn.Lib.Machine
import AutobricksVpn.Net.IoError

namespace AutobricksVpn

/-! ## The writer -/

structure Watcher where
  pending : List UInt8
  written : Nat
  next : Option (List UInt8)
  bounded : written ≤ pending.length

namespace Watcher

def new (snapshot : List UInt8) : Watcher :=
  { pending := snapshot, written := 0, next := none, bounded := Nat.zero_le _ }

def enqueueLatest (snapshot : List UInt8) (w : Watcher) : Watcher :=
  if w.pending = [] then
    { pending := w.pending ++ snapshot, written := 0, next := w.next, bounded := Nat.zero_le _ }
  else { w with next := some snapshot }

/-- What `write` is called with. -/
def rest (w : Watcher) : List UInt8 := w.pending.drop w.written

/-- The socket has taken as much as it has room for. -/
def advance (room : Nat) (w : Watcher) : Watcher :=
  { w with
    written := w.written + (w.rest.take room).length
    bounded := by
      have := w.bounded
      rw [rest, List.length_take, List.length_drop]
      omega }

/-- The head of the loop: `none` when everything is written. -/
def takeNext (w : Watcher) : Option Watcher :=
  if w.written = w.pending.length then w.next.map new else some w

/-- What is left then: `pending` is cleared. -/
def idle : Watcher := new []

structure Flushed where
  watcher : Watcher
  sent : List UInt8
  ok : Bool

/-- `flush`, with the outcomes of the writes: an error, or how many bytes the
socket takes at most.  It would block when the outcomes given are used up. -/
def flush : List (Except IoError Nat) → Watcher → Flushed
  | [], w =>
      match w.takeNext with
      | none => { watcher := idle, sent := [], ok := true }
      | some w => { watcher := w, sent := [], ok := true }
  | call :: calls, w =>
      match w.takeNext, call with
      | none, _ => { watcher := idle, sent := [], ok := true }
      | some w, .ok room =>
          let sent := w.rest.take room
          if sent = [] then { watcher := w, sent := [], ok := false }
          else
            let flushed := flush calls (w.advance room)
            { flushed with sent := sent ++ flushed.sent }
      | some w, .error error => { watcher := w, sent := [], ok := error.kind == .wouldBlock }

end Watcher

/-! ## Runs -/

/-- A line, to be followed by the only line feed. -/
structure Snapshot where
  line : List UInt8
  plain : 0x0A ∉ line

namespace Snapshot

def bytes (x : Snapshot) : List UInt8 := x.line ++ [0x0A]

theorem bytes_ne_nil (x : Snapshot) : x.bytes ≠ [] := List.append_ne_nil_of_right_ne_nil _ (by simp)

/-- The snapshots one after the other. -/
def stream (xs : List Snapshot) : List UInt8 := (xs.map bytes).flatten

theorem stream_append (xs ys : List Snapshot) : stream (xs ++ ys) = stream xs ++ stream ys := by
  rw [stream, List.map_append, List.flatten_append, stream, stream]

theorem stream_singleton (x : Snapshot) : stream [x] = x.bytes := List.append_nil _

end Snapshot

inductive WatcherAction where
  | enqueueLatest (snapshot : Snapshot)
  | flush (calls : List (Except IoError Nat))

inductive WatcherEvent where
  | given (snapshot : Snapshot)
  | wrote (bytes : List UInt8)

/-- A watcher that is made with the first snapshot. -/
def watcher (first : Snapshot) : Machine Watcher WatcherAction WatcherEvent where
  init := Watcher.new first.bytes
  step
    | w, .enqueueLatest x => some (w.enqueueLatest x.bytes, [.given x])
    | w, .flush calls => some ((w.flush calls).watcher, [.wrote (w.flush calls).sent])

/-- The snapshots the watcher was given. -/
def givenTo (first : Snapshot) (tr : List WatcherEvent) : List Snapshot :=
  first :: tr.filterMap fun
    | .given x => some x
    | .wrote _ => none

/-- What the socket has taken. -/
def writtenBytes (tr : List WatcherEvent) : List UInt8 :=
  tr.flatMap fun
    | .given _ => []
    | .wrote bytes => bytes

section Log

variable (first x : Snapshot) (tr : List WatcherEvent) (bytes : List UInt8)

@[simp] theorem givenTo_given : givenTo first (tr ++ [.given x]) = givenTo first tr ++ [x] := by
  simp [givenTo]

@[simp] theorem givenTo_wrote : givenTo first (tr ++ [.wrote bytes]) = givenTo first tr := by
  simp [givenTo]

@[simp] theorem writtenBytes_given : writtenBytes (tr ++ [.given x]) = writtenBytes tr := by
  simp [writtenBytes]

@[simp] theorem writtenBytes_wrote :
    writtenBytes (tr ++ [.wrote bytes]) = writtenBytes tr ++ bytes := by
  simp [writtenBytes]

end Log

namespace Watcher

/-! ## What is written -/

/-- Some snapshots are left out, and never the last. -/
structure Kept (kept given : List Snapshot) : Prop where
  sublist : kept.Sublist given
  last : kept.getLast? = given.getLast?

/-- One more comes, and what was waiting is left out. -/
theorem Kept.concat {kept waiting given : List Snapshot} (x : Snapshot)
    (h : Kept (kept ++ waiting) given) : Kept (kept ++ [x]) (given ++ [x]) where
  sublist :=
    ((List.sublist_append_left kept waiting).trans h.sublist).append (List.Sublist.refl [x])
  last := by rw [List.getLast?_concat, List.getLast?_concat]

/-- `sent` are written in full. -/
inductive Progress (given : List Snapshot) (out : List UInt8) (w : Watcher) : Prop
  | idle {sent : List Snapshot} :
      w = Watcher.idle → out = Snapshot.stream sent → Kept sent given → Progress given out w
  | busy {sent : List Snapshot} {current : Snapshot} {waiting : Option Snapshot} :
      w.pending = current.bytes → w.next = waiting.map Snapshot.bytes →
      out = Snapshot.stream sent ++ current.bytes.take w.written →
      Kept (sent ++ current :: waiting.toList) given → Progress given out w

section Progress

variable {given : List Snapshot} {out : List UInt8} {w : Watcher}

theorem Progress.enqueueLatest (x : Snapshot) :
    Progress given out w → Progress (given ++ [x]) out (w.enqueueLatest x.bytes) := by
  rintro (⟨rfl, hout, hkept⟩ | @⟨sent, current, waiting, hpending, hnext, hout, hkept⟩)
  · rename_i sent
    have hkept : Kept (sent ++ [x]) (given ++ [x]) :=
      Kept.concat x (by rwa [List.append_nil] : Kept (sent ++ []) given)
    refine @Progress.busy _ _ _ sent x none rfl rfl ?_ hkept
    rw [hout]
    exact (List.append_nil _).symm
  · have hbusy : w.pending ≠ [] := by
      rw [hpending]
      exact current.bytes_ne_nil
    rw [Watcher.enqueueLatest, if_neg hbusy]
    rw [List.append_cons] at hkept
    refine @Progress.busy _ _ _ sent current (some x) hpending rfl hout ?_
    rw [List.append_cons]
    exact Kept.concat x hkept

/-- When all is written, the snapshot that waits is next. -/
theorem Progress.takeNext :
    Progress given out w →
    (w.takeNext = none ∧ Progress given out Watcher.idle) ∨
      ∃ w', w.takeNext = some w' ∧ Progress given out w' := by
  intro h
  unfold Watcher.takeNext
  by_cases hall : w.written = w.pending.length
  · rw [if_pos hall]
    rcases h with ⟨rfl, hout, hkept⟩ | @⟨sent, current, waiting, hpending, hnext, hout, hkept⟩
    · exact .inl ⟨rfl, .idle rfl hout hkept⟩
    · have hsent : out = Snapshot.stream (sent ++ [current]) := by
        rw [hout, hall, hpending, List.take_length, Snapshot.stream_append,
          Snapshot.stream_singleton]
      rw [List.append_cons] at hkept
      rw [hnext]
      cases waiting with
      | none =>
          rw [Option.toList_none, List.append_nil] at hkept
          exact .inl ⟨rfl, .idle rfl hsent hkept⟩
      | some x =>
          refine .inr ⟨_, rfl, ?_⟩
          refine @Progress.busy _ _ _ (sent ++ [current]) x none rfl rfl ?_ hkept
          rw [hsent]
          exact (List.append_nil _).symm
  · rw [if_neg hall]
    exact .inr ⟨w, rfl, h⟩

theorem Progress.advance (room : Nat) :
    Progress given out w → Progress given (out ++ w.rest.take room) (w.advance room) := by
  rintro (⟨rfl, hout, hkept⟩ | @⟨sent, current, waiting, hpending, hnext, hout, hkept⟩)
  · have hnothing : Watcher.idle.rest.take room = [] := List.take_nil
    rw [hnothing, List.append_nil]
    refine .idle ?_ hout hkept
    simp only [Watcher.advance, hnothing]
    rfl
  · refine .busy hpending hnext ?_ hkept
    have hrest : w.rest = current.bytes.drop w.written := by rw [rest, hpending]
    have htake : w.rest.take room =
        (current.bytes.drop w.written).take (w.rest.take room).length := by
      rw [hrest, List.length_take, ← List.take_eq_take_min]
    have hwritten : (w.advance room).written = w.written + (w.rest.take room).length := rfl
    rw [hwritten, List.take_add, ← htake, hout, List.append_assoc]

/-- What one `flush` writes. -/
theorem Progress.flush :
    ∀ {calls : List (Except IoError Nat)} {out : List UInt8} {w : Watcher}, Progress given out w →
      Progress given (out ++ (w.flush calls).sent) (w.flush calls).watcher
  | [], out, w, h => by
      unfold Watcher.flush
      rcases h.takeNext with ⟨hnext, h⟩ | ⟨w', hnext, h⟩ <;> rw [hnext] <;>
        exact (List.append_nil out).symm ▸ h
  | call :: calls, out, w, h => by
      unfold Watcher.flush
      rcases h.takeNext with ⟨hnext, h⟩ | ⟨w', hnext, h⟩ <;> rw [hnext]
      · exact (List.append_nil out).symm ▸ h
      · cases call with
        | error error => exact (List.append_nil out).symm ▸ h
        | ok room =>
            dsimp only
            by_cases hsent : w'.rest.take room = []
            · rw [if_pos hsent]
              exact (List.append_nil out).symm ▸ h
            · rw [if_neg hsent]
              rw [← List.append_assoc]
              exact (h.advance room).flush

end Progress

theorem progress_of_run {first : Snapshot} {as : List WatcherAction} {tr : List WatcherEvent}
    {w : Watcher} :
    (watcher first).Run Machine.Free as tr w → Progress (givenTo first tr) (writtenBytes tr) w := by
  refine Machine.Run.invariant (fun tr w => Progress (givenTo first tr) (writtenBytes tr) w) ?_ ?_
  · exact @Progress.busy _ _ _ [] first none rfl rfl rfl ⟨List.Sublist.refl _, rfl⟩
  · intro tr w a w' evs h _ hs
    cases a with
    | enqueueLatest x =>
        obtain ⟨rfl, rfl⟩ := Prod.mk.inj (Option.some.inj hs)
        rw [givenTo_given, writtenBytes_given]
        exact h.enqueueLatest x
    | flush calls =>
        obtain ⟨rfl, rfl⟩ := Prod.mk.inj (Option.some.inj hs)
        rw [givenTo_wrote, writtenBytes_wrote]
        exact h.flush

/-- Whole snapshots, and then a part of one more that breaks off before its line feed. -/
structure Frames (given sent : List Snapshot) (part out : List UInt8) : Prop where
  split : out = Snapshot.stream sent ++ part
  kept : sent.Sublist given ∧ part = [] ∨
    ∃ current, (sent ++ [current]).Sublist given ∧ part <+: current.line

theorem Progress.frames {given : List Snapshot} {out : List UInt8} {w : Watcher} :
    Progress given out w → ∃ sent part, Frames given sent part out ∧
      (w.pending = [] → part = [] ∧ sent.getLast? = given.getLast?) := by
  rintro (⟨rfl, hout, hkept⟩ | @⟨sent, current, waiting, hpending, hnext, hout, hkept⟩)
  · exact ⟨_, [], ⟨by rw [hout, List.append_nil], .inl ⟨hkept.sublist, rfl⟩⟩,
      fun _ => ⟨rfl, hkept.last⟩⟩
  · have hbusy : w.pending ≠ [] := by
      rw [hpending]
      exact current.bytes_ne_nil
    have hsub : (sent ++ [current]).Sublist given := by
      rw [List.append_cons] at hkept
      exact (List.sublist_append_left _ _).trans hkept.sublist
    by_cases hall : w.written = current.bytes.length
    · refine ⟨sent ++ [current], [], ⟨?_, .inl ⟨hsub, rfl⟩⟩, fun h => absurd h hbusy⟩
      rw [hout, hall, List.take_length, Snapshot.stream_append, Snapshot.stream_singleton,
        List.append_nil]
    · refine ⟨sent, current.bytes.take w.written, ⟨hout, .inr ⟨current, hsub, ?_⟩⟩,
        fun h => absurd h hbusy⟩
      have hle : w.written ≤ current.line.length := by
        have hbounded := w.bounded
        rw [hpending] at hbounded
        rw [Snapshot.bytes, List.length_append, List.length_singleton] at hbounded hall
        omega
      rw [Snapshot.bytes, List.take_append_of_le_length hle]
      exact List.take_prefix _ _

end Watcher

end AutobricksVpn
