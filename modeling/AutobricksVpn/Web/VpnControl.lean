/-
# `AutobricksVpn.Web.VpnControl` — the console reads what the watcher writes

`VpnControl.watch` of `web/src/vpn-control.js`: the socket decodes the chunks it
gets as UTF-8, and the `data` listener cuts the text into lines and hands the
value of each to `onMessage`.  Lines that are empty are skipped, and those that
are no JSON go to `onError`; so does what `onMessage` throws.

`JSON.parse` and `onMessage` are the parameters.  `onMessage` may throw, depending
on the calls before; `onError` returns.  A string is a list of characters here,
where the language has UTF-16 code units.

However the bytes are cut, the calls are those for the complete lines
(`calls_watch`), and the watcher writes complete lines (`watch_stream`).
-/
import AutobricksVpn.Lib.Json
import AutobricksVpn.Lib.TextStream
import AutobricksVpn.Server.Watcher

namespace AutobricksVpn

namespace VpnControl

inductive Call (ν ε : Type) where
  | message (value : ν)
  | error (error : ε)
  deriving DecidableEq

def Call.message? {ν ε : Type} : Call ν ε → Option ν
  | .message value => some value
  | .error _ => none

section Watch

variable {ν ε : Type} (parse : List Char → Except ε ν)
  (onMessage : List (Call ν ε) → ν → Option ε)

/-! ## The listener -/

/-- The body of `if (line)`, appended to the calls made so far. -/
def handleLine (calls : List (Call ν ε)) (line : List Char) : List (Call ν ε) :=
  if line.isEmpty then calls
  else
    match parse line with
    | .ok value =>
        match onMessage calls value with
        | none => calls ++ [.message value]
        | some error => calls ++ [.message value, .error error]
    | .error error => calls ++ [.error error]

/-- The `while` loop.  Every turn takes a line off the buffer, so its length
bounds the turns. -/
def handleLines : Nat → List Char → List (Call ν ε) → List Char × List (Call ν ε)
  | 0, buffer, calls => (buffer, calls)
  | turns + 1, buffer, calls =>
      if '\n' ∈ buffer then
        let index := buffer.idxOf '\n'
        let line := buffer.take index
        handleLines turns (buffer.drop (index + 1)) (handleLine parse onMessage calls line)
      else (buffer, calls)

/-- The bytes the decoder holds back, `buffer`, and the calls made. -/
structure State (ν ε : Type) where
  held : List UInt8
  buffer : List Char
  calls : List (Call ν ε)

/-- The `data` listener. -/
def onData (chunk : List Char) (s : State ν ε) : State ν ε :=
  let buffer := s.buffer ++ chunk
  let (buffer, calls) := handleLines parse onMessage buffer.length buffer s.calls
  { s with buffer := buffer, calls := calls }

/-- A chunk arrives at the socket. -/
def onChunk (s : State ν ε) (bytes : List UInt8) : State ν ε :=
  let (held, chunk) := TextStream.write s.held bytes
  onData parse onMessage chunk { s with held := held }

/-- `watch`: the calls made when the chunks have arrived, and the stream has
ended if it has. -/
def watch (chunks : List (List UInt8)) (ended : Bool) : List (Call ν ε) :=
  let s := chunks.foldl (onChunk parse onMessage) { held := [], buffer := [], calls := [] }
  if ended then (onData parse onMessage (TextStream.finish s.held) s).calls else s.calls

/-! ## The calls -/

open TextStream

/-- What `onMessage` is to get for a line. -/
def document (line : List Char) : Option ν :=
  if line.isEmpty then none else (parse line).toOption

/-- The call that a line makes, if `onMessage` does not throw. -/
def response (line : List Char) : Option (Call ν ε) :=
  if line.isEmpty then none
  else
    match parse line with
    | .ok value => some (.message value)
    | .error error => some (.error error)

variable {parse onMessage}

/-- The loop handles the complete lines. -/
theorem handleLines_eq :
    ∀ {turns : Nat} {buffer : List Char} (calls : List (Call ν ε)), buffer.length ≤ turns →
      handleLines parse onMessage turns buffer calls =
        ((splitLines '\n' buffer).2,
          (splitLines '\n' buffer).1.foldl (handleLine parse onMessage) calls)
  | 0, buffer, calls, h => by
      rw [List.eq_nil_of_length_eq_zero (Nat.le_zero.mp h)]
      rfl
  | turns + 1, buffer, calls, h => by
      rw [handleLines]
      by_cases hmem : '\n' ∈ buffer
      · have hlt : buffer.idxOf '\n' < buffer.length := List.idxOf_lt_length_of_mem hmem
        have hturns : (buffer.drop (buffer.idxOf '\n' + 1)).length ≤ turns := by
          rw [List.length_drop]
          omega
        rw [if_pos hmem, handleLines_eq _ hturns, splitLines_of_mem hmem]
        rfl
      · rw [if_neg hmem, splitLines_of_not_mem hmem]
        rfl

/-- The state when the bytes have arrived, however they were cut. -/
def arrived (parse : List Char → Except ε ν) (onMessage : List (Call ν ε) → ν → Option ε)
    (bytes : List UInt8) : State ν ε :=
  { held := (write [] bytes).1
    buffer := (splitLines '\n' (write [] bytes).2).2
    calls := (splitLines '\n' (write [] bytes).2).1.foldl (handleLine parse onMessage) [] }

theorem onData_arrived (chunk : List Char) (bytes : List UInt8) :
    onData parse onMessage chunk (arrived parse onMessage bytes) =
      { held := (write [] bytes).1
        buffer := (splitLines '\n' ((write [] bytes).2 ++ chunk)).2
        calls := (splitLines '\n' ((write [] bytes).2 ++ chunk)).1.foldl
          (handleLine parse onMessage) [] } := by
  rw [splitLines_append, List.foldl_append, onData, handleLines_eq _ (Nat.le_refl _)]
  rfl

theorem onChunk_arrived (bytes chunk : List UInt8) :
    onChunk parse onMessage (arrived parse onMessage bytes) chunk =
      arrived parse onMessage (bytes ++ chunk) := by
  have hheld : onChunk parse onMessage (arrived parse onMessage bytes) chunk =
      { onData parse onMessage (write (write [] bytes).1 chunk).2
          (arrived parse onMessage bytes) with
        held := (write (write [] bytes).1 chunk).1 } := rfl
  rw [hheld, onData_arrived, arrived, write_append]

theorem foldl_onChunk (chunks : List (List UInt8)) (bytes : List UInt8) :
    chunks.foldl (onChunk parse onMessage) (arrived parse onMessage bytes) =
      arrived parse onMessage (bytes ++ chunks.flatten) := by
  induction chunks generalizing bytes with
  | nil => rw [List.flatten_nil, List.append_nil, List.foldl_nil]
  | cons chunk chunks ih =>
      rw [List.foldl_cons, onChunk_arrived, ih, List.flatten_cons, List.append_assoc]

/-- The calls are those for the complete lines. -/
theorem calls_watch {chunks lines : List (List UInt8)} {part : List UInt8} (ended : Bool) :
    chunks.flatten = (lines.map (· ++ [0x0A])).flatten ++ part →
    (∀ line ∈ lines, 0x0A ∉ line) → 0x0A ∉ part →
    watch parse onMessage chunks ended =
      (lines.map decode).foldl (handleLine parse onMessage) [] := by
  intro hchunks hlines hpart
  have hstate : chunks.foldl (onChunk parse onMessage) { held := [], buffer := [], calls := [] } =
      arrived parse onMessage ([] ++ chunks.flatten) := foldl_onChunk chunks []
  have hsplit := splitLines_write hlines hpart
  rw [List.nil_append, hchunks] at hstate
  unfold watch
  dsimp only
  rw [hstate]
  cases ended with
  | false =>
      show (arrived parse onMessage _).calls = _
      rw [arrived, hsplit]
  | true =>
      -- What the decoder held back completes no line.
      have hheld : (write [] ((lines.map (· ++ [0x0A])).flatten ++ part)).1 = (write [] part).1 :=
        held_of_lines lines part
      show (onData parse onMessage _ (arrived parse onMessage _)).calls = _
      rw [onData_arrived, splitLines_append, hsplit, arrived, hheld]
      dsimp only
      rw [← decode, splitLines_of_not_mem (newline_not_mem_decode hpart), List.append_nil]

theorem messages_handleLine (calls : List (Call ν ε)) (line : List Char) :
    (handleLine parse onMessage calls line).filterMap Call.message? =
      calls.filterMap Call.message? ++ (document parse line).toList := by
  unfold handleLine document
  by_cases hline : line.isEmpty = true
  · rw [if_pos hline, if_pos hline]
    exact (List.append_nil _).symm
  · rw [if_neg hline, if_neg hline]
    cases parse line with
    | error error =>
        rw [List.filterMap_append]
        rfl
    | ok value =>
        dsimp only
        cases onMessage calls value with
        | none =>
            rw [List.filterMap_append]
            rfl
        | some error =>
            rw [List.filterMap_append]
            rfl

/-- Every line has its message, if it is to have one. -/
theorem messages_foldl (lines : List (List Char)) (calls : List (Call ν ε)) :
    (lines.foldl (handleLine parse onMessage) calls).filterMap Call.message? =
      calls.filterMap Call.message? ++ lines.filterMap (document parse) := by
  induction lines generalizing calls with
  | nil => exact (List.append_nil _).symm
  | cons line lines ih =>
      rw [List.foldl_cons, ih, messages_handleLine, List.append_assoc]
      congr 1
      cases hdocument : document parse line with
      | none => rw [List.filterMap_cons_none hdocument]; rfl
      | some value => rw [List.filterMap_cons_some hdocument]; rfl

theorem handleLine_response {calls : List (Call ν ε)} {line : List Char}
    (hreturns : ∀ calls value, onMessage calls value = none) :
    handleLine parse onMessage calls line = calls ++ (response parse line).toList := by
  unfold handleLine response
  by_cases hline : line.isEmpty = true
  · rw [if_pos hline, if_pos hline]
    exact (List.append_nil _).symm
  · rw [if_neg hline, if_neg hline]
    cases parse line with
    | error error => rfl
    | ok value => simp only [hreturns, Option.toList_some]

theorem foldl_response (hreturns : ∀ calls value, onMessage calls value = none)
    (lines : List (List Char)) (calls : List (Call ν ε)) :
    lines.foldl (handleLine parse onMessage) calls =
      calls ++ lines.filterMap (response parse) := by
  induction lines generalizing calls with
  | nil => exact (List.append_nil _).symm
  | cons line lines ih =>
      rw [List.foldl_cons, ih, handleLine_response hreturns, List.append_assoc]
      congr 1
      cases hresponse : response parse line with
      | none => rw [List.filterMap_cons_none hresponse]; rfl
      | some call => rw [List.filterMap_cons_some hresponse]; rfl

/-! ## From end to end -/

/-- A snapshot of text, as the server makes them. -/
def snapshotOf (text : List Char) (h : '\n' ∉ text) : Snapshot where
  line := text.flatMap String.utf8EncodeChar
  plain := by
    intro hmem
    obtain ⟨c, hc, hb⟩ := List.mem_flatMap.mp hmem
    rw [newline_mem_encode hb] at hc
    exact h hc

theorem decode_snapshotOf (text : List Char) (h : '\n' ∉ text) :
    decode (snapshotOf text h).line = text := decode_encode text

/-- What is written are whole snapshots in the order given, and a part of one
more; when nothing is pending it ends with the last.  And however it arrives,
`onMessage` gets each of those whole snapshots once, in order, unless its line
is empty or no JSON; the calls of both kinds are those that the lines make, and
an empty line makes none. -/
theorem watch_stream {first : Snapshot} {as : List WatcherAction} {tr : List WatcherEvent}
    {w : Watcher} (parse : List Char → Except ε ν) (onMessage : List (Call ν ε) → ν → Option ε) :
    (watcher first).Run Machine.Free as tr w →
    ∃ sent part, Watcher.Frames (givenTo first tr) sent part (writtenBytes tr) ∧
      (w.pending = [] → part = [] ∧ sent.getLast? = (givenTo first tr).getLast?) ∧
      (∀ chunks ended, chunks.flatten = writtenBytes tr →
        watch parse onMessage chunks ended =
            (sent.map fun x => decode x.line).foldl (handleLine parse onMessage) [] ∧
          (watch parse onMessage chunks ended).filterMap Call.message? =
            sent.filterMap (fun x => document parse (decode x.line)) ∧
          ((∀ calls value, onMessage calls value = none) →
            watch parse onMessage chunks ended =
              sent.filterMap fun x => response parse (decode x.line))) ∧
      ∀ text h, decode (snapshotOf text h).line = text := by
  intro hr
  obtain ⟨sent, part, hframes, hlast⟩ := (Watcher.progress_of_run hr).frames
  refine ⟨sent, part, hframes, hlast, fun chunks ended hchunks => ?_, decode_snapshotOf⟩
  have hlines : ∀ line ∈ sent.map Snapshot.line, 0x0A ∉ line := by
    intro line hline
    obtain ⟨x, -, rfl⟩ := List.mem_map.mp hline
    exact x.plain
  have hpart : 0x0A ∉ part := by
    rcases hframes.kept with ⟨-, rfl⟩ | ⟨current, -, hbefore⟩
    · exact List.not_mem_nil
    · exact fun hmem => current.plain (hbefore.subset hmem)
  have hbytes : chunks.flatten = ((sent.map Snapshot.line).map (· ++ [0x0A])).flatten ++ part := by
    rw [hchunks, hframes.split, List.map_map]
    rfl
  have hcalls : watch parse onMessage chunks ended =
      (sent.map fun x => decode x.line).foldl (handleLine parse onMessage) [] := by
    rw [calls_watch ended hbytes hlines hpart, List.map_map]
    rfl
  refine ⟨hcalls, ?_, fun hreturns => ?_⟩
  · rw [hcalls, messages_foldl, List.filterMap_nil, List.nil_append, List.filterMap_map]
    rfl
  · rw [hcalls, foldl_response hreturns, List.nil_append, List.filterMap_map]
    rfl

end Watch

section Samples

/-- `JSON.parse` of a line that is one string. -/
def parseString (line : List Char) : Except Unit (List Char) :=
  match Json.parse line with
  | some (.string text) => .ok text
  | _ => .error ()

/-- The calls when `onMessage` does not throw. -/
def callsOf (chunks : List (List UInt8)) (ended : Bool) : List (Call (List Char) Unit) :=
  watch parseString (fun _ _ => none) chunks ended

def quoted (text : List Char) (h : '\n' ∉ Json.quote text) : Snapshot := snapshotOf _ h

/-- Two bytes are sent of the first snapshot when two more come, and at last one
that is no JSON. -/
def coalesced : List WatcherAction :=
  [.flush [.ok 2], .enqueueLatest (quoted ['a'] (by decide)),
    .enqueueLatest (quoted ['b'] (by decide)), .flush [.ok 1, .ok 9, .ok 9],
    .enqueueLatest (snapshotOf ['x'] (by decide)), .flush [.ok 9]]

/-- The second is left out, and the console gets the others, whatever the cuts. -/
theorem watch_stream_coalesced :
    ∃ tr w, (watcher (quoted ['é'] (by decide))).Run Machine.Free coalesced tr w ∧
      w.pending = [] ∧ ∀ chunks ended, chunks.flatten = writtenBytes tr →
        callsOf chunks ended = [.message ['é'], .message ['b'], .error ()] := by
  have hr : (watcher (quoted ['é'] (by decide))).Run Machine.Free coalesced _ _ :=
    Machine.run_outcome (g := fun _ _ => true) (fun _ _ _ => trivial) (by decide +kernel)
  refine ⟨_, _, hr, by decide +kernel, fun chunks ended hchunks => ?_⟩
  obtain ⟨sent, part, -, -, hcalls, -⟩ := watch_stream parseString (fun _ _ => none) hr
  rw [callsOf, (hcalls chunks ended hchunks).2.2 fun _ _ => rfl,
    ← (hcalls [_] false List.flatten_singleton).2.2 fun _ _ => rfl]
  decide +kernel

/-- A snapshot that is a line feed only, and one that is no JSON: both are written
in full, and `onMessage` is called for neither. -/
theorem watch_skips_lines :
    ∃ tr w, (watcher (snapshotOf [] (by decide))).Run Machine.Free
        [.flush [.ok 1], .enqueueLatest (snapshotOf ['x'] (by decide)), .flush [.ok 9]] tr w ∧
      w.pending = [] ∧
      writtenBytes tr =
        Snapshot.stream [snapshotOf [] (by decide), snapshotOf ['x'] (by decide)] ∧
      callsOf [writtenBytes tr] true = [.error ()] ∧
      ((callsOf [writtenBytes tr] true).filterMap Call.message?).length ≠
        [snapshotOf [] (by decide), snapshotOf ['x'] (by decide)].length := by
  have hr : (watcher (snapshotOf [] (by decide))).Run Machine.Free
      [.flush [.ok 1], .enqueueLatest (snapshotOf ['x'] (by decide)), .flush [.ok 9]] _ _ :=
    Machine.run_outcome (g := fun _ _ => true) (fun _ _ _ => trivial) (by decide +kernel)
  exact ⟨_, _, hr, by decide +kernel, by decide +kernel, by decide +kernel, by decide +kernel⟩

end Samples

end VpnControl

end AutobricksVpn
