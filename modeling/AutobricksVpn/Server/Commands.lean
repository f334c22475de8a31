/-
# `AutobricksVpn.Server.Commands` — a command however it is cut

`process` reads a connection pass by pass, each time as much as is there, into a
buffer of 256 bytes, and calls `handle_command` when a newline or the end of the
stream has been read.  What the client sends is cut into reads, and these are
divided among the passes, in any way (`Reads`, `Arrives`).

| what a pass does with a connection | |
| :-- | :-- |
| calls `handle_command` with its line | `handedOver` |
| keeps it for the next pass | `waits` |
| drops it, three seconds old | neither |

All three go by the connection alone.  So the calls for one connection are those
that would be made if there were no other (`filter_commandLines`), and a pass is
nothing but the calls for the lines, in order of acceptance (`serve_eq`).
-/
import AutobricksVpn.Config.Lines
import AutobricksVpn.Server.ControlSocket

namespace AutobricksVpn

/-! ## A line that arrived whole -/

open TextStream

theorem continuation_append {first : UInt8} {more : List UInt8}
    (hsize : encodedSize first = more.length + 1)
    (hfirst : ∀ b ∈ more.head?, mayFollow first b = true)
    (hmore : ∀ b ∈ more, isContinuation b = true) (rest : List UInt8) :
    continuation first (more ++ rest) = more := by
  cases more with
  | nil =>
      cases rest with
      | nil => rfl
      | cons b rest => exact if_neg (by rw [hsize]; simp)
  | cons b more =>
      have hb : mayFollow first b = true := hfirst b rfl
      have htake : (more ++ rest).take (encodedSize first - 2) = more := by
        rw [hsize, show (b :: more).length + 1 - 2 = more.length from rfl, List.take_left]
      rw [List.cons_append, continuation, if_pos (by rw [hsize, hb]; simp), htake,
        List.takeWhile_eq_self_iff.mpr fun x hx => hmore x (List.mem_cons_of_mem _ hx)]

theorem fromUtf8LossyFrom_append (read rest : List UInt8) :
    fromUtf8LossyFrom read.length (read ++ rest) = fromUtf8LossyFrom 0 rest := by
  induction read with
  | nil => rfl
  | cons b read ih => exact ih

/-- An encoding comes out as the text it encodes. -/
theorem fromUtf8Lossy_encode (text : Text) :
    fromUtf8Lossy (text.flatMap String.utf8EncodeChar) = text := by
  unfold fromUtf8Lossy
  induction text with
  | nil => rfl
  | cons c text ih =>
      obtain ⟨first, more, heq, hsize, hfirst, hmore⟩ := encode_shape c
      rw [List.flatMap_cons, heq, List.cons_append, fromUtf8LossyFrom,
        continuation_append hsize hfirst hmore]
      rw [fromUtf8LossyFrom_append, ih, ← heq, decodeSequence_encode]

theorem trim_newline (line : Text) : Text.trim (line ++ ['\n']) = Text.trim line := by
  rw [Text.trim_eq, Text.trim_eq]
  exact Fields.trim_append_right (List.forall_mem_singleton.mpr rfl)

/-! ## What a client sends -/

/-- The reads of a pass from a connection on which `rest` is still to come: what
is left of it then, and whether the end of the stream was read. -/
inductive Reads : List UInt8 → List (Except IoError (List UInt8)) → List UInt8 → Bool → Prop
  | none (rest : List UInt8) : Reads rest [] rest false
  | wouldBlock (rest : List UInt8) {error : IoError} (h : error.kind = .wouldBlock)
      (calls : List (Except IoError (List UInt8))) : Reads rest (.error error :: calls) rest false
  | piece {data rest left : List UInt8} {calls : List (Except IoError (List UInt8))} {closed : Bool}
      (hdata : data ≠ []) (hrest : Reads rest calls left closed) :
      Reads (data ++ rest) (.ok data :: calls) left closed
  | closed (calls : List (Except IoError (List UInt8))) : Reads [] (.ok [] :: calls) [] true

/-- How the line is ended. -/
inductive Ending where
  | newline
  | endOfStream
  deriving DecidableEq

namespace Ending

/-- The bytes of a line with its end. -/
def message : Ending → Text → List UInt8
  | .newline, line => line.flatMap String.utf8EncodeChar ++ [0x0A]
  | .endOfStream, line => line.flatMap String.utf8EncodeChar

/-- Whether the end has been read. -/
def reached : Ending → List UInt8 → Bool → Bool
  | .newline, left, _ => left = []
  | .endOfStream, _, closed => closed

end Ending

/-- A line as a client may send it. -/
structure IsCommandLine (line : Text) : Prop where
  oneLine : '\n' ∉ line
  short : (line.flatMap String.utf8EncodeChar).length ≤ 255

section Reading

variable {ending : Ending} {line : Text} {rest left : List UInt8}
  {calls : List (Except IoError (List UInt8))} {closed : Bool} {p : PendingCommand}

theorem IsCommandLine.newline_not_mem (h : IsCommandLine line) :
    0x0A ∉ line.flatMap String.utf8EncodeChar := by
  intro hmem
  obtain ⟨c, hc, hb⟩ := List.mem_flatMap.mp hmem
  exact h.oneLine (newline_mem_encode hb ▸ hc)

/-- A newline has been read when the end has, unless that is the end of the stream. -/
theorem newline_mem_iff (hline : IsCommandLine line) {bytes : List UInt8}
    (h : bytes ++ rest = ending.message line) :
    0x0A ∈ bytes ↔ ending.reached rest false = true := by
  cases ending with
  | endOfStream =>
    refine ⟨fun hmem => absurd ?_ hline.newline_not_mem, nofun⟩
    have hall : 0x0A ∈ bytes ++ rest := List.mem_append_left _ hmem
    rwa [h] at hall
  | newline =>
    simp only [Ending.reached, decide_eq_true_eq]
    constructor
    · intro hmem
      rcases List.eq_nil_or_concat rest with hrest | ⟨init, last, rfl⟩
      · exact hrest
      rw [List.concat_eq_append, ← List.append_assoc] at h
      have hinit := (List.append_inj' h rfl).1
      refine absurd ?_ hline.newline_not_mem
      rw [← hinit]
      exact List.mem_append_left _ hmem
    · rintro rfl
      rw [List.append_nil] at h
      rw [h]
      exact List.mem_append_right _ (List.mem_singleton_self _)

theorem length_message_le (hline : IsCommandLine line) (ending : Ending) :
    (ending.message line).length ≤ 256 := by
  have hshort := hline.short
  cases ending with
  | newline =>
    rw [Ending.message, List.length_append, List.length_singleton]
    omega
  | endOfStream =>
    rw [Ending.message]
    omega

/-- The connection sent a part of the message, and the end is still to come. -/
structure Open (ending : Ending) (line : Text) (rest : List UInt8) (p : PendingCommand) : Prop where
  bytes : p.bytes ++ rest = ending.message line
  unread : ending.reached rest false = false

theorem Open.length_lt (hline : IsCommandLine line) (h : Open ending line rest p) :
    p.bytes.length < 256 := by
  have hmessage := length_message_le hline ending
  have hlength := congrArg List.length h.bytes
  rw [List.length_append] at hlength
  cases ending with
  | newline =>
    have hrest : rest ≠ [] := of_decide_eq_false h.unread
    have hpos := List.length_pos_iff.mpr hrest
    omega
  | endOfStream =>
    have hshort := hline.short
    rw [Ending.message] at hlength
    omega

/-- What comes is kept as a whole: there is room for the message. -/
theorem append_bytes (hline : IsCommandLine line) {data : List UInt8}
    (h : p.bytes ++ (data ++ rest) = ending.message line) :
    (p.append data).bytes = p.bytes ++ data := by
  have hmessage := length_message_le hline ending
  have hlength := congrArg List.length h
  rw [List.length_append, List.length_append] at hlength
  exact congrArg (p.bytes ++ ·) (List.take_of_length_le (by omega))

theorem Reads.nil_left (h : Reads [] calls left closed) : left = [] := by
  generalize hrest : ([] : List UInt8) = rest at h
  cases h with
  | none | wouldBlock | closed => rfl
  | piece hdata => exact absurd (List.append_eq_nil_iff.mp hrest.symm).1 hdata

/-- **One pass over an open connection.**  The loop of reads ends with the line
complete if the end was read, and has the whole message then. -/
theorem read_reads (hline : IsCommandLine line) (hopen : Open ending line rest p)
    (h : Reads rest calls left closed) :
    (p.read calls).2 = ending.reached left closed ∧
      ((p.read calls).2 = true → (p.read calls).1.bytes = ending.message line) ∧
      ((p.read calls).2 = false → Open ending line left (p.read calls).1) := by
  have hroom := hopen.length_lt hline
  induction h generalizing p with
  | none rest =>
    have hread : p.read [] = (p, false) := by
      rw [PendingCommand.read, beq_eq_false_iff_ne.mpr (Nat.ne_of_lt hroom)]
    rw [hread]
    exact ⟨hopen.unread.symm, nofun, fun _ => hopen⟩
  | @wouldBlock rest error hblock calls =>
    have hread : p.read (.error error :: calls) = (p, false) := by
      rw [PendingCommand.read, if_neg (Nat.ne_of_lt hroom), hblock]
      rfl
    rw [hread]
    exact ⟨hopen.unread.symm, nofun, fun _ => hopen⟩
  | closed calls =>
    have hread : p.read (.ok [] :: calls) = (p, true) := by
      rw [PendingCommand.read, if_neg (Nat.ne_of_lt hroom)]
      exact if_pos rfl
    rw [hread]
    cases ending with
    | newline => exact absurd hopen.unread (by decide)
    | endOfStream => exact ⟨rfl, fun _ => (List.append_nil _).symm.trans hopen.bytes, nofun⟩
  | @piece data rest left calls closed hdata hrest ih =>
    have happend := append_bytes hline hopen.bytes
    have hbytes : (p.append data).bytes ++ rest = ending.message line := by
      rw [happend, List.append_assoc]
      exact hopen.bytes
    have hiff := newline_mem_iff hline hbytes
    have hread : p.read (.ok data :: calls) =
        if 0x0A ∈ (p.append data).bytes then (p.append data, true)
        else (p.append data).read calls := by
      rw [PendingCommand.read, if_neg (Nat.ne_of_lt hroom)]
      exact if_neg hdata
    by_cases hend : ending.reached rest false = true
    · rw [hread, if_pos (hiff.mpr hend)]
      cases ending with
      | endOfStream => exact nomatch hend
      | newline =>
        obtain rfl : rest = [] := of_decide_eq_true hend
        obtain rfl := hrest.nil_left
        exact ⟨rfl, fun _ => (List.append_nil _).symm.trans hbytes, nofun⟩
    · rw [hread, if_neg (mt hiff.mp hend)]
      have hopen' : Open ending line rest (p.append data) := ⟨hbytes, Bool.not_eq_true _ ▸ hend⟩
      exact ih hopen' (hopen'.length_lt hline)

end Reading

theorem read_stream (p : PendingCommand) (calls : List (Except IoError (List UInt8))) :
    (p.read calls).1.stream = p.stream ∧ (p.read calls).1.acceptedAt = p.acceptedAt := by
  induction calls generalizing p with
  | nil => exact ⟨rfl, rfl⟩
  | cons call calls ih =>
    unfold PendingCommand.read
    split
    · exact ⟨rfl, rfl⟩
    split
    · exact ⟨rfl, rfl⟩
    split
    · exact ⟨rfl, rfl⟩
    split
    · exact ⟨rfl, rfl⟩
    · exact ih _

namespace ControlSocket

/-! ## A pass is the calls for its lines -/

/-- The call of `handle_command` for a connection: its stream and its line. -/
def handedOver (now : Instant) (calls : SocketCalls) (p : PendingCommand) : Option (Nat × Text) :=
  if COMMAND_TIMEOUT ≤ now - p.acceptedAt then none
  else
    match p.read (calls.reads p.stream) with
    | (_, false) => none
    | (p, true) => some (p.stream, p.line)

def commandLines (now : Instant) (calls : SocketCalls) (pending : List PendingCommand) :
    List (Nat × Text) :=
  pending.filterMap (handedOver now calls)

/-- `handle_command` for one line after the other. -/
def handleAll (now : Instant) (calls : SocketCalls) :
    List (Nat × Text) → ControlSocket → List Session → Processed
  | [], c, sessions => { control := c, sessions := sessions, events := [], answers := [] }
  | (stream, line) :: lines, c, sessions =>
      let first := c.handleCommand now calls stream line sessions
      let rest := handleAll now calls lines first.control first.sessions
      { rest with events := first.events ++ rest.events, answers := first.answers ++ rest.answers }

section Lines

variable {now : Instant} {calls : SocketCalls}

/-- `handle_command` does not look at the connections that wait. -/
theorem handleCommand_frame (c : ControlSocket) (pending : List PendingCommand) (stream : Nat)
    (line : Text) (sessions : List Session) :
    ({ c with pending := pending } : ControlSocket).handleCommand now calls stream line sessions =
      { c.handleCommand now calls stream line sessions with
        control := { (c.handleCommand now calls stream line sessions).control with
          pending := pending } } := by
  unfold ControlSocket.handleCommand
  cases readCommand stream line with
  | watch =>
    dsimp only
    split <;> rfl
  | status | reload | disconnect | invalid => rfl

/-- What a pass does is to call `handle_command` for the lines that are complete,
in the order of acceptance, and to keep the connections that wait. -/
theorem serve_eq (pending : List PendingCommand) (c : ControlSocket) (sessions : List Session) :
    serve now calls pending c sessions =
      handleAll now calls (commandLines now calls pending)
        { c with pending := c.pending ++ unserved now calls pending } sessions := by
  induction pending generalizing c sessions with
  | nil =>
    unfold serve unserved commandLines
    rw [List.filterMap_nil, List.filterMap_nil, List.append_nil]
    rfl
  | cons p pending ih =>
    unfold serve unserved commandLines
    by_cases hlate : COMMAND_TIMEOUT ≤ now - p.acceptedAt
    · have hwaits : waits now calls p = none := if_pos hlate
      have hnone : handedOver now calls p = none := if_pos hlate
      rw [if_pos hlate, List.filterMap_cons_none hwaits, List.filterMap_cons_none hnone]
      exact ih c sessions
    rw [if_neg hlate]
    rcases hread : p.read (calls.reads p.stream) with ⟨q, complete⟩
    cases complete with
    | false =>
      have hwaits : waits now calls p = some q := by rw [waits, if_neg hlate, hread]
      have hnone : handedOver now calls p = none := by rw [handedOver, if_neg hlate, hread]
      rw [List.filterMap_cons_some hwaits, List.filterMap_cons_none hnone, List.append_cons]
      exact ih _ sessions
    | true =>
      have hwaits : waits now calls p = none := by rw [waits, if_neg hlate, hread]
      have hsome : handedOver now calls p = some (q.stream, q.line) := by
        rw [handedOver, if_neg hlate, hread]
      rw [List.filterMap_cons_none hwaits, List.filterMap_cons_some hsome, handleAll]
      dsimp only
      rw [handleCommand_frame c (c.pending ++ pending.filterMap (waits now calls)), ih,
        handleCommand_pending]
      rfl

theorem handleAll_frame (lines : List (Nat × Text)) (c : ControlSocket)
    (pending : List PendingCommand) (sessions : List Session) :
    handleAll now calls lines { c with pending := pending } sessions =
      { handleAll now calls lines c sessions with
        control := { (handleAll now calls lines c sessions).control with pending := pending } } := by
  induction lines generalizing c sessions with
  | nil => rfl
  | cons line lines ih =>
    rw [handleAll, handleAll]
    dsimp only
    rw [handleCommand_frame c pending, ih]

/-- The connections whose line is complete make the same calls without the others. -/
theorem commandLines_filter (pending : List PendingCommand) :
    commandLines now calls (pending.filter fun p => (handedOver now calls p).isSome) =
      commandLines now calls pending := by
  unfold commandLines
  rw [List.filterMap_filter]
  refine List.filterMap_congr fun p _ => ?_
  cases handedOver now calls p <;> rfl

theorem stream_handedOver {p : PendingCommand} {line : Nat × Text}
    (h : handedOver now calls p = some line) : line.1 = p.stream := by
  have hstream := (read_stream p (calls.reads p.stream)).1
  unfold handedOver at h
  split at h
  · exact nomatch h
  split at h
  · exact nomatch h
  · rename_i q hread
    rw [hread] at hstream
    rw [← Option.some.inj h]
    exact hstream

theorem stream_waits {p q : PendingCommand} (h : waits now calls p = some q) :
    q.stream = p.stream := by
  have hstream := (read_stream p (calls.reads p.stream)).1
  unfold waits at h
  split at h
  · exact nomatch h
  split at h
  · rename_i q' hread
    rw [hread] at hstream
    rw [← Option.some.inj h]
    exact hstream
  · exact nomatch h

/-- What keeps the key can be filtered by it before or after. -/
theorem filter_filterMap_key {α β : Type} {f : α → Option β} {key : α → Nat} {key' : β → Nat}
    (hf : ∀ a b, f a = some b → key' b = key a) (s : Nat) (l : List α) :
    (l.filterMap f).filter (key' · == s) = (l.filter (key · == s)).filterMap f := by
  rw [List.filter_filterMap, List.filterMap_filter]
  refine List.filterMap_congr fun a _ => ?_
  cases ha : f a with
  | none => exact (ite_self _).symm
  | some b =>
    rw [Option.filter_some, hf a b ha]

/-- One connection among the calls of a pass. -/
theorem filter_commandLines (s : Nat) (pending : List PendingCommand) :
    (commandLines now calls pending).filter (·.1 == s) =
      commandLines now calls (pending.filter (·.stream == s)) :=
  filter_filterMap_key (fun _ _ h => stream_handedOver h) s pending

theorem filter_unserved (s : Nat) (pending : List PendingCommand) :
    (unserved now calls pending).filter (·.stream == s) =
      unserved now calls (pending.filter (·.stream == s)) :=
  filter_filterMap_key (fun _ _ h => stream_waits h) s pending

end Lines

/-! ## Accepting -/

theorem acceptAll_append {now : Instant} {front : List (Except IoError Nat)}
    {pending waiting : List PendingCommand} (h : acceptAll now front pending = .ok waiting)
    (back : List (Except IoError Nat)) :
    acceptAll now (front ++ back) pending = acceptAll now back waiting := by
  induction front generalizing pending with
  | nil =>
    obtain rfl := Except.ok.inj h
    rfl
  | cons arrival front ih =>
    cases arrival with
    | error error => exact nomatch h
    | ok stream => exact ih h

/-- Connections are added at the end, as long as there is room for them. -/
theorem acceptAll_extends {now : Instant} {arrivals : List (Except IoError Nat)}
    {pending accepted : List PendingCommand} (h : acceptAll now arrivals pending = .ok accepted) :
    ∃ more, accepted = pending ++ more ∧ (∀ p ∈ more, .ok p.stream ∈ arrivals) ∧
      (pending.length ≤ PENDING_COMMANDS → accepted.length ≤ PENDING_COMMANDS) := by
  induction arrivals generalizing pending with
  | nil =>
    obtain rfl := Except.ok.inj h
    exact ⟨[], (List.append_nil _).symm, nofun, id⟩
  | cons arrival arrivals ih =>
    cases arrival with
    | error error => exact nomatch h
    | ok stream =>
      rw [acceptAll] at h
      split at h
      · rename_i hroom
        obtain ⟨more, rfl, hmore, hlength⟩ := ih h
        refine ⟨.accept now stream :: more, List.append_assoc .., ?_, fun _ => hlength ?_⟩
        · exact List.forall_mem_cons.mpr
            ⟨List.mem_cons_self, fun p hp => List.mem_cons_of_mem _ (hmore p hp)⟩
        · rw [List.length_append, List.length_singleton]
          omega
      · obtain ⟨more, haccepted, hmore, hlength⟩ := ih h
        exact ⟨more, haccepted, fun p hp => List.mem_cons_of_mem _ (hmore p hp), hlength⟩

theorem filter_acceptAll {now : Instant} {arrivals : List (Except IoError Nat)}
    {pending accepted : List PendingCommand} {s : Nat}
    (h : acceptAll now arrivals pending = .ok accepted) (hs : .ok s ∉ arrivals) :
    accepted.filter (·.stream == s) = pending.filter (·.stream == s) := by
  obtain ⟨more, rfl, hmore, -⟩ := acceptAll_extends h
  rw [List.filter_append]
  refine (congrArg _ (List.filter_eq_nil_iff.mpr fun p hp heq => hs ?_)).trans (List.append_nil _)
  exact beq_iff_eq.mp heq ▸ hmore p hp

theorem length_unserved_le (now : Instant) (calls : SocketCalls) (pending : List PendingCommand) :
    (unserved now calls pending).length ≤ pending.length :=
  List.length_filterMap_le ..

end ControlSocket

/-! ## Passes -/

/-- What a pass finds: the time, the connections that came, the outcomes of its
calls, and the sessions. -/
structure Pass where
  now : Instant
  arrivals : List (Except IoError Nat)
  calls : SocketCalls
  sessions : List Session

open ControlSocket

/-- Passes of `process`, with the calls of `handle_command` they made.  What the
control thread does between two passes leaves the connections that wait. -/
inductive CommandRun : List Pass → ControlSocket → List (Nat × Text) → ControlSocket → Prop
  | nil (c : ControlSocket) : CommandRun [] c [] c
  | pass {pass : Pass} {passes : List Pass} {c c' c'' : ControlSocket} {r : Processed}
      {accepted : List PendingCommand} {lines : List (Nat × Text)}
      (haccept : acceptAll pass.now pass.arrivals c.pending = .ok accepted)
      (hprocess : c.process pass.now pass.arrivals pass.calls pass.sessions = .ok r)
      (hbetween : c'.pending = r.control.pending) (hrest : CommandRun passes c' lines c'') :
      CommandRun (pass :: passes) c (commandLines pass.now pass.calls accepted ++ lines) c''

/-- A connection over passes, from the time it was accepted: what it sends is
read within three seconds, up to the end or not.  After that it is not read any
more. -/
inductive Arrives (s : Nat) (since : Instant) (ending : Ending) :
    List UInt8 → List Pass → Bool → Prop
  | unread (rest : List UInt8) : Arrives s since ending rest [] false
  | waits {rest left : List UInt8} {pass : Pass} {passes : List Pass} {closed complete : Bool}
      (htime : pass.now - since < COMMAND_TIMEOUT)
      (hreads : Reads rest (pass.calls.reads s) left closed)
      (hopen : ending.reached left closed = false)
      (hrest : Arrives s since ending left passes complete) :
      Arrives s since ending rest (pass :: passes) complete
  | ends {rest left : List UInt8} {pass : Pass} (passes : List Pass) {closed : Bool}
      (htime : pass.now - since < COMMAND_TIMEOUT)
      (hreads : Reads rest (pass.calls.reads s) left closed)
      (hend : ending.reached left closed = true) :
      Arrives s since ending rest (pass :: passes) true

section Runs

variable {ending : Ending} {line : Text} {s : Nat}

/-- The line of a connection that has the whole message. -/
theorem line_of_message {p : PendingCommand} (h : p.bytes = ending.message line) :
    p.line = Text.trim line := by
  rw [PendingCommand.line, h]
  cases ending with
  | newline =>
    have hbytes : Ending.newline.message line =
        (line ++ ['\n']).flatMap String.utf8EncodeChar := by
      rw [List.flatMap_append]
      rfl
    rw [hbytes, fromUtf8Lossy_encode, trim_newline]
  | endOfStream => rw [Ending.message, fromUtf8Lossy_encode]

/-- **A pass and one connection.**  The line is handed over if and only if the end
was read in the pass; else the connection waits with what came. -/
theorem pass_open (hline : IsCommandLine line) {now : Instant} {calls : SocketCalls}
    {accepted : List PendingCommand} {p : PendingCommand} {rest left : List UInt8} {closed : Bool}
    (haccepted : accepted.filter (·.stream == s) = [p]) (hopen : Open ending line rest p)
    (htime : now - p.acceptedAt < COMMAND_TIMEOUT) (hreads : Reads rest (calls.reads s) left closed) :
    (ending.reached left closed = true →
        (commandLines now calls accepted).filter (·.1 == s) = [(s, Text.trim line)] ∧
        (unserved now calls accepted).filter (·.stream == s) = []) ∧
      (ending.reached left closed = false →
        (commandLines now calls accepted).filter (·.1 == s) = [] ∧
        ∃ q, (unserved now calls accepted).filter (·.stream == s) = [q] ∧
          Open ending line left q ∧ q.acceptedAt = p.acceptedAt) := by
  have hmem : p ∈ accepted.filter (·.stream == s) := haccepted ▸ List.mem_singleton_self p
  have hstream : p.stream = s := beq_iff_eq.mp (List.mem_filter.mp hmem).2
  obtain ⟨hcomplete, hdone, hwaits⟩ := read_reads hline hopen hreads
  obtain ⟨hsame, hsince⟩ := read_stream p (calls.reads s)
  rw [filter_commandLines, filter_unserved, haccepted]
  rcases hread : p.read (calls.reads s) with ⟨q, complete⟩
  rw [hread] at hcomplete hdone hwaits hsame hsince
  dsimp only at hcomplete hdone hwaits hsame hsince
  rw [← hcomplete]
  unfold commandLines unserved
  constructor
  · rintro rfl
    have hsome : handedOver now calls p = some (q.stream, q.line) := by
      rw [handedOver, if_neg (Nat.not_le.mpr htime), hstream, hread]
    have hnone : waits now calls p = none := by
      rw [waits, if_neg (Nat.not_le.mpr htime), hstream, hread]
    rw [List.filterMap_cons_some hsome, List.filterMap_cons_none hnone, hsame, hstream,
      line_of_message (hdone rfl)]
    exact ⟨rfl, rfl⟩
  · rintro rfl
    have hnone : handedOver now calls p = none := by
      rw [handedOver, if_neg (Nat.not_le.mpr htime), hstream, hread]
    have hsome : waits now calls p = some q := by
      rw [waits, if_neg (Nat.not_le.mpr htime), hstream, hread]
    rw [List.filterMap_cons_none hnone, List.filterMap_cons_some hsome]
    exact ⟨rfl, q, rfl, hwaits rfl, hsince⟩

/-- What a pass leaves waiting, of those it accepted. -/
theorem pending_of_process {pass : Pass} {c : ControlSocket} {r : Processed}
    {accepted : List PendingCommand}
    (haccept : acceptAll pass.now pass.arrivals c.pending = .ok accepted)
    (hprocess : c.process pass.now pass.arrivals pass.calls pass.sessions = .ok r) :
    r.control.pending = unserved pass.now pass.calls accepted := by
  obtain ⟨accepted', haccept', hunserved⟩ := process_pending hprocess
  obtain rfl := Except.ok.inj (haccept.symm.trans haccept')
  exact hunserved

/-- A connection that does not wait any more is not heard of again. -/
theorem gone_of_run {passes : List Pass} {c c' : ControlSocket} {lines : List (Nat × Text)}
    (h : CommandRun passes c lines c') (hgone : c.pending.filter (·.stream == s) = [])
    (hfresh : ∀ pass ∈ passes, .ok s ∉ pass.arrivals) : lines.filter (·.1 == s) = [] := by
  induction h with
  | nil => rfl
  | pass haccept hprocess hbetween hrest ih =>
    obtain ⟨hnow, hlater⟩ := List.forall_mem_cons.mp hfresh
    have haccepted := (filter_acceptAll haccept hnow).trans hgone
    rw [pending_of_process haccept hprocess] at hbetween
    rw [List.filter_append, filter_commandLines, haccepted, ih ?_ hlater]
    · rfl
    · rw [hbetween, filter_unserved, haccepted]
      rfl

section Step

variable {since : Instant} {pass : Pass} {passes : List Pass} {complete : Bool}
  {c c' : ControlSocket} {lines : List (Nat × Text)} {accepted : List PendingCommand}
  {p : PendingCommand} {rest : List UInt8}

/-- The lines of one connection, from a pass on in which it waits. -/
theorem run_step_lines (hline : IsCommandLine line)
    (haccepted : accepted.filter (·.stream == s) = [p])
    (hopen : Open ending line rest p) (hsince : p.acceptedAt = since)
    (hpending : c.pending = unserved pass.now pass.calls accepted)
    (hrest : CommandRun passes c lines c') (hfresh : ∀ pass ∈ passes, .ok s ∉ pass.arrivals)
    (hsent : Arrives s since ending rest (pass :: passes) complete)
    (ih : ∀ {left q}, c.pending.filter (·.stream == s) = [q] → Open ending line left q →
      q.acceptedAt = since → Arrives s since ending left passes complete →
      lines.filter (·.1 == s) = if complete then [(s, Text.trim line)] else []) :
    (commandLines pass.now pass.calls accepted ++ lines).filter (·.1 == s) =
      if complete then [(s, Text.trim line)] else [] := by
  rw [List.filter_append]
  cases hsent with
  | waits htime hreads hleft hsent =>
    rw [← hsince] at htime
    obtain ⟨hnone, q, hq, hopen', hsince'⟩ :=
      (pass_open hline haccepted hopen htime hreads).2 hleft
    rw [← hpending] at hq
    rw [hnone, List.nil_append]
    exact ih hq hopen' (hsince'.trans hsince) hsent
  | ends _ htime hreads hend =>
    rw [← hsince] at htime
    obtain ⟨hline', hgone⟩ := (pass_open hline haccepted hopen htime hreads).1 hend
    rw [← hpending] at hgone
    rw [hline', gone_of_run hrest hgone hfresh]
    rfl

theorem run_open_lines (hline : IsCommandLine line) (h : CommandRun passes c lines c')
    (hpending : c.pending.filter (·.stream == s) = [p]) (hopen : Open ending line rest p)
    (hsince : p.acceptedAt = since) (hfresh : ∀ pass ∈ passes, .ok s ∉ pass.arrivals)
    (hsent : Arrives s since ending rest passes complete) :
    lines.filter (·.1 == s) = if complete then [(s, Text.trim line)] else [] := by
  induction h generalizing p rest with
  | nil =>
    cases hsent
    rfl
  | pass haccept hprocess hbetween hrest ih =>
    obtain ⟨hnow, hlater⟩ := List.forall_mem_cons.mp hfresh
    have haccepted := (filter_acceptAll haccept hnow).trans hpending
    rw [pending_of_process haccept hprocess] at hbetween
    exact run_step_lines hline haccepted hopen hsince hbetween hrest hlater hsent
      fun hq hopen' hsince' hsent' => ih hq hopen' hsince' hlater hsent'

end Step

/-- The connection is accepted: it waits, with nothing read. -/
theorem filter_accepted {now : Instant} {front back : List (Except IoError Nat)}
    {pending waiting accepted : List PendingCommand}
    (hwaiting : acceptAll now front pending = .ok waiting)
    (hroom : waiting.length < PENDING_COMMANDS)
    (haccept : acceptAll now (front ++ .ok s :: back) pending = .ok accepted)
    (hnew : pending.filter (·.stream == s) = []) (hfront : .ok s ∉ front) (hback : .ok s ∉ back) :
    accepted.filter (·.stream == s) = [.accept now s] := by
  rw [acceptAll_append hwaiting, acceptAll, if_pos hroom] at haccept
  rw [filter_acceptAll haccept hback, List.filter_append, filter_acceptAll hwaiting hfront, hnew]
  simp [PendingCommand.accept]

theorem open_accept (now : Instant) :
    Open ending line (ending.message line) (.accept now s) := by
  refine ⟨List.nil_append _, ?_⟩
  cases ending with
  | newline => exact decide_eq_false (List.append_ne_nil_of_right_ne_nil _ (List.cons_ne_nil _ _))
  | endOfStream => rfl

/-- The connection `s` comes in the first of the passes, while fewer than 64 wait;
no other connection is `s`. -/
structure ComesAlone (s : Nat) (c : ControlSocket) (first : Pass) (later : List Pass) : Prop where
  accepted : ∃ front back waiting, first.arrivals = front ++ .ok s :: back ∧
    acceptAll first.now front c.pending = .ok waiting ∧ waiting.length < PENDING_COMMANDS ∧
    .ok s ∉ front ∧ .ok s ∉ back
  new : ∀ p ∈ c.pending, p.stream ≠ s
  later : ∀ pass ∈ later, .ok s ∉ pass.arrivals

theorem lines_of_run (hline : IsCommandLine line) {c c' : ControlSocket} {first : Pass}
    {later : List Pass} {lines : List (Nat × Text)} {complete : Bool}
    (hcomes : ComesAlone s c first later) (h : CommandRun (first :: later) c lines c')
    (hsent : Arrives s first.now ending (ending.message line) (first :: later) complete) :
    lines.filter (·.1 == s) = if complete then [(s, Text.trim line)] else [] := by
  obtain ⟨front, back, waiting, harrivals, hwaiting, hroom, hfront, hback⟩ := hcomes.accepted
  have hnew : c.pending.filter (·.stream == s) = [] :=
    List.filter_eq_nil_iff.mpr fun p hp heq => hcomes.new p hp (beq_iff_eq.mp heq)
  cases h with
  | pass haccept hprocess hbetween hrest =>
    rw [pending_of_process haccept hprocess] at hbetween
    rw [harrivals] at haccept
    have haccepted := filter_accepted hwaiting hroom haccept hnew hfront hback
    exact run_step_lines hline haccepted (open_accept first.now) rfl hbetween hrest hcomes.later hsent
      fun hq hopen hsince hsent' => run_open_lines hline hrest hq hopen hsince hcomes.later hsent'

theorem length_pending_le {passes : List Pass} {c c' : ControlSocket} {lines : List (Nat × Text)}
    (h : CommandRun passes c lines c') (hroom : c.pending.length ≤ PENDING_COMMANDS) :
    c'.pending.length ≤ PENDING_COMMANDS := by
  induction h with
  | nil => exact hroom
  | @pass pass passes c c' _ r accepted _ haccept hprocess hbetween _ ih =>
    obtain ⟨_, _, _, hlength⟩ := acceptAll_extends haccept
    rw [pending_of_process haccept hprocess] at hbetween
    refine ih ?_
    rw [hbetween]
    exact (length_unserved_le pass.now pass.calls accepted).trans (hlength hroom)

end Runs

/-- **Commands however they are cut.**  A line is handed over once, trimmed, in the
pass in which its end was read, whatever the other connections do; a pass is the
calls of `handle_command` for the lines, and does the same without the connections
that are not complete; and never more than 64 wait. -/
theorem commands_reassembled :
    (∀ (ending : Ending) (line : Text) (s : Nat) (c c' : ControlSocket) (first : Pass)
        (later : List Pass) (lines : List (Nat × Text)) (complete : Bool),
      IsCommandLine line → ComesAlone s c first later → CommandRun (first :: later) c lines c' →
      Arrives s first.now ending (ending.message line) (first :: later) complete →
      lines.filter (·.1 == s) = if complete then [(s, Text.trim line)] else []) ∧
    (∀ (now : Instant) (calls : SocketCalls) (pending : List PendingCommand) (c : ControlSocket)
        (sessions : List Session),
      let r := serve now calls pending c sessions
      let r' := serve now calls (pending.filter fun p => (handedOver now calls p).isSome) c sessions
      r = handleAll now calls (commandLines now calls pending)
          { c with pending := c.pending ++ unserved now calls pending } sessions ∧
        r.sessions = r'.sessions ∧ r.events = r'.events ∧ r.answers = r'.answers ∧
        r.control = { r'.control with pending := r.control.pending }) ∧
    ∀ (passes : List Pass) (c c' : ControlSocket) (lines : List (Nat × Text)),
      CommandRun passes c lines c' → c.pending.length ≤ PENDING_COMMANDS →
      c'.pending.length ≤ PENDING_COMMANDS := by
  refine ⟨fun _ _ _ _ _ _ _ _ _ hline hcomes h hsent => lines_of_run hline hcomes h hsent,
    fun now calls pending c sessions => ?_, fun _ _ _ _ => length_pending_le⟩
  have hframe (waiting : List PendingCommand) :=
    @handleAll_frame now calls (commandLines now calls pending) c waiting sessions
  dsimp only
  refine ⟨serve_eq pending c sessions, ?_⟩
  rw [serve_eq, serve_eq, commandLines_filter, hframe (c.pending ++ unserved now calls pending),
    hframe (c.pending ++ unserved now calls (pending.filter _))]
  exact ⟨rfl, rfl, rfl, rfl⟩

/-- Two connections; the first sends `STATUS` in two pieces, the second nothing. -/
def firstHalf : Pass :=
  { now := 0, arrivals := [.ok 1, .ok 2], sessions := []
    calls := ⟨fun s => if s = 1 then [.ok [0x53, 0x54, 0x41]] else [], fun _ => [], fun _ => []⟩ }

def secondHalf : Pass :=
  { now := 1000, arrivals := [], sessions := []
    calls := ⟨fun s => if s = 1 then [.ok [0x54, 0x55, 0x53, 0x0A]] else [], fun _ => [],
      fun _ => []⟩ }

theorem commands_reassembled_status :
    ∃ lines c', CommandRun [firstHalf, secondHalf] start lines c' ∧
      lines.filter (·.1 == 1) = [(1, "STATUS".toList)] := by
  have hrun : ∃ lines c', CommandRun [firstHalf, secondHalf] start lines c' :=
    ⟨_, _, .pass rfl rfl rfl (.pass rfl rfl rfl (.nil _))⟩
  obtain ⟨lines, c', hrun⟩ := hrun
  have hline : IsCommandLine "STATUS".toList := ⟨by decide, by decide⟩
  have hcomes : ComesAlone 1 start firstHalf [secondHalf] :=
    ⟨⟨[], [.ok 2], [], rfl, rfl, by decide, by simp, by simp⟩, nofun, by simp [secondHalf]⟩
  have hfirst : Reads [0x53, 0x54, 0x41, 0x54, 0x55, 0x53, 0x0A] (firstHalf.calls.reads 1)
      [0x54, 0x55, 0x53, 0x0A] false := @Reads.piece [0x53, 0x54, 0x41] _ _ _ _ (by decide) (.none _)
  have hsecond : Reads [0x54, 0x55, 0x53, 0x0A] (secondHalf.calls.reads 1) [] false :=
    @Reads.piece [0x54, 0x55, 0x53, 0x0A] [] _ _ _ (by decide) (.none _)
  have hsent : Arrives 1 0 .newline (Ending.newline.message "STATUS".toList)
      [firstHalf, secondHalf] true :=
    .waits (by decide) hfirst (by decide) (.ends [] (by decide) hsecond (by decide))
  exact ⟨lines, c', hrun, commands_reassembled.1 .newline "STATUS".toList 1 start c' firstHalf
    [secondHalf] lines true hline hcomes hrun hsent⟩

end AutobricksVpn
