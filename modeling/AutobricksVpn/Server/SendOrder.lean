/-
# `AutobricksVpn.Server.SendOrder` — packets leave in the order they came

`drain_raw_queue` of `src/server/encrypt.rs` and `drain_encrypted_queue` of
`src/server/udp_write.rs` with a clock that is read in every turn and a writer
that is any stateful function (`FnMut`).  Both are `drainQueue` with their own
reading of the writer's answer; with a clock that stands still and a list of
answers they are the functions of `Server.Session` and `Server.Egress`
(`drainSessionPlain_eq`, `drainEncryptedQueue_eq`).

Every call returns and treats the queue as `Conforms` says; along any sequence
of pushes and calls

    sent ++ queued <+ queued at first ++ pushed

so a packet is sent at most once and never overtakes another
(`drains_keep_order`).  Packets are told apart by labels, which the code does
not have: it does the same without them (`run_comap`).
-/
import AutobricksVpn.Base.QueueDrain
import AutobricksVpn.Server.Egress

namespace AutobricksVpn

/-! ## Queues of labelled items -/

namespace Queue

variable {ι κ : Type} (f : ι → κ)

def map (q : Queue ι) : Queue κ :=
  { capacity := q.capacity, items := q.items.map f, closed := q.closed, generation := q.generation
    capacity_pos := q.capacity_pos
    bounded := by rw [List.length_map]; exact q.bounded
    drained := fun h => by rw [q.drained h]; rfl }

@[simp] theorem map_items (q : Queue ι) : (q.map f).items = q.items.map f := rfl

theorem map_dropFront (q : Queue ι) : (q.map f).dropFront = q.dropFront.map f := by
  simp only [map, dropFront, List.map_tail]

theorem map_pushIgnore (q : Queue ι) (x : ι) :
    (q.map f).pushIgnore (f x) = (q.pushIgnore x).map f := by
  unfold pushIgnore push
  by_cases hopen : q.closed = false
  · have hopen' : (q.map f).closed = false := hopen
    by_cases hfull : q.items.length = q.capacity
    · have hfull' : (q.map f).items.length = (q.map f).capacity :=
        (List.length_map f).trans hfull
      rw [dif_pos hopen, dif_pos hopen', dif_pos hfull, dif_pos hfull']
      simp only [map, withItems, notifyChange, List.map_append, List.map_tail, List.map_cons,
        List.map_nil]
    · have hfull' : ¬ (q.map f).items.length = (q.map f).capacity := by
        rw [map_items, List.length_map]
        exact hfull
      rw [dif_pos hopen, dif_pos hopen', dif_neg hfull, dif_neg hfull']
      simp only [map, withItems, notifyChange, List.map_append, List.map_cons, List.map_nil]
  · have hclosed' : ¬ (q.map f).closed = false := hopen
    rw [dif_neg hopen, dif_neg hclosed']

end Queue

namespace SendOrder

open QueueDrain

/-! ## The two loops -/

/-- What the two loops differ in: where an item keeps its bytes and the time it
was enqueued, what an answer of the writer of type `ω` means, and the answer of
a loop that found the queue empty. -/
structure Loop (ι ω ρ : Type) where
  bytes : ι → Packet
  enqueuedAt : ι → Instant
  judge : ι → ω → Fate ρ
  finished : ρ

namespace Loop

variable {ι κ ω ρ σ : Type}

def stale (L : Loop ι ω ρ) (now : Instant) (x : ι) : Bool :=
  SESSION_PACKET_TTL ≤ now - L.enqueuedAt x

def attempt (L : Loop ι ω ρ) (write : Packet → σ → σ × ω) (x : ι) (w : σ) : σ × Fate ρ :=
  match write (L.bytes x) w with
  | (w, answer) => (w, L.judge x answer)

def drain (L : Loop ι ω ρ) (write : Packet → σ → σ × ω) (turns : Nat) (clock : Nat → Instant)
    (w : σ) (queue : Queue ι) : Option (QueueDrain.Report ι Instant ρ σ) :=
  drainQueue L.stale (L.attempt write) L.finished turns clock w queue

/-- The loop on items that carry more than it looks at. -/
def comap (f : ι → κ) (L : Loop κ ω ρ) : Loop ι ω ρ :=
  { bytes := fun x => L.bytes (f x), enqueuedAt := fun x => L.enqueuedAt (f x)
    judge := fun x => L.judge (f x), finished := L.finished }

end Loop

/-- The arms of the `match` of `drain_raw_queue`. -/
def rawFate : SendPacketResult → Fate SendPacketResult
  | .sent => .sent
  | .retry => .refuse .retry
  | .dropPacket => .discard

/-- The arms of the `match` of `drain_encrypted_queue`. -/
def encryptedFate (front : EncryptedDatagram) :
    Except IoError Nat → Fate (Except IoError Bool)
  | .ok written =>
      if written = front.bytes.length then .sent
      else .abandon (.error (IoError.new .writeZero
        s!"partial UDP datagram write: {written}/{front.bytes.length}"))
  | .error error =>
      if error.kind = .wouldBlock then .refuse (.ok true) else .refuse (.error error)

def rawLoop : Loop (Packet × Instant) SendPacketResult SendPacketResult :=
  { bytes := Prod.fst, enqueuedAt := Prod.snd, judge := fun _ => rawFate, finished := .sent }

def encryptedLoop : Loop EncryptedDatagram (Except IoError Nat) (Except IoError Bool) :=
  { bytes := (·.bytes), enqueuedAt := (·.enqueuedAt), judge := encryptedFate
    finished := .ok false }

section

variable {σ : Type}

def drainRawQueue (write : Packet → σ → σ × SendPacketResult) (turns : Nat)
    (clock : Nat → Instant) (w : σ) (queue : Queue (Packet × Instant)) :=
  rawLoop.drain write turns clock w queue

def drainEncryptedQueue (send : Packet → σ → σ × Except IoError Nat) (turns : Nat)
    (clock : Nat → Instant) (w : σ) (queue : Queue EncryptedDatagram) :=
  encryptedLoop.drain send turns clock w queue

end

/-! ## With a clock that stands still -/

/-- The writer of `drain_session_plain`: the session and the outcomes of
wolfSSL still to come. -/
def sessionWrite (now : Instant) (packet : Packet) (w : Session × List WriteCall) :
    (Session × List WriteCall) × SendPacketResult :=
  match sendTunnelPacket now (w.2.headD .blocked) packet w.1 with
  | (x, answer) => ((x, w.2.tail), answer)

/-- The writer of `udp_write`: the answers of the socket still to come. -/
def socketSend (_ : Packet) (calls : List (Except IoError Nat)) :
    List (Except IoError Nat) × Except IoError Nat :=
  (calls.tail, calls.headD sendBlocked)

/-- The write leaves the plaintext queue alone. -/
theorem sendTunnelPacket_rawTxQueue (now : Instant) (call : WriteCall) (packet : Packet)
    (x : Session) (queue : Queue (Packet × Instant)) :
    sendTunnelPacket now call packet { x with rawTxQueue := queue } =
      ({ (sendTunnelPacket now call packet x).1 with rawTxQueue := queue },
        (sendTunnelPacket now call packet x).2) := by
  unfold sendTunnelPacket Session.emit
  cases call.result with
  | error e => rfl
  | ok result =>
      cases result with
      | complete written => dsimp only; split <;> rfl
      | wantRead => rfl
      | wantWrite => rfl

theorem drainSessionPlain_eq (now : Instant) :
    ∀ (turns : Nat) (calls : List WriteCall) (x : Session) (queue : Queue (Packet × Instant)),
      queue.items.length < turns →
      ∃ d, drainRawQueue (sessionWrite now) turns (fun _ => now) (x, calls) queue = some d ∧
        drainSessionPlain now turns calls { x with rawTxQueue := queue } =
          ({ d.writer.1 with rawTxQueue := d.queue }, d.result) := by
  intro turns
  induction turns with
  | zero => intro calls x queue h; exact absurd h (Nat.not_lt_zero _)
  | succ turns ih =>
      intro calls x queue h
      unfold drainRawQueue Loop.drain at ih ⊢
      rw [drainQueue, drainSessionPlain]
      dsimp only
      cases hpeek : queue.tryPeek with
      | error e => exact ⟨_, rfl, rfl⟩
      | ok peeked =>
          obtain ⟨front, left⟩ := peeked
          have hlen : left.items.length < turns := by
            obtain ⟨hmem, rfl, -⟩ := Queue.tryPeek_ok hpeek
            have hpos := List.length_pos_of_mem hmem
            rw [Queue.dropFront_items, List.length_tail]
            omega
          dsimp only
          by_cases hold : SESSION_PACKET_TTL ≤ now - front.value.2
          · have hstale : rawLoop.stale now front.value = true := decide_eq_true hold
            obtain ⟨d, hd, heq⟩ := ih calls x left hlen
            rw [if_pos hold, if_pos hstale, hd]
            exact ⟨_, rfl, heq⟩
          · have hfresh : ¬ rawLoop.stale now front.value = true :=
              fun hs => hold (of_decide_eq_true hs)
            rw [if_neg hold, if_neg hfresh, sendTunnelPacket_rawTxQueue]
            cases hsend : sendTunnelPacket now (calls.headD .blocked) front.value.1 x with
            | mk y answer =>
                have hattempt : rawLoop.attempt (sessionWrite now) front.value (x, calls) =
                    ((y, calls.tail), rawLoop.judge front.value answer) := by
                  unfold Loop.attempt sessionWrite
                  rw [show rawLoop.bytes front.value = front.value.1 from rfl, hsend]
                obtain ⟨d, hd, heq⟩ := ih calls.tail y left hlen
                rw [hattempt]
                cases answer with
                | sent => exact ⟨_, congrArg (Option.map _) hd, heq⟩
                | retry => exact ⟨_, rfl, rfl⟩
                | dropPacket => exact ⟨_, congrArg (Option.map _) hd, heq⟩

theorem drainEncryptedQueue_eq (now : Instant) :
    ∀ (turns : Nat) (calls : List (Except IoError Nat)) (queue : Queue EncryptedDatagram),
      queue.items.length < turns →
      ∃ d, drainEncryptedQueue socketSend turns (fun _ => now) calls queue = some d ∧
        AutobricksVpn.drainEncryptedQueue now turns calls queue = (d.queue, d.result) := by
  intro turns
  induction turns with
  | zero => intro calls queue h; exact absurd h (Nat.not_lt_zero _)
  | succ turns ih =>
      intro calls queue h
      unfold drainEncryptedQueue Loop.drain at ih ⊢
      rw [drainQueue, AutobricksVpn.drainEncryptedQueue]
      cases hpeek : queue.tryPeek with
      | error e => exact ⟨_, rfl, rfl⟩
      | ok peeked =>
          obtain ⟨front, left⟩ := peeked
          have hlen : left.items.length < turns := by
            obtain ⟨hmem, rfl, -⟩ := Queue.tryPeek_ok hpeek
            have hpos := List.length_pos_of_mem hmem
            rw [Queue.dropFront_items, List.length_tail]
            omega
          dsimp only
          by_cases hold : SESSION_PACKET_TTL ≤ now - front.value.enqueuedAt
          · have hstale : encryptedLoop.stale now front.value = true := decide_eq_true hold
            obtain ⟨d, hd, heq⟩ := ih calls left hlen
            rw [if_pos hold, if_pos hstale, hd]
            exact ⟨_, rfl, heq⟩
          · have hfresh : ¬ encryptedLoop.stale now front.value = true :=
              fun hs => hold (of_decide_eq_true hs)
            obtain ⟨d, hd, heq⟩ := ih calls.tail left hlen
            rw [if_neg hold, if_neg hfresh]
            have hattempt : encryptedLoop.attempt socketSend front.value calls =
                (calls.tail, encryptedLoop.judge front.value (calls.headD sendBlocked)) := rfl
            rw [hattempt, show encryptedLoop.judge = encryptedFate from rfl]
            cases calls.headD sendBlocked with
            | ok written =>
                by_cases hw : written = front.value.bytes.length
                · simp only [encryptedFate, hw, if_true]
                  exact ⟨_, congrArg (Option.map _) hd, heq⟩
                · simp only [encryptedFate, hw, if_false]
                  exact ⟨_, rfl, rfl⟩
            | error error =>
                by_cases hw : error.kind = .wouldBlock
                · simp only [encryptedFate, hw, if_true]
                  exact ⟨_, rfl, rfl⟩
                · simp only [encryptedFate, hw, if_false]
                  exact ⟨_, rfl, rfl⟩

/-! ## Sequences of pushes and calls -/

/-- What is done to a queue under the session lock. -/
inductive Op (ι ω σ : Type) where
  | push (x : ι)
  | drain (write : Packet → σ → σ × ω) (clock : Nat → Instant) (w : σ)

section

variable {ι κ ω ρ σ : Type}

def Op.map (f : ι → κ) : Op ι ω σ → Op κ ω σ
  | .push x => .push (f x)
  | .drain write clock w => .drain write clock w

def Op.pushed : Op ι ω σ → List ι
  | .push x => [x]
  | .drain _ _ _ => []

/-- One operation: the queue it leaves, and what it reports as sent. -/
def Op.apply (L : Loop ι ω ρ) (q : Queue ι) : Op ι ω σ → Queue ι × List ι
  | .push x => (q.pushIgnore x, [])
  | .drain write clock w =>
      match L.drain write (q.len + 1) clock w q with
      | some d => (d.queue, d.sent)
      | none => (q, [])

def run (L : Loop ι ω ρ) : List (Op ι ω σ) → Queue ι → Queue ι × List ι
  | [], q => (q, [])
  | op :: ops, q =>
      match op.apply L q with
      | (q, sent) => match run L ops q with
        | (q, sent') => (q, sent ++ sent')

def pushed (ops : List (Op ι ω σ)) : List ι := ops.flatMap Op.pushed

theorem Op.apply_sublist (L : Loop ι ω ρ) (q : Queue ι) (op : Op ι ω σ) :
    ((op.apply L q).2 ++ (op.apply L q).1.items).Sublist (q.items ++ op.pushed) := by
  cases op with
  | push x => exact q.pushIgnore_sublist x
  | drain write clock w =>
      obtain ⟨d, hd, hconf⟩ := @drainQueue_conforms _ _ _ _ L.stale (L.attempt write) L.finished
        (q.len + 1) clock w q (Nat.lt_succ_self _)
      have happly : (Op.drain write clock w).apply L q = (d.queue, d.sent) := by
        rw [Op.apply, Loop.drain, hd]
      rw [happly, Op.pushed, List.append_nil]
      exact hconf.ends.sent_sublist

/-- The run lemma: what was sent, then what is queued, in the order of the
pushes. -/
theorem run_sublist (L : Loop ι ω ρ) :
    ∀ (ops : List (Op ι ω σ)) (q : Queue ι),
      ((run L ops q).2 ++ (run L ops q).1.items).Sublist (q.items ++ pushed ops) := by
  intro ops
  induction ops with
  | nil => intro q; simp [run, pushed]
  | cons op ops ih =>
      intro q
      have hrest := (ih (op.apply L q).1).append_left (op.apply L q).2
      have hop := (Op.apply_sublist L q op).append_right (pushed ops)
      rw [List.append_assoc, List.append_assoc] at hop
      show (((op.apply L q).2 ++ (run L ops (op.apply L q).1).2) ++
        (run L ops (op.apply L q).1).1.items).Sublist (q.items ++ (op.pushed ++ pushed ops))
      rw [List.append_assoc]
      exact hrest.trans hop

/-! ## The same without the labels -/

def mapTurn (f : ι → κ) (t : Turn ι Instant ρ) : Turn κ Instant ρ := ⟨f t.item, t.now, t.fate⟩

def mapReport (f : ι → κ) (d : QueueDrain.Report ι Instant ρ σ) : QueueDrain.Report κ Instant ρ σ :=
  ⟨d.queue.map f, d.turns.map (mapTurn f), d.writer, d.result⟩

theorem sent_mapReport (f : ι → κ) (d : QueueDrain.Report ι Instant ρ σ) :
    (mapReport f d).sent = d.sent.map f := by
  unfold QueueDrain.Report.sent mapReport
  simp only [List.filter_map, List.map_map]
  rfl

theorem tryPeek_map (f : ι → κ) (q : Queue ι) :
    (∃ front left, q.tryPeek = .ok (front, left) ∧
      (q.map f).tryPeek = .ok (⟨f front.value⟩, left.map f) ∧
      (⟨f front.value⟩ : QueueFront κ).drop (left.map f) = (front.drop left).map f) ∨
    ∃ e e', q.tryPeek = .error e ∧ (q.map f).tryPeek = .error e' := by
  rcases q.tryPop_cases with ⟨x, rest, hq, hpop⟩ | ⟨hq, -, hpop⟩ | ⟨hq, -, hpop⟩
  · have hq' : (q.map f).items = f x :: rest.map f := by rw [Queue.map_items, hq]; rfl
    refine .inl ⟨⟨x⟩, q.dropFront, ?_, ?_, ?_⟩
    · rw [Queue.tryPeek, hpop]
    · unfold Queue.tryPeek Queue.tryPop
      rw [hq', Queue.map_dropFront]
      rfl
    · rw [QueueFront.drop_dropFront hq, ← Queue.map_dropFront]
      exact QueueFront.drop_dropFront hq'
  all_goals
    have hq' : (q.map f).items = [] := by rw [Queue.map_items, hq]; rfl
    rcases (q.map f).tryPop_cases with ⟨x, rest, hx, -⟩ | ⟨-, -, hpop'⟩ | ⟨-, -, hpop'⟩
    · rw [hq'] at hx
      cases hx
    all_goals exact .inr ⟨_, _, by rw [Queue.tryPeek, hpop], by rw [Queue.tryPeek, hpop']⟩

theorem drain_comap (f : ι → κ) (L : Loop κ ω ρ) (write : Packet → σ → σ × ω) :
    ∀ (turns : Nat) (clock : Nat → Instant) (w : σ) (q : Queue ι),
      ((L.comap f).drain write turns clock w q).map (mapReport f) =
        L.drain write turns clock w (q.map f) := by
  intro turns
  induction turns with
  | zero => intro clock w q; rfl
  | succ turns ih =>
      intro clock w q
      have hafter : ∀ (t : Turn ι Instant ρ) (clock : Nat → Instant) (w : σ) (q : Queue ι),
          (((L.comap f).drain write turns clock w q).map (.after t)).map (mapReport f) =
            (L.drain write turns clock w (q.map f)).map (.after (mapTurn f t)) := by
        intro t clock w q
        rw [← ih, Option.map_map, Option.map_map]
        rfl
      unfold Loop.drain at hafter ⊢
      rw [drainQueue, drainQueue]
      rcases tryPeek_map f q with ⟨front, left, hpeek, hpeek', hback⟩ | ⟨e, e', hpeek, hpeek'⟩
      · rw [hpeek, hpeek']
        dsimp only
        have hstale : L.stale (clock 0) (⟨f front.value⟩ : QueueFront κ).value =
            (L.comap f).stale (clock 0) front.value := rfl
        have hattempt : L.attempt write (⟨f front.value⟩ : QueueFront κ).value w =
            (L.comap f).attempt write front.value w := rfl
        rw [hstale, hattempt]
        split
        · exact hafter _ _ _ _
        · split
          · exact hafter _ _ _ _
          · exact hafter _ _ _ _
          · rfl
          · rw [hback]
            rfl
      · rw [hpeek, hpeek']
        rfl

/-- A run on labelled items is the run without the labels. -/
theorem run_comap (f : ι → κ) (L : Loop κ ω ρ) :
    ∀ (ops : List (Op ι ω σ)) (q : Queue ι),
      run L (ops.map (Op.map f)) (q.map f) =
        ((run (L.comap f) ops q).1.map f, (run (L.comap f) ops q).2.map f) := by
  intro ops
  induction ops with
  | nil => intro q; rfl
  | cons op ops ih =>
      intro q
      have hop : (op.map f).apply L (q.map f) =
          ((op.apply (L.comap f) q).1.map f, (op.apply (L.comap f) q).2.map f) := by
        cases op with
        | push x => exact congrArg (·, []) (q.map_pushIgnore f x)
        | drain write clock w =>
            have hlen : (q.map f).len = q.len := List.length_map f
            unfold Op.map Op.apply
            dsimp only
            rw [hlen, ← drain_comap]
            cases (L.comap f).drain write (q.len + 1) clock w q with
            | none => rfl
            | some d => exact congrArg (d.queue.map f, ·) (sent_mapReport f d)
      rw [List.map_cons, run, hop]
      dsimp only
      rw [ih]
      simp only [run, List.map_append]

/-! ## How the two loops end -/

/-- A refused packet is the first of those left, and everything before it is
gone. -/
def LeftAt (q : Queue ι) (d : QueueDrain.Report ι Instant ρ σ) (result : ρ) : Prop :=
  ∃ passed x now rest, (∀ t ∈ passed, t.passes = true) ∧
    d.turns = passed ++ [⟨x, now, some (.refuse result)⟩] ∧
    d.queue.items = x :: rest ∧ q.items = passed.map (·.item) ++ d.queue.items

/-- A packet written in part is the last of those gone. -/
def LeftAfter (q : Queue ι) (d : QueueDrain.Report ι Instant ρ σ) (result : ρ) : Prop :=
  ∃ passed x now, (∀ t ∈ passed, t.passes = true) ∧
    d.turns = passed ++ [⟨x, now, some (.abandon result)⟩] ∧
    q.items = passed.map (·.item) ++ x :: d.queue.items

/-- Expired, dropped and written packets are taken off the front; the others
stay as they were. -/
def Removes (q : Queue ι) (d : QueueDrain.Report ι Instant ρ σ) : Prop :=
  q.items = (d.turns.filter (!·.isRefused)).map (·.item) ++ d.queue.items

theorem Loop.drain_conforms (L : Loop ι ω ρ) (write : Packet → σ → σ × ω) {turns : Nat}
    (clock : Nat → Instant) (w : σ) {q : Queue ι} :
    q.items.length < turns →
    ∃ d, L.drain write turns clock w q = some d ∧
      Conforms L.stale (L.attempt write) L.finished clock w q d ∧ Removes q d := by
  intro h
  obtain ⟨d, hd, hconf⟩ := @drainQueue_conforms _ _ _ _ L.stale (L.attempt write) L.finished
    turns clock w q h
  exact ⟨d, hd, hconf, hconf.ends.removed⟩

/-- The last turn of a call that stopped at a packet is an answer of the writer. -/
theorem judge_of_last {L : Loop ι ω ρ} {write : Packet → σ → σ × ω} {clock : Nat → Instant} {w : σ}
    {q : Queue ι} {d : QueueDrain.Report ι Instant ρ σ} {passed : List (Turn ι Instant ρ)} {x : ι}
    {now : Instant} {v : Fate ρ} :
    Conforms L.stale (L.attempt write) L.finished clock w q d →
    d.turns = passed ++ [⟨x, now, some v⟩] → ∃ answer, L.judge x answer = v := by
  intro h hturns
  have hmem : (⟨x, now, some v⟩ : Turn ι Instant ρ) ∈ d.turns := by
    rw [hturns]
    exact List.mem_append_right _ List.mem_cons_self
  obtain ⟨u, hu⟩ := h.answers.fate_mem _ hmem v rfl
  exact ⟨_, hu⟩

end

section

variable {σ : Type} {clock : Nat → Instant} {w : σ}

theorem raw_ends {write : Packet → σ → σ × SendPacketResult} {q : Queue (Packet × Instant)}
    {d : QueueDrain.Report (Packet × Instant) Instant SendPacketResult σ} :
    Conforms rawLoop.stale (rawLoop.attempt write) rawLoop.finished clock w q d →
    d.result = .retry ∧ LeftAt q d .retry ∨ d.result = .sent ∧ d.queue.items = [] := by
  intro h
  cases h.ends with
  | exhausted _ hr _ he => exact .inr ⟨hr, he⟩
  | abandoned _ hturns _ _ =>
      obtain ⟨answer, hanswer⟩ := judge_of_last h hturns
      cases answer <;> cases hanswer
  | refused hp hturns hr hi he =>
      obtain ⟨answer, hanswer⟩ := judge_of_last h hturns
      cases answer <;> cases hanswer
      exact .inl ⟨hr, _, _, _, _, hp, hturns, he, by rw [he, hi]⟩

theorem encrypted_ends {send : Packet → σ → σ × Except IoError Nat} {q : Queue EncryptedDatagram}
    {d : QueueDrain.Report EncryptedDatagram Instant (Except IoError Bool) σ} :
    Conforms encryptedLoop.stale (encryptedLoop.attempt send) encryptedLoop.finished clock w q d →
    d.result = .ok true ∧ LeftAt q d (.ok true) ∨ d.result = .ok false ∧ d.queue.items = [] ∨
      ∃ e, d.result = .error e ∧ (LeftAfter q d (.error e) ∨ LeftAt q d (.error e)) := by
  intro h
  cases h.ends with
  | exhausted _ hr _ he => exact .inr (.inl ⟨hr, he⟩)
  | abandoned hp hturns hr hi =>
      obtain ⟨answer, hanswer⟩ := judge_of_last h hturns
      change encryptedFate _ answer = _ at hanswer
      unfold encryptedFate at hanswer
      split at hanswer
      · split at hanswer <;> cases hanswer
        exact .inr (.inr ⟨_, hr, .inl ⟨_, _, _, hp, hturns, hi⟩⟩)
      · split at hanswer <;> cases hanswer
  | refused hp hturns hr hi he =>
      obtain ⟨answer, hanswer⟩ := judge_of_last h hturns
      change encryptedFate _ answer = _ at hanswer
      unfold encryptedFate at hanswer
      split at hanswer
      · split at hanswer <;> cases hanswer
      · split at hanswer <;> cases hanswer
        · exact .inl ⟨hr, _, _, _, _, hp, hturns, he, by rw [he, hi]⟩
        · exact .inr (.inr ⟨_, hr, .inr ⟨_, _, _, _, hp, hturns, he, by rw [he, hi]⟩⟩)

end

/-! ## Order -/

section

variable {ι ω ρ σ : Type}

/-- What a run reports as sent is a subsequence of what was queued at first and
what was pushed; where the labels are different no label is sent twice; and
labels apart this is the run of the code. -/
structure OnceInOrder (L : Loop ι ω ρ) (ops : List (Op (Nat × ι) ω σ)) (q : Queue (Nat × ι)) :
    Prop where
  order : (run (L.comap Prod.snd) ops q).2.Sublist (q.items ++ pushed ops)
  once : ((q.items ++ pushed ops).map Prod.fst).Nodup →
    ((run (L.comap Prod.snd) ops q).2.map Prod.fst).Nodup
  unlabelled : run L (ops.map (Op.map Prod.snd)) (q.map Prod.snd) =
    ((run (L.comap Prod.snd) ops q).1.map Prod.snd, (run (L.comap Prod.snd) ops q).2.map Prod.snd)

theorem onceInOrder (L : Loop ι ω ρ) (ops : List (Op (Nat × ι) ω σ)) (q : Queue (Nat × ι)) :
    OnceInOrder L ops q := by
  have horder : (run (L.comap Prod.snd) ops q).2.Sublist (q.items ++ pushed ops) :=
    (List.sublist_append_left _ _).trans (run_sublist (L.comap Prod.snd) ops q)
  exact ⟨horder, fun h => h.sublist (horder.map Prod.fst), run_comap Prod.snd L ops q⟩

/-- **Draining keeps the order and never sends again.**  Both loops return for
every queue, clock and writer: they offer the packets younger than
`SESSION_PACKET_TTL` from the front on, take out what expired, was written,
dropped or written in part, and stop at a packet that is refused with the queue
from that packet on.  Over any pushes and calls what is sent is a subsequence
of what was pushed, nothing twice. -/
theorem drains_keep_order :
    (∀ (write : Packet → σ → σ × SendPacketResult) (clock : Nat → Instant) (w : σ)
      (q : Queue (Packet × Instant)) (turns : Nat), q.items.length < turns →
      ∃ d, drainRawQueue write turns clock w q = some d ∧
        Conforms rawLoop.stale (rawLoop.attempt write) rawLoop.finished clock w q d ∧
        Removes q d ∧
        (d.result = .retry ∧ LeftAt q d .retry ∨ d.result = .sent ∧ d.queue.items = [])) ∧
    (∀ (send : Packet → σ → σ × Except IoError Nat) (clock : Nat → Instant) (w : σ)
      (q : Queue EncryptedDatagram) (turns : Nat), q.items.length < turns →
      ∃ d, drainEncryptedQueue send turns clock w q = some d ∧
        Conforms encryptedLoop.stale (encryptedLoop.attempt send) encryptedLoop.finished
          clock w q d ∧
        Removes q d ∧
        (d.result = .ok true ∧ LeftAt q d (.ok true) ∨ d.result = .ok false ∧ d.queue.items = [] ∨
          ∃ e, d.result = .error e ∧ (LeftAfter q d (.error e) ∨ LeftAt q d (.error e)))) ∧
    (∀ (ops : List (Op (Nat × Packet × Instant) SendPacketResult σ))
      (q : Queue (Nat × Packet × Instant)), OnceInOrder rawLoop ops q) ∧
    ∀ (ops : List (Op (Nat × EncryptedDatagram) (Except IoError Nat) σ))
      (q : Queue (Nat × EncryptedDatagram)), OnceInOrder encryptedLoop ops q := by
  refine ⟨?_, ?_, onceInOrder rawLoop, onceInOrder encryptedLoop⟩
  · intro write clock w q turns h
    obtain ⟨d, hd, hconf, hremoves⟩ := rawLoop.drain_conforms write clock w h
    exact ⟨d, hd, hconf, hremoves, raw_ends hconf⟩
  · intro send clock w q turns h
    obtain ⟨d, hd, hconf, hremoves⟩ := encryptedLoop.drain_conforms send clock w h
    exact ⟨d, hd, hconf, hremoves, encrypted_ends hconf⟩

end

/-- Two packets, pushed 2 ns apart. -/
def Sample.waiting : Queue (Packet × Instant) :=
  ((Queue.fresh 4 (Nat.succ_pos 3)).pushIgnore ([69], 0)).pushIgnore ([70], 2)

/-- The answers of wolfSSL still to come. -/
def Sample.answers (_ : Packet) (calls : List SendPacketResult) :
    List SendPacketResult × SendPacketResult :=
  (calls.tail, calls.headD .sent)

/-- Three datagrams, just queued. -/
def Sample.sending : Queue EncryptedDatagram :=
  ([[1], [2, 2], [3]].map fun bytes => ⟨bytes, 0⟩).foldl Queue.pushIgnore
    (Queue.fresh 4 (Nat.succ_pos 3))

/-- The second of two packets is refused, and sent after a third was queued. -/
def Sample.plainOps : List (Op (Nat × Packet × Instant) SendPacketResult (List SendPacketResult)) :=
  [.push (0, [69], 0), .push (1, [69], 0), .drain Sample.answers (fun _ => 1) [.sent, .retry],
    .push (2, [69], 2), .drain Sample.answers (fun _ => 3) [.sent, .sent]]

/-- The socket would block at the second of two datagrams, and takes it later. -/
def Sample.encryptedOps :
    List (Op (Nat × EncryptedDatagram) (Except IoError Nat) (List (Except IoError Nat))) :=
  [.push (0, ⟨[1], 0⟩), .push (1, ⟨[1], 0⟩), .drain socketSend (fun _ => 1) [.ok 1, sendBlocked],
    .drain socketSend (fun _ => 3) [.ok 1]]

/-- The first packet is 2 s old when the clock is read for it; the writer wants
the second later.  The socket takes the second datagram in part only.  Over several drains
each packet is sent once. -/
theorem drains_keep_order_retry :
    (∃ d, drainRawQueue Sample.answers 3 (fun i => Duration.fromSecs 2 + i) [.retry]
        Sample.waiting = some d ∧
      d.turns.map (·.item) = [([69], 0), ([70], 2)] ∧ d.queue.items = [([70], 2)] ∧
      (d.result = .retry ∧ LeftAt Sample.waiting d .retry ∨
        d.result = .sent ∧ d.queue.items = [])) ∧
    (∃ d, drainEncryptedQueue socketSend 4 (fun _ => 1) [.ok 1, .ok 1, .ok 1] Sample.sending =
        some d ∧
      d.queue.items = [⟨[3], 0⟩] ∧
      Conforms encryptedLoop.stale (encryptedLoop.attempt socketSend) encryptedLoop.finished
        (fun _ => 1) [.ok 1, .ok 1, .ok 1] Sample.sending d ∧
      Removes Sample.sending d) ∧
    ((run (rawLoop.comap Prod.snd) Sample.plainOps (Queue.fresh 4 (Nat.succ_pos 3))).2.map
        Prod.fst = [0, 1, 2] ∧
      OnceInOrder rawLoop Sample.plainOps (Queue.fresh 4 (Nat.succ_pos 3))) ∧
    (run (encryptedLoop.comap Prod.snd) Sample.encryptedOps (Queue.fresh 4 (Nat.succ_pos 3))).2.map
        Prod.fst = [0, 1] ∧
      OnceInOrder encryptedLoop Sample.encryptedOps (Queue.fresh 4 (Nat.succ_pos 3)) := by
  obtain ⟨hraw, -, hrawOps, -⟩ := drains_keep_order (σ := List SendPacketResult)
  obtain ⟨-, hencrypted, -, hencryptedOps⟩ := drains_keep_order (σ := List (Except IoError Nat))
  refine ⟨?_, ?_, ⟨by decide +kernel, hrawOps _ _⟩, by decide +kernel, hencryptedOps _ _⟩
  · have hlen : Sample.waiting.items.length < 3 := by decide
    obtain ⟨d, hd, -, -, hends⟩ :=
      hraw Sample.answers (fun i => Duration.fromSecs 2 + i) [.retry] Sample.waiting 3 hlen
    refine ⟨d, hd, ?_, ?_, hends⟩
    · exact congrArg (fun d => d.turns.map (·.item)) (Option.some.inj (hd.symm.trans rfl))
    · exact congrArg (fun d => d.queue.items) (Option.some.inj (hd.symm.trans rfl))
  · have hlen : Sample.sending.items.length < 4 := by decide
    obtain ⟨d, hd, hconforms, hremoves, -⟩ :=
      hencrypted socketSend (fun _ => 1) [.ok 1, .ok 1, .ok 1] Sample.sending 4 hlen
    refine ⟨d, hd, ?_, hconforms, hremoves⟩
    exact congrArg (fun d => d.queue.items) (Option.some.inj (hd.symm.trans rfl))

end SendOrder

end AutobricksVpn
