/-
# `AutobricksVpn.Server.Account` — a session as its messages and counters

An account is a session without what only wolfSSL and the writer look at: the
datagrams on their way in and out are no part of it.  The plaintext queue is,
with the counters and the time the client was last active.

`account_drainSessionPlain` says what writing does to an account, by the list
of the messages that were written completely.  The observations are the events
of the server with these put in, and the packets that TUN took
(`observedServer`); without them they are the events again
(`observations_event?`).
-/
import AutobricksVpn.Server.Invariants

namespace AutobricksVpn

/-! ## Accounts -/

structure Account where
  entry : Entry
  lastActivity : Instant
  bytesTx : Nat
  bytesRx : Nat
  packetsTx : Nat
  packetsRx : Nat
  rawTxQueue : Queue (Packet × Instant)

def Session.account (x : Session) : Account :=
  { entry := x.entry, lastActivity := x.lastActivity, bytesTx := x.bytesTx, bytesRx := x.bytesRx,
    packetsTx := x.packetsTx, packetsRx := x.packetsRx, rawTxQueue := x.rawTxQueue }

namespace Account

/-- A message is put on the plaintext queue. -/
def queues (now : Instant) (packet : Packet) (α : Account) : Account :=
  { α with rawTxQueue := α.rawTxQueue.pushIgnore (packet, now) }

/-- Messages are written completely, and `queue` is left. -/
def writes (now : Instant) (packets : List Packet) (queue : Queue (Packet × Instant))
    (α : Account) : Account :=
  { α with
    lastActivity := if packets = [] then α.lastActivity else now
    bytesTx := packets.foldl (fun n packet => saturatingAdd n packet.length) α.bytesTx
    packetsTx := packets.foldl (fun n _ => saturatingAdd n 1) α.packetsTx
    rawTxQueue := queue }

/-- A packet of the client is counted. -/
def counts (packet : Packet) (α : Account) : Account :=
  { α with
    bytesRx := saturatingAdd α.bytesRx packet.length
    packetsRx := saturatingAdd α.packetsRx 1 }

/-- Something was heard of the client. -/
def hears (now : Instant) (α : Account) : Account := { α with lastActivity := now }

end Account

@[simp] theorem account_emit (now : Instant) (sent : List Packet) (x : Session) :
    (x.emit now sent).account = x.account := rfl

@[simp] theorem account_because (reason : DisconnectReason) (x : Session) :
    (x.because reason).account = x.account := rfl

@[simp] theorem account_injectPending (now : Instant) (call : DtlsCall Bool) (x : Session) :
    (injectPending now call x).account = x.account := by
  unfold injectPending
  split
  · rfl
  · dsimp only
    split <;> rfl

/-! ## What is written -/

/-- The messages that are written completely while `drainSessionPlain` works on
the queue. -/
def writtenPlain (now : Instant) : Nat → List WriteCall → Queue (Packet × Instant) → List Packet
  | 0, _, _ => []
  | turns + 1, calls, queue =>
      match queue.tryPeek with
      | .error _ => []
      | .ok (front, left) =>
          if SESSION_PACKET_TTL ≤ now - front.value.2 then writtenPlain now turns calls left
          else
            match (calls.headD .blocked).result with
            | .ok (.complete written) =>
                if written = front.value.1.length then
                  front.value.1 :: writtenPlain now turns calls.tail left
                else writtenPlain now turns calls.tail left
            | _ => []

def Session.plainWritten (now : Instant) (calls : List WriteCall) (x : Session) : List Packet :=
  writtenPlain now (x.rawTxQueue.len + 1) calls x.rawTxQueue

theorem pushIgnore_items {α : Type} {queue : Queue α} {item x : α} :
    x ∈ (queue.pushIgnore item).items → x ∈ queue.items ∨ x = item := by
  intro hx
  exact (List.mem_append.mp ((queue.pushIgnore_sublist item).subset hx)).imp_right
    List.mem_singleton.mp

theorem writes_writes (now : Instant) (packet : Packet) (packets : List Packet)
    (queue queue' : Queue (Packet × Instant)) (α : Account) :
    (α.writes now [packet] queue).writes now packets queue' =
      α.writes now (packet :: packets) queue' := by
  cases packets <;> rfl

/-- What `drainSessionPlain` makes of an account: the messages it writes count,
and nothing new is in the queue, nor in another order. -/
theorem account_drainSessionPlain (now : Instant) :
    ∀ (turns : Nat) (calls : List WriteCall) (x : Session), ∃ queue,
      (drainSessionPlain now turns calls x).1.account =
        x.account.writes now (writtenPlain now turns calls x.rawTxQueue) queue ∧
      queue.items.Sublist x.rawTxQueue.items ∧
      ∀ packet ∈ writtenPlain now turns calls x.rawTxQueue, ∃ t, (packet, t) ∈ x.rawTxQueue.items
  | 0, _, x => ⟨x.rawTxQueue, rfl, List.Sublist.refl _, fun _ h => absurd h List.not_mem_nil⟩
  | turns + 1, calls, x => by
      unfold drainSessionPlain writtenPlain
      cases hpeek : x.rawTxQueue.tryPeek with
      | error _ => exact ⟨x.rawTxQueue, rfl, List.Sublist.refl _, fun _ h => absurd h List.not_mem_nil⟩
      | ok r =>
          obtain ⟨front, left⟩ := r
          obtain ⟨hfront, hpopped, hback⟩ := Queue.tryPeek_ok hpeek
          have hleft : left.items.Sublist x.rawTxQueue.items := by
            rw [hpopped]
            exact List.tail_sublist _
          have hdrop : (front.drop left).items.Sublist x.rawTxQueue.items := by
            rw [hback]
          dsimp only
          split
          · obtain ⟨queue, haccount, hsub, hmem⟩ :=
              account_drainSessionPlain now turns calls { x with rawTxQueue := left }
            refine ⟨queue, haccount, hsub.trans hleft, fun packet hp => ?_⟩
            exact (hmem packet hp).imp fun t ht => hleft.subset ht
          · -- The front is offered to wolfSSL.
            unfold sendTunnelPacket
            dsimp only
            cases (calls.headD .blocked).result with
            | error _ =>
                exact ⟨_, rfl, hdrop, fun _ h => absurd h List.not_mem_nil⟩
            | ok r =>
                cases r with
                | wantRead => exact ⟨_, rfl, hdrop, fun _ h => absurd h List.not_mem_nil⟩
                | wantWrite => exact ⟨_, rfl, hdrop, fun _ h => absurd h List.not_mem_nil⟩
                | complete written =>
                    dsimp only
                    by_cases hlen : written = front.value.1.length
                    · rw [if_pos hlen, if_pos hlen]
                      dsimp only
                      generalize hy : ({ { x with rawTxQueue := left }.emit now
                        (calls.headD .blocked).sent with
                          lastActivity := now
                          bytesTx := saturatingAdd x.bytesTx written
                          packetsTx := saturatingAdd x.packetsTx 1 } : Session) = y
                      have hraw : y.rawTxQueue = left := by rw [← hy]; rfl
                      have hstart : y.account = x.account.writes now [front.value.1] left := by
                        rw [← hy, hlen]
                        rfl
                      obtain ⟨queue, haccount, hsub, hmem⟩ :=
                        account_drainSessionPlain now turns calls.tail y
                      rw [hraw] at haccount hsub hmem
                      refine ⟨queue, ?_, hsub.trans hleft, fun packet hp => ?_⟩
                      · rw [← writes_writes now _ _ left, ← hstart, ← haccount, ← hy]
                        rfl
                      · rcases List.mem_cons.mp hp with rfl | hp
                        · exact ⟨_, hfront⟩
                        · exact (hmem packet hp).imp fun t ht => hleft.subset ht
                    · rw [if_neg hlen, if_neg hlen]
                      dsimp only
                      obtain ⟨queue, haccount, hsub, hmem⟩ := account_drainSessionPlain now turns
                        calls.tail ({ x with rawTxQueue := left }.emit now
                          (calls.headD .blocked).sent)
                      refine ⟨queue, haccount, hsub.trans hleft, fun packet hp => ?_⟩
                      exact (hmem packet hp).imp fun t ht => hleft.subset ht

/-! ## Observations -/

inductive Observation where
  | logged (event : Event)
  | written (serial : Nat) (packet : Packet)
  | delivered (serial : Nat) (packet : Packet)

def Observation.event? : Observation → Option Event
  | .logged event => some event
  | .written _ _ => none
  | .delivered _ _ => none

/-- The session an event is about. -/
def Event.serial? : Event → Option Nat
  | .access (.created serial) => some serial
  | .access (.established entry _) => some entry.serial
  | .access (.received serial _) => some serial
  | .access (.login serial _ _ _ _) => some serial
  | .queued x _ _ => some x.serial
  | .tunWrite x _ => some x.serial
  | .connected x => some x.serial
  | .dropped x => some x.serial
  | .adopted _ => none
  | .reloadReply _ _ => none

def Observation.serial? : Observation → Option Nat
  | .logged event => event.serial?
  | .written serial _ => some serial
  | .delivered serial _ => some serial

/-- What a log says of session `n`. -/
def life (n : Nat) (log : List Observation) : List Observation :=
  log.filter fun o => o.serial? == some n

/-- The events of a run that are about session `n`. -/
def eventsOf (n : Nat) (tr : List Event) : List Event := tr.filter fun event => event.serial? == some n

/-- A packet that was offered to TUN, and whether it was taken. -/
def deliveredBy (calls : Nat → DrainCall) (event : Event) : List Observation :=
  match event with
  | .tunWrite x packet =>
      match (writeTunPacket packet (calls x.serial).tun).1 with
      | .ok _ => [.delivered x.serial packet]
      | .error _ => []
  | _ => []

/-- The events of a drain pass, with what TUN took. -/
def withDeliveries (calls : Nat → DrainCall) (evs : List Event) : List Observation :=
  evs.flatMap fun event => .logged event :: deliveredBy calls event

/-- What is written while every session is drained. -/
def allWritten (now : Instant) (calls : Nat → List WriteCall) (sessions : List Session) :
    List Observation :=
  sessions.flatMap fun x => (x.plainWritten now (calls x.serial)).map (.written x.serial)

/-- What is written while a packet is routed. -/
def routeWritten (cfg : ServerConfig) (now : Instant) (calls : Nat → List WriteCall)
    (packet : Packet) (sessions : List Session) : List Observation :=
  match ipv4Destination packet with
  | none => []
  | some destination =>
      let broadcast := ipv4IsBroadcast destination cfg.networkAddress cfg.networkPrefix
      let multicast := destination.isMulticast
      if (broadcast && cfg.allowBroadcast) || (multicast && cfg.allowMulticast) then
        allWritten now calls
          (sessions.map fun x => if x.authenticated then x.queueSessionPlain now packet else x)
      else if !broadcast && !multicast then
        match unicastIndex destination sessions with
        | some index => allWritten now calls (sessions[index]?.toList.map (·.queueSessionPlain now packet))
        | none => []
      else []

/-- The observations of a step. -/
def observations (cfg : ServerConfig) (s : ServerState) (a : Action) (evs : List Event) :
    List Observation :=
  match a with
  | .decrypt (.drain calls) => withDeliveries calls evs
  | .encrypt (.route calls) =>
      evs.map .logged ++ s.encrypting.toList.flatMap fun packet =>
        routeWritten cfg s.now calls packet s.sessions
  | .encrypt (.flush calls) => evs.map .logged ++ allWritten s.now calls s.sessions
  | _ => evs.map .logged

/-- The server, watched. -/
def observedServer (cfg : ServerConfig) (rules : Rules) :
    Machine ServerState Action Observation :=
  (server cfg rules).observe (observations cfg)

section Observations

variable {cfg : ServerConfig} {rules : Rules} {s : ServerState} {a : Action} {evs : List Event}
  {n : Nat} {log log' : List Observation}

theorem life_append : life n (log ++ log') = life n log ++ life n log' := List.filter_append ..

theorem life_of_about : (∀ o ∈ log, o.serial? = some n) → life n log = log := by
  intro h
  refine List.filter_eq_self.mpr fun o ho => ?_
  rw [h o ho]
  exact beq_self_eq_true _

theorem life_of_other {m : Option Nat} :
    (∀ o ∈ log, o.serial? = m) → m ≠ some n → life n log = [] := by
  intro h hne
  refine List.filter_eq_nil_iff.mpr fun o ho => ?_
  rw [h o ho]
  simpa using hne

/-- The events of a life are the events about the session. -/
theorem life_event? :
    (life n log).filterMap Observation.event? = eventsOf n (log.filterMap Observation.event?) := by
  rw [life, eventsOf, List.filterMap_filter, List.filter_filterMap]
  refine List.filterMap_congr fun o _ => ?_
  cases o with
  | logged event => rfl
  | written | delivered => split <;> rfl

theorem filterMap_logged (evs : List Event) : (evs.map .logged).filterMap Observation.event? = evs := by
  rw [List.filterMap_map]
  exact List.filterMap_some

theorem filterMap_written (packets : List Packet) :
    (packets.map (.written n)).filterMap Observation.event? = [] := by
  refine List.filterMap_eq_nil_iff.mpr fun o ho => ?_
  obtain ⟨packet, -, rfl⟩ := List.mem_map.mp ho
  rfl

theorem allWritten_event? {now : Instant} {calls : Nat → List WriteCall} {sessions : List Session} :
    (allWritten now calls sessions).filterMap Observation.event? = [] := by
  refine List.filterMap_eq_nil_iff.mpr fun o ho => ?_
  obtain ⟨x, -, ho⟩ := List.mem_flatMap.mp ho
  obtain ⟨packet, -, rfl⟩ := List.mem_map.mp ho
  rfl

theorem routeWritten_event? {now : Instant} {calls : Nat → List WriteCall} {packet : Packet}
    {sessions : List Session} :
    (routeWritten cfg now calls packet sessions).filterMap Observation.event? = [] := by
  unfold routeWritten
  split
  · rfl
  · dsimp only
    split
    · exact allWritten_event?
    · split
      · split
        · exact allWritten_event?
        · rfl
      · rfl

/-- Watching adds to the log and takes nothing from it. -/
theorem observations_event? (s : ServerState) (a : Action) (evs : List Event) :
    (observations cfg s a evs).filterMap Observation.event? = evs := by
  unfold observations
  split
  · rename_i calls
    induction evs with
    | nil => rfl
    | cons ev evs ih =>
        have hdelivered : (deliveredBy calls ev).filterMap Observation.event? = [] := by
          unfold deliveredBy
          split
          · split <;> rfl
          · rfl
        rw [withDeliveries] at ih ⊢
        rw [List.flatMap_cons, List.filterMap_append, ih, List.filterMap_cons, hdelivered]
        rfl
  · rename_i calls
    rw [List.filterMap_append, filterMap_logged]
    cases s.encrypting with
    | none => exact List.append_nil _
    | some packet =>
        rw [Option.toList_some, List.flatMap_singleton, routeWritten_event?, List.append_nil]
  · rw [List.filterMap_append, filterMap_logged, allWritten_event?, List.append_nil]
  · exact filterMap_logged evs

/-- Every run of the server can be watched, -/
theorem observed_of_run {rules : Rules} {G : ServerState → Action → Prop} {as : List Action}
    {tr : List Event} (h : (server cfg rules).Run G as tr s) :
    ∃ log, (observedServer cfg rules).Run G as log s ∧ log.filterMap Observation.event? = tr :=
  h.observe observations_event?

/-- and what is watched is a run of the server. -/
theorem run_of_observed {rules : Rules} {G : ServerState → Action → Prop} {as : List Action}
    (h : (observedServer cfg rules).Run G as log s) :
    (server cfg rules).Run G as (log.filterMap Observation.event?) s :=
  h.of_observe observations_event?

end Observations

end AutobricksVpn
