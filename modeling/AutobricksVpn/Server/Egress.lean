/-
# `AutobricksVpn.Server.Egress` — the encrypt worker and the UDP writer

The two workers that carry packets from the server's TUN device to the clients.
The encrypt worker routes a packet to the authenticated sessions it is meant
for (`routePacket` of `src/server/encrypt.rs`) and lets wolfSSL work on the
plaintext queues; the UDP writer sends the encrypted datagrams and removes the
sessions whose send fails (`udpWritePass` of `src/server/udp_write.rs`).

A packet goes to authenticated sessions only (`routePacket_queued`).  Neither
worker gives a session anything it did not have: the encrypt worker leaves
every entry alone, the writer only removes sessions (`Shrinks`).
-/
import AutobricksVpn.Server.Drain

namespace AutobricksVpn

/-! ## The encrypt worker -/

/-- `flush_pending`, with the outcomes of the writes for each session. -/
def flushPending (now : Instant) (calls : Nat → List WriteCall) (sessions : List Session) :
    List Session :=
  sessions.map fun x => x.drainPlain now (calls x.serial)

/-- The session a unicast packet goes to: `max_by_key` answers the last of the
authenticated sessions of the address with the latest activity. -/
def unicastIndex (destination : Ipv4Addr) (sessions : List Session) : Option Nat :=
  Vec.lastMaxIdx (fun x => x.authenticated && x.address == destination) (·.lastActivity) sessions

/-- What the encrypt worker does with one packet from TUN. -/
def routePacket (cfg : ServerConfig) (now : Instant) (calls : Nat → List WriteCall)
    (packet : Packet) (sessions : List Session) : List Session × List Event :=
  match ipv4Destination packet with
  | none => (sessions, [])
  | some destination =>
      let broadcast := ipv4IsBroadcast destination cfg.networkAddress cfg.networkPrefix
      let multicast := destination.isMulticast
      if (broadcast && cfg.allowBroadcast) || (multicast && cfg.allowMulticast) then
        (flushPending now calls
            (sessions.map fun x => if x.authenticated then x.queueSessionPlain now packet else x),
          (sessions.filter (·.authenticated)).map fun x => .queued x packet .tunnel)
      else if !broadcast && !multicast then
        match unicastIndex destination sessions with
        | some index =>
            (sessions.modify index fun x =>
                (x.queueSessionPlain now packet).drainPlain now (calls x.serial),
              sessions[index]?.toList.map fun x => .queued x packet .tunnel)
        | none => (sessions, [])
      else (sessions, [])

/-! ## The UDP writer -/

/-- The answer of the socket taken when the outcomes given are used up. -/
def sendBlocked : Except IoError Nat := .error (IoError.new .wouldBlock "")

/-- `drain_encrypted_queue`: whether the socket blocked, or the error. -/
def drainEncryptedQueue (now : Instant) :
    Nat → List (Except IoError Nat) → Queue EncryptedDatagram →
      Queue EncryptedDatagram × Except IoError Bool
  | 0, _, queue => (queue, .ok false)
  | turns + 1, calls, queue =>
      match queue.tryPeek with
      | .error _ => (queue, .ok false)
      | .ok (front, left) =>
          if SESSION_PACKET_TTL ≤ now - front.value.enqueuedAt then
            drainEncryptedQueue now turns calls left
          else
            match calls.headD sendBlocked with
            | .ok written =>
                if written = front.value.bytes.length then
                  drainEncryptedQueue now turns calls.tail left
                else
                  (left, .error (IoError.new .writeZero
                    s!"partial UDP datagram write: {written}/{front.value.bytes.length}"))
            | .error error =>
                if error.kind = .wouldBlock then (front.drop left, .ok true)
                else (front.drop left, .error error)

/-- One session of a pass: the session, and whether it is to be removed. -/
def udpWriteSession (now : Instant) (calls : List (Except IoError Nat)) (x : Session) :
    Session × Bool :=
  match drainEncryptedQueue now (x.encTxQueue.len + 1) calls x.encTxQueue with
  | (queue, .ok _) => ({ x with encTxQueue := queue }, false)
  | (queue, .error _) => ({ x with encTxQueue := queue }.because .udpWriteError, true)

/-- A pass: the indices of the failed sessions are recorded going up and
removed going down. -/
def udpWritePass (now : Instant) (calls : Nat → List (Except IoError Nat))
    (sessions : List Session) : List Session × List Event :=
  let drained := sessions.map fun x => udpWriteSession now (calls x.serial) x
  let remove := (drained.zipIdx.filter (·.1.2)).map Prod.snd
  (Vec.swapRemoveAll (drained.map Prod.fst) remove.reverse,
    dropAll ((drained.filter (·.2)).map Prod.fst).reverse)

/-! ## What the workers leave alone -/

/-- The result of a step that only removes sessions. -/
structure Shrinks (sessions : List Session) (r : List Session × List Event) : Prop where
  entries : (r.1.map Session.entry).Subperm (sessions.map Session.entry)
  dropped : ∃ removed, r.2 = dropAll removed

theorem map_modify_of_eq {α β : Type} {g : α → β} {f : α → α} (h : ∀ x, g (f x) = g x) :
    ∀ (l : List α) (i : Nat), (l.modify i f).map g = l.map g := by
  intro l
  induction l with
  | nil => intro i; simp
  | cons x l ih =>
      intro i
      cases i with
      | zero => simp [h]
      | succ i => simp [ih i]

theorem entries_flushPending (now : Instant) (calls : Nat → List WriteCall)
    (sessions : List Session) :
    (flushPending now calls sessions).map Session.entry = sessions.map Session.entry := by
  simp [flushPending, Function.comp_def]

theorem entries_routePacket (cfg : ServerConfig) (now : Instant) (calls : Nat → List WriteCall)
    (packet : Packet) (sessions : List Session) :
    (routePacket cfg now calls packet sessions).1.map Session.entry =
      sessions.map Session.entry := by
  unfold routePacket
  split
  · rfl
  · dsimp only
    split
    · rw [entries_flushPending, List.map_map]
      refine List.map_congr_left fun x _ => ?_
      dsimp only [Function.comp_def]
      split <;> rfl
    · split
      · split
        · exact map_modify_of_eq (fun x => by simp) _ _
        · rfl
      · rfl

/-- A packet from TUN is queued to authenticated sessions of the list only, and
only if it is an IPv4 packet. -/
theorem routePacket_queued {cfg : ServerConfig} {now : Instant} {calls : Nat → List WriteCall}
    {packet : Packet} {sessions : List Session} :
    ∀ ev ∈ (routePacket cfg now calls packet sessions).2,
      (ipv4PacketAddresses packet).isSome = true ∧
      ∃ x ∈ sessions, x.authenticated = true ∧ ev = .queued x packet .tunnel := by
  intro ev hev
  unfold routePacket at hev
  split at hev
  · exact absurd hev List.not_mem_nil
  · rename_i destination hdestination
    obtain ⟨source, haddresses⟩ := ipv4Destination_some hdestination
    refine ⟨Option.isSome_iff_exists.mpr ⟨_, haddresses⟩, ?_⟩
    dsimp only at hev
    split at hev
    · obtain ⟨x, hx, rfl⟩ := List.mem_map.mp hev
      obtain ⟨hx, hauth⟩ := List.mem_filter.mp hx
      exact ⟨x, hx, hauth, rfl⟩
    · split at hev
      · split at hev
        · rename_i index hidx
          obtain ⟨x, hx, hp⟩ := Vec.lastMaxIdx_some hidx
          simp only [hx, Option.toList_some, List.map_cons, List.map_nil, List.mem_singleton] at hev
          simp only [Bool.and_eq_true] at hp
          exact ⟨x, List.mem_of_getElem? hx, hp.1, hev⟩
        · exact absurd hev List.not_mem_nil
      · exact absurd hev List.not_mem_nil

theorem entry_udpWriteSession (now : Instant) (calls : List (Except IoError Nat)) (x : Session) :
    (udpWriteSession now calls x).1.entry = x.entry := by
  unfold udpWriteSession
  split <;> rfl

theorem entries_udpWrite (now : Instant) (calls : Nat → List (Except IoError Nat))
    (sessions : List Session) :
    ((sessions.map fun x => udpWriteSession now (calls x.serial) x).map Prod.fst).map
      Session.entry = sessions.map Session.entry := by
  simp [Function.comp_def, entry_udpWriteSession]

/-- A pass in which no send fails keeps the entries where they are. -/
theorem entries_udpWritePass {now : Instant} {calls : Nat → List (Except IoError Nat)}
    {sessions : List Session} :
    (∀ x ∈ sessions, (udpWriteSession now (calls x.serial) x).2 = false) →
    (udpWritePass now calls sessions).1.map Session.entry = sessions.map Session.entry := by
  intro hok
  have hnone : (sessions.map fun x => udpWriteSession now (calls x.serial) x).zipIdx.filter
      (·.1.2) = [] := by
    refine List.filter_eq_nil_iff.mpr fun r hr => ?_
    obtain ⟨x, hx, hr⟩ := List.mem_map.mp (List.fst_mem_of_mem_zipIdx hr)
    rw [← hr, hok x hx]
    exact Bool.false_ne_true
  unfold udpWritePass
  dsimp only
  rw [hnone]
  exact entries_udpWrite now calls sessions

theorem udpWritePass_shrinks (now : Instant) (calls : Nat → List (Except IoError Nat))
    (sessions : List Session) : Shrinks sessions (udpWritePass now calls sessions) := by
  refine ⟨?_, _, rfl⟩
  rw [← entries_udpWrite now calls sessions]
  exact Vec.subperm_map (Vec.swapRemoveAll_subperm _ _)

end AutobricksVpn
