/-
# `AutobricksVpn.Server.Injection` — ciphertext reaches wolfSSL in order

A datagram of a known peer is given to wolfSSL at once when none waits
(`injectIncoming`), else it waits behind the others; the drain pass offers the
oldest of those that wait (`injectPending`), unless one of its `continue`s
comes first.  Both are the two operations of an `Inbox` whose consumer is
`Dtls::inject`, with `APP_DATA_READY` for "not ready".

A session's life is a sequence of datagrams, drain passes, and things that
leave its waiting datagrams alone (`SessionOp`); the sessions of the server
live so (`run_lives`).  Along any such life the datagrams wolfSSL accepts are
a subsequence of those that arrived (`injection_keeps_order`).
-/
import AutobricksVpn.Lib.Inbox
import AutobricksVpn.Server.Passes
import AutobricksVpn.Server.Invariants

namespace AutobricksVpn

namespace Injection

/-! ## The two ways to wolfSSL -/

/-- What `Dtls::inject` answers. -/
def injectAnswer : Except IoError Bool → Inbox.Answer
  | .ok true => .taken
  | .ok false => .notReady
  | .error _ => .failed

/-- A message does not keep the drain body from its last step: no `continue`
and no failure. -/
def messagePasses (cfg : ServerConfig) (call : DrainCall) (packet : Packet) (x : Session) : Bool :=
  if x.authenticated then
    if isKeepalivePacket packet then false
    else
      match ipv4PacketAddresses packet with
      | none => true
      | some (source, destination) =>
          if source = x.address ∧ destinationAllowed cfg destination = true then
            (writeTunPacket packet call.tun).1.toBool
          else true
  else false

/-- The drain body comes to its last step. -/
def reachesInject (cfg : ServerConfig) (call : DrainCall) (x : Session) : Bool :=
  if !x.established then false
  else if !x.drainPending && x.pendingInject.isEmpty then false
  else
    match call.read.result with
    | .ok (.complete packet) => if packet.isEmpty then true else messagePasses cfg call packet x
    | .ok .wantRead | .ok .wantWrite | .error _ => true

inductive SessionOp where
  | arrive (now : Instant) (call : DtlsCall Bool) (incoming : Packet)
  | drain (cfg : ServerConfig) (rules : Rules) (now : Instant) (call : DrainCall)
  | other (left : Session)

def SessionOp.apply (x : Session) : SessionOp → Session
  | .arrive now call incoming => (injectIncoming now call incoming x).1
  | .drain cfg rules now call => (drainSession cfg rules now call x).session
  | .other left => { left with pendingInject := x.pendingInject }

/-- The calls of `Dtls::inject` that are made, with their results. -/
def SessionOp.injects (x : Session) : SessionOp → List (Packet × Except IoError Bool)
  | .arrive _ call incoming => if x.pendingInject.isEmpty then [(incoming, call.result)] else []
  | .drain cfg _ _ call =>
      if reachesInject cfg call x then
        x.pendingInject.head?.toList.map fun front => (front, call.inject.result)
      else []
  | .other _ => []

def SessionOp.arrival : SessionOp → List Packet
  | .arrive _ _ incoming => [incoming]
  | .drain _ _ _ _ | .other _ => []

def SessionOp.inbox (x : Session) : SessionOp → List (Inbox.Op Packet)
  | .arrive _ call incoming => [.arrive incoming (injectAnswer call.result)]
  | .drain cfg _ _ call =>
      if reachesInject cfg call x then [.offer (injectAnswer call.inject.result)] else []
  | .other _ => []

def runSession : List SessionOp → Session → Session
  | [], x => x
  | op :: ops, x => runSession ops (op.apply x)

def injectCalls : List SessionOp → Session → List (Packet × Except IoError Bool)
  | [], _ => []
  | op :: ops, x => op.injects x ++ injectCalls ops (op.apply x)

def arrivals (ops : List SessionOp) : List Packet := ops.flatMap SessionOp.arrival

def inboxOps : List SessionOp → Session → List (Inbox.Op Packet)
  | [], _ => []
  | op :: ops, x => op.inbox x ++ inboxOps ops (op.apply x)

/-! ## Both are operations of an inbox -/

section Refine

variable {cfg : ServerConfig} {rules : Rules} {now : Instant}

theorem injectPending_waiting (call : DtlsCall Bool) (x : Session) :
    (injectPending now call x).pendingInject =
      (Inbox.offer (injectAnswer call.result) x.pendingInject).1 := by
  unfold injectPending
  split
  · rename_i hnone
    rw [hnone]
    rfl
  · rename_i front waiting hsome
    rw [hsome]
    dsimp only
    rcases call.result with error | (_ | _)
    · rfl
    · exact hsome
    · rfl

theorem injectIncoming_waiting (call : DtlsCall Bool) (incoming : Packet) (x : Session) :
    (injectIncoming now call incoming x).1.pendingInject =
      (Inbox.arrive SESSION_TX_QUEUE_CAPACITY (injectAnswer call.result) incoming
        x.pendingInject).1 := by
  unfold injectIncoming
  cases hwaiting : x.pendingInject with
  | nil =>
      rw [if_neg (by simp)]
      dsimp only
      rcases call.result with error | (_ | _)
      · exact hwaiting
      · exact congrArg (· ++ [incoming]) hwaiting
      · exact hwaiting
  | cons front rest =>
      rw [if_pos (show (!(front :: rest).isEmpty) = true from rfl)]
      by_cases hfull : SESSION_TX_QUEUE_CAPACITY ≤ (front :: rest).length
      · rw [if_pos hfull, Inbox.arrive, if_pos hfull]
        exact hwaiting
      · rw [if_neg hfull, Inbox.arrive, if_neg hfull]

theorem receiveMessage_waiting (call : DrainCall) (packet : Packet) (x : Session) :
    (receiveMessage cfg rules now call packet x).session.pendingInject =
      if messagePasses cfg call packet x then
        (Inbox.offer (injectAnswer call.inject.result) x.pendingInject).1
      else x.pendingInject := by
  unfold receiveMessage messagePasses
  split
  · unfold deliverPacket
    dsimp only
    by_cases hkeepalive : isKeepalivePacket packet = true
    · rw [if_pos hkeepalive, if_pos hkeepalive]
      rfl
    · rw [if_neg hkeepalive, if_neg hkeepalive]
      cases ipv4PacketAddresses packet with
      | none => exact injectPending_waiting call.inject x
      | some addresses =>
          obtain ⟨source, destination⟩ := addresses
          dsimp only
          by_cases hallowed : source = x.address ∧ destinationAllowed cfg destination = true
          · simp only [if_pos hallowed]
            cases (writeTunPacket packet call.tun).1 with
            | ok _ => exact injectPending_waiting call.inject _
            | error _ => rfl
          · simp only [if_neg hallowed]
            exact injectPending_waiting call.inject x
  · split
    · rfl
    · unfold judgeLogin
      dsimp only
      split <;> rfl

theorem drainSession_waiting (call : DrainCall) (x : Session) :
    (drainSession cfg rules now call x).session.pendingInject =
      if reachesInject cfg call x then
        (Inbox.offer (injectAnswer call.inject.result) x.pendingInject).1
      else x.pendingInject := by
  unfold drainSession reachesInject
  split
  · rfl
  · split
    · rfl
    · dsimp only
      rcases call.read.result with error | (packet | _ | _)
      · exact injectPending_waiting call.inject _
      · dsimp only
        split
        · exact injectPending_waiting call.inject _
        · exact receiveMessage_waiting call packet _
      · exact injectPending_waiting call.inject _
      · exact injectPending_waiting call.inject _

end Refine

/-- One operation of the session is these of its inbox. -/
theorem SessionOp.apply_waiting (x : Session) (op : SessionOp) :
    (op.apply x).pendingInject =
      (Inbox.run SESSION_TX_QUEUE_CAPACITY (op.inbox x) x.pendingInject).1 := by
  cases op with
  | arrive now call incoming => exact injectIncoming_waiting call incoming x
  | drain cfg rules now call =>
      unfold SessionOp.apply SessionOp.inbox
      dsimp only
      rw [drainSession_waiting]
      cases reachesInject cfg call x <;> rfl
  | other left => rfl

/-- What was handed over, with the answer. -/
def handed? {ι : Type} : Inbox.Event ι → Option (ι × Inbox.Answer)
  | .handed item answer => some (item, answer)
  | .refused _ _ => none

/-- The calls made are what the inbox hands over. -/
theorem SessionOp.injects_handed (x : Session) (op : SessionOp) :
    (Inbox.run SESSION_TX_QUEUE_CAPACITY (op.inbox x) x.pendingInject).2.filterMap handed? =
      (op.injects x).map fun c => (c.1, injectAnswer c.2) := by
  cases op with
  | arrive now call incoming =>
      unfold SessionOp.inbox SessionOp.injects
      dsimp only
      cases x.pendingInject with
      | nil => rcases call.result with error | (_ | _) <;> rfl
      | cons front rest =>
          simp only [Inbox.run, Inbox.Op.apply, Inbox.arrive]
          split <;> rfl
  | drain cfg rules now call =>
      unfold SessionOp.inbox SessionOp.injects
      dsimp only
      cases reachesInject cfg call x with
      | false => rfl
      | true =>
          cases x.pendingInject with
          | nil => rfl
          | cons front rest => rcases call.inject.result with error | (_ | _) <;> rfl
  | other left => rfl

theorem SessionOp.inbox_arrived (x : Session) (op : SessionOp) :
    Inbox.arrived (op.inbox x) = op.arrival := by
  cases op with
  | arrive now call incoming => rfl
  | drain cfg rules now call =>
      unfold SessionOp.inbox
      dsimp only
      cases reachesInject cfg call x <;> rfl
  | other left => rfl

/-! ## Lives of a session -/

theorem runSession_append : ∀ (ops ops' : List SessionOp) (x : Session),
    runSession (ops ++ ops') x = runSession ops' (runSession ops x)
  | [], _, _ => rfl
  | op :: ops, ops', x => runSession_append ops ops' (op.apply x)

theorem runSession_waiting : ∀ (ops : List SessionOp) (x : Session),
    (runSession ops x).pendingInject =
      (Inbox.run SESSION_TX_QUEUE_CAPACITY (inboxOps ops x) x.pendingInject).1 := by
  intro ops
  induction ops with
  | nil => intro x; rfl
  | cons op ops ih =>
      intro x
      rw [inboxOps, Inbox.run_append, ← op.apply_waiting]
      exact ih (op.apply x)

theorem injectCalls_handed : ∀ (ops : List SessionOp) (x : Session),
    (Inbox.run SESSION_TX_QUEUE_CAPACITY (inboxOps ops x) x.pendingInject).2.filterMap handed? =
      (injectCalls ops x).map fun c => (c.1, injectAnswer c.2) := by
  intro ops
  induction ops with
  | nil => intro x; rfl
  | cons op ops ih =>
      intro x
      rw [inboxOps, Inbox.run_append, ← op.apply_waiting, List.filterMap_append, op.injects_handed,
        ih, injectCalls, List.map_append]

theorem inboxOps_arrived : ∀ (ops : List SessionOp) (x : Session),
    Inbox.arrived (inboxOps ops x) = arrivals ops := by
  intro ops
  induction ops with
  | nil => intro x; rfl
  | cons op ops ih =>
      intro x
      have hop := op.inbox_arrived x
      have hrest := ih (op.apply x)
      unfold Inbox.arrived at hop hrest ⊢
      rw [inboxOps, List.filterMap_append, hop, hrest]
      rfl

theorem session_capacity_pos : 0 < SESSION_TX_QUEUE_CAPACITY := Nat.succ_pos 511

/-- One session continues another: what happened to it in between. -/
def Lives (x y : Session) : Prop := ∃ ops, y = runSession ops x

theorem Lives.refl (x : Session) : Lives x x := ⟨[], rfl⟩

theorem Lives.trans (x y z : Session) : Lives x y → Lives y z → Lives x z := by
  rintro ⟨ops, rfl⟩ ⟨ops', rfl⟩
  exact ⟨ops ++ ops', (runSession_append ops ops' x).symm⟩

theorem Lives.bounded {x y : Session} (h : Lives x y) :
    x.pendingInject.length ≤ SESSION_TX_QUEUE_CAPACITY →
    y.pendingInject.length ≤ SESSION_TX_QUEUE_CAPACITY := by
  intro hx
  obtain ⟨ops, rfl⟩ := h
  rw [runSession_waiting]
  exact Inbox.run_length _ session_capacity_pos _ _ hx

/-- Something that leaves the waiting datagrams alone. -/
theorem lives_of_eq {x y : Session} (h : y.pendingInject = x.pendingInject) : Lives x y := by
  refine ⟨[.other y], ?_⟩
  obtain ⟨⟩ := y
  obtain rfl := h
  rfl

section Lives

variable {cfg : ServerConfig} {rules : Rules} {now : Instant} {s s' : ServerState} {a : Action}
  {evs : List Event}

theorem sendTunnelPacket_waiting (call : WriteCall) (packet : Packet) (x : Session) :
    (sendTunnelPacket now call packet x).1.pendingInject = x.pendingInject := by
  unfold sendTunnelPacket
  split
  · split <;> rfl
  · rfl
  · rfl
  · rfl

theorem drainSessionPlain_waiting : ∀ (turns : Nat) (calls : List WriteCall) (x : Session),
    (drainSessionPlain now turns calls x).1.pendingInject = x.pendingInject
  | 0, _, _ => rfl
  | turns + 1, calls, x => by
      unfold drainSessionPlain
      split
      · rfl
      · rename_i front queue _
        split
        · exact drainSessionPlain_waiting turns calls _
        · have hsend := @sendTunnelPacket_waiting now (calls.headD .blocked) front.value.1
            { x with rawTxQueue := queue }
          split <;> rename_i hs <;> rw [hs] at hsend
          · exact (drainSessionPlain_waiting turns calls.tail _).trans hsend
          · exact hsend
          · exact (drainSessionPlain_waiting turns calls.tail _).trans hsend

theorem udpWriteSession_waiting (calls : List (Except IoError Nat)) (x : Session) :
    (udpWriteSession now calls x).1.pendingInject = x.pendingInject := by
  unfold udpWriteSession
  split <;> rfl

theorem retransmit_waiting {calls : Nat → RetransmitCall} {x y : Session} :
    retransmit now calls x = some y → y.pendingInject = x.pendingInject := by
  intro h
  unfold retransmit at h
  split at h
  · split at h
    · cases h
    · obtain rfl := Option.some.inj h
      rfl
  · obtain rfl := Option.some.inj h
    rfl

theorem drainPlain_lives (calls : List WriteCall) (x : Session) :
    Lives x (x.drainPlain now calls) :=
  lives_of_eq (drainSessionPlain_waiting _ calls x)

theorem decryptStep_lives {a : DecryptAction} :
    decryptStep cfg s a = some (s', evs) →
    ∀ y ∈ s'.sessions, (∃ x ∈ s.sessions, Lives x y) ∨ y.pendingInject = [] := by
  intro h y hy
  cases decryptStep_cases h with
  | idle ha => cases ha
  | removed ha => cases ha
  | moved | adopted => exact .inl ⟨y, hy, .refl y⟩
  | drained =>
      exact .inl (related_drainSessions Lives.refl (fun call x => ⟨[.drain cfg s.rules s.now call], rfl⟩)
        _ _ y hy)
  | deduplicated =>
      exact .inl ⟨y, (Vec.keepLast_sublist _ _).subset hy, .refl y⟩
  | admission _ _ hr =>
      rw [hr] at hy
      rcases mem_admitPeer y hy with hy | rfl
      · exact .inl ⟨y, hy, .refl y⟩
      · exact .inr rfl
  | processed _ hr =>
      rw [hr] at hy
      exact .inl (related_processDatagram Lives.refl Lives.trans (fun _ _ => lives_of_eq rfl)
        (fun _ _ => lives_of_eq rfl) (fun _ _ _ => lives_of_eq rfl) (fun _ _ => lives_of_eq rfl)
        (fun _ _ => lives_of_eq rfl) (fun call incoming x => ⟨[.arrive s.now call incoming], rfl⟩)
        y hy)

theorem encryptStep_lives {a : EncryptAction} :
    encryptStep cfg s a = some (s', evs) → Related Lives s.sessions s'.sessions := by
  intro h
  cases a with
  | take =>
      simp only [encryptStep] at h
      split at h
      · obtain ⟨rfl, -⟩ := Prod.mk.inj (Option.some.inj h)
        exact related_of_subset Lives.refl (List.Subset.refl _)
      · cases h
  | route calls =>
      simp only [encryptStep] at h
      split at h
      · obtain ⟨rfl, -⟩ := Prod.mk.inj (Option.some.inj h)
        exact related_routePacket Lives.refl Lives.trans (fun _ _ => lives_of_eq rfl)
          drainPlain_lives calls _ s.sessions
      · cases h
  | flush calls =>
      simp only [encryptStep] at h
      split at h
      · obtain ⟨rfl, -⟩ := Prod.mk.inj (Option.some.inj h)
        exact related_flushPending drainPlain_lives calls s.sessions
      · cases h

theorem controlStep_lives {a : ControlAction} :
    controlStep cfg s a = some (s', evs) → Related Lives s.sessions s'.sessions := by
  intro h
  have hsame : ∀ {t : ServerState}, t.sessions = s.sessions → Related Lives s.sessions t.sessions :=
    fun ht => ht ▸ related_of_subset Lives.refl (List.Subset.refl _)
  cases a with
  | pass commands calls =>
      simp only [controlStep] at h
      split at h
      · obtain ⟨rfl, -⟩ := Prod.mk.inj (Option.some.inj h)
        exact related_controlPass Lives.refl Lives.trans
          (fun _ _ _ hxy => lives_of_eq (retransmit_waiting hxy)) commands calls s.sessions
      · cases h
  | purge =>
      simp only [controlStep] at h
      split at h
      · obtain ⟨rfl, -⟩ := Prod.mk.inj (Option.some.inj h)
        exact related_of_subset Lives.refl List.filter_sublist.subset
      · cases h
  | decide reload =>
      simp only [controlStep] at h
      split at h
      · split at h
        · split at h <;> obtain ⟨rfl, -⟩ := Prod.mk.inj (Option.some.inj h) <;> exact hsame rfl
        · obtain ⟨rfl, -⟩ := Prod.mk.inj (Option.some.inj h)
          exact hsame rfl
      · cases h
  | send =>
      simp only [controlStep] at h
      split at h
      · obtain ⟨rfl, -⟩ := Prod.mk.inj (Option.some.inj h)
        exact hsame rfl
      · split at h <;> obtain ⟨rfl, -⟩ := Prod.mk.inj (Option.some.inj h) <;> exact hsame rfl
      · cases h
  | respond answered =>
      simp only [controlStep] at h
      split at h
      · split at h
        · cases h
        · obtain ⟨rfl, -⟩ := Prod.mk.inj (Option.some.inj h)
          exact hsame rfl
      · cases h
  | fail =>
      simp only [controlStep] at h
      split at h
      · obtain ⟨rfl, -⟩ := Prod.mk.inj (Option.some.inj h)
        exact hsame rfl
      · cases h

/-- Every session lives on, or it is new. -/
theorem step_lives :
    step cfg s a = some (s', evs) →
    ∀ y ∈ s'.sessions, (∃ x ∈ s.sessions, Lives x y) ∨ y.pendingInject = [] := by
  intro h y hy
  cases a with
  | control a => exact .inl (controlStep_lives h y hy)
  | decrypt a => exact decryptStep_lives h y hy
  | encrypt a => exact .inl (encryptStep_lives h y hy)
  | tick | deactivate | shutdown | tunReadFailed | udpReceived | tunReceived =>
      obtain ⟨rfl, -⟩ := Prod.mk.inj (Option.some.inj h)
      exact .inl ⟨y, hy, .refl y⟩
  | udpWrite calls =>
      simp only [step] at h
      split at h
      · obtain ⟨rfl, -⟩ := Prod.mk.inj (Option.some.inj h)
        exact .inl (related_udpWritePass (fun calls x => lives_of_eq (udpWriteSession_waiting calls x))
          calls s.sessions y hy)
      · cases h

/-- The run lemma: every session lived a life that began with nothing waiting. -/
theorem run_lives {as : List Action} {tr : List Event} (h : (server cfg rules).Run Machine.Free as tr s) :
    ∀ y ∈ s.sessions, ∃ x, x.pendingInject = [] ∧ Lives x y := by
  refine Machine.Run.invariant (M := server cfg rules)
    (fun _ s => ∀ y ∈ s.sessions, ∃ x, x.pendingInject = [] ∧ Lives x y) ?_ ?_ h
  · intro y hy
    exact absurd hy List.not_mem_nil
  · intro tr s a s' evs hlives _ hstep y hy
    rcases step_lives hstep y hy with ⟨x, hx, hxy⟩ | hnew
    · obtain ⟨x₀, hx₀, hlife⟩ := hlives x hx
      exact ⟨x₀, hx₀, hlife.trans _ _ _ hxy⟩
    · exact ⟨y, hnew, .refl y⟩

end Lives

/-! ## Order -/

/-- The datagrams that wait or arrive, numbered from the oldest on. -/
def arrived (x : Session) (ops : List SessionOp) : List (Packet × Nat) :=
  (x.pendingInject ++ arrivals ops).zipIdx

/-- The life of a session on numbered datagrams: those that wait in the end,
and what was handed over or refused. -/
def numbered (x : Session) (ops : List SessionOp) :
    List (Packet × Nat) × List (Inbox.Event (Packet × Nat)) :=
  Inbox.run SESSION_TX_QUEUE_CAPACITY (Inbox.number x.pendingInject.length (inboxOps ops x))
    x.pendingInject.zipIdx

/-- What `ops` do to the datagrams of `x`.  Numbers apart, the waiting datagrams
and the calls of `Dtls::inject` are those of the session. -/
structure KeepsArrivalOrder (x : Session) (ops : List SessionOp) : Prop where
  waiting : (numbered x ops).1.map Prod.fst = (runSession ops x).pendingInject
  calls : ((numbered x ops).2.map (Inbox.Event.map Prod.fst)).filterMap handed? =
    (injectCalls ops x).map fun c => (c.1, injectAnswer c.2)
  order : (Inbox.taken (numbered x ops).2).Sublist (arrived x ops)
  once : ((Inbox.taken (numbered x ops).2).map Prod.snd).Pairwise (· < ·)
  accounted : (Inbox.taken (numbered x ops).2 ++ Inbox.failed (numbered x ops).2 ++
    Inbox.refused (numbered x ops).2 ++ (numbered x ops).1).Perm (arrived x ops)
  full : ∀ d n, .refused d n ∈ (numbered x ops).2 → SESSION_TX_QUEUE_CAPACITY ≤ n
  bounded : (runSession ops x).pendingInject.length ≤ SESSION_TX_QUEUE_CAPACITY

theorem numbered_map (x : Session) (ops : List SessionOp) :
    ((numbered x ops).1.map Prod.fst, (numbered x ops).2.map (Inbox.Event.map Prod.fst)) =
      Inbox.run SESSION_TX_QUEUE_CAPACITY (inboxOps ops x) x.pendingInject := by
  have hrun := Inbox.run_map Prod.fst SESSION_TX_QUEUE_CAPACITY
    (Inbox.number x.pendingInject.length (inboxOps ops x)) x.pendingInject.zipIdx
  rw [Inbox.number_map, List.zipIdx_map_fst] at hrun
  exact hrun.symm

theorem arrived_eq (x : Session) (ops : List SessionOp) :
    arrived x ops = x.pendingInject.zipIdx ++
      Inbox.arrived (Inbox.number x.pendingInject.length (inboxOps ops x)) := by
  rw [Inbox.arrived_number, inboxOps_arrived, arrived, List.zipIdx_append, Nat.zero_add]

theorem keepsArrivalOrder (x : Session) (ops : List SessionOp)
    (h : x.pendingInject.length ≤ SESSION_TX_QUEUE_CAPACITY) : KeepsArrivalOrder x ops := by
  have hmap := Prod.mk.inj ((numbered_map x ops).trans (Prod.mk.eta).symm)
  have horder : (Inbox.taken (numbered x ops).2).Sublist (arrived x ops) := by
    rw [arrived_eq]
    exact (List.sublist_append_left _ _).trans (Inbox.run_sublist SESSION_TX_QUEUE_CAPACITY _ _)
  refine ⟨hmap.1.trans (runSession_waiting ops x).symm, ?_, horder, ?_, ?_, ?_,
    Lives.bounded ⟨ops, rfl⟩ h⟩
  · rw [hmap.2]
    exact injectCalls_handed ops x
  · have hnumbers : ((arrived x ops).map Prod.snd).Pairwise (· < ·) := by
      rw [arrived, List.zipIdx_map_snd]
      exact List.pairwise_lt_range'
    exact hnumbers.sublist (horder.map Prod.snd)
  · rw [arrived_eq]
    exact Inbox.run_perm SESSION_TX_QUEUE_CAPACITY _ _
  · exact Inbox.run_refused SESSION_TX_QUEUE_CAPACITY _ _

/-- **Ciphertext keeps its order.**  Whatever arrives for a session of a running
server, whatever wolfSSL answers, and wherever the drain pass is cut short: the
datagrams wolfSSL accepts are a subsequence of those that arrived, none twice;
one is passed over only after an error on it, or because the capacity was
waiting already; and more than the capacity never wait. -/
theorem injection_keeps_order {cfg : ServerConfig} {rules : Rules} {as : List Action}
    {tr : List Event} {s : ServerState} (h : (server cfg rules).Run Machine.Free as tr s) :
    ∀ x ∈ s.sessions, x.pendingInject.length ≤ SESSION_TX_QUEUE_CAPACITY ∧
      ∀ ops, KeepsArrivalOrder x ops := by
  intro x hx
  obtain ⟨x₀, hnone, hlife⟩ := run_lives h x hx
  have hbound : x.pendingInject.length ≤ SESSION_TX_QUEUE_CAPACITY := by
    refine hlife.bounded ?_
    rw [hnone]
    exact Nat.zero_le _
  exact ⟨hbound, fun ops => keepsArrivalOrder x ops hbound⟩

/-- wolfSSL is not ready for the first of two datagrams, and takes it in the
drain pass that follows. -/
def Sample.crowded : List SessionOp :=
  [.arrive 0 ⟨.ok false, []⟩ [1], .arrive 0 ⟨.ok true, []⟩ [2],
    .drain Sample.config (Sample.rules none) 0 (Sample.silent 0)]

theorem injection_keeps_order_crowded :
    (∀ x ∈ (Sample.outcome none (Sample.turn Sample.silent 1 true)).1.sessions,
      KeepsArrivalOrder x Sample.crowded) ∧
    (Sample.outcome none (Sample.turn Sample.silent 1 true)).1.sessions.map
      (fun x => (x.established, (runSession Sample.crowded x).pendingInject)) =
      [(true, [[2]])] :=
  ⟨fun x hx => (injection_keeps_order (run_sample (by decide +kernel)) x hx).2 Sample.crowded,
    by decide +kernel⟩

end Injection

end AutobricksVpn
