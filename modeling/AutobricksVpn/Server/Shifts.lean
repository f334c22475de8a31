/-
# `AutobricksVpn.Server.Shifts` — every action, as shifts of single sessions

The passes of the workers taken apart.  A pass that removes sessions logs each
of them once and leaves the accounts of the others alone (`Sheds`); a pass that
lets wolfSSL work, the drain pass and the routing of a packet change one
account after the other; a datagram makes a session, establishes one, or drops
some.  Together every action is a sequence of shifts (`step_shifts`), so what
single sessions keep holds in every run of the observed server (`Run.living`).
-/
import AutobricksVpn.Server.Life

namespace AutobricksVpn

/-! ## The accounts of a list -/

section Accounts

variable {sessions sessions' : List Session}

theorem accountsOf_append :
    accountsOf (sessions ++ sessions') = accountsOf sessions + accountsOf sessions' := by
  simp [accountsOf]

theorem accountsOf_cons {x : Session} :
    accountsOf (x :: sessions) = x.account ::ₘ accountsOf sessions := rfl

theorem accountsOf_perm : sessions.Perm sessions' → accountsOf sessions = accountsOf sessions' :=
  fun h => Multiset.coe_eq_coe.mpr (h.map _)

theorem accountsOf_map {f : Session → Session} :
    (∀ x, (f x).account = x.account) → accountsOf (sessions.map f) = accountsOf sessions := by
  intro h
  simp [accountsOf, Function.comp_def, h]

theorem accountsOf_erase {index : Nat} (h : index < sessions.length) :
    accountsOf sessions = sessions[index].account ::ₘ accountsOf (sessions.eraseIdx index) :=
  accountsOf_perm (List.getElem_cons_eraseIdx_perm h).symm

theorem accountsOf_set {index : Nat} (h : index < sessions.length) (x : Session) :
    accountsOf (sessions.set index x) = x.account ::ₘ accountsOf (sessions.eraseIdx index) :=
  accountsOf_perm (List.set_perm_cons_eraseIdx h x)

end Accounts

/-! ## Passes that remove sessions -/

/-- Each session that is gone is logged, and the accounts of the others stay. -/
def Sheds (sessions : List Session) (r : List Session × List Event) : Prop :=
  ∃ removed, r.2 = dropAll removed ∧ accountsOf sessions = accountsOf r.1 + accountsOf removed

section Removals

variable {cfg : ServerConfig} {s : ServerState} {a : Action} {n : Nat} {sessions : List Session}

theorem Sheds.refl : Sheds sessions (sessions, []) := ⟨[], rfl, (Multiset.add_zero _).symm⟩

theorem Sheds.trans {r r' : List Session × List Event} :
    Sheds sessions r → Sheds r.1 r' → Sheds sessions (r'.1, r.2 ++ r'.2) := by
  rintro ⟨removed, hr, hacc⟩ ⟨removed', hr', hacc'⟩
  refine ⟨removed ++ removed', ?_, ?_⟩
  · rw [hr, hr', dropAll, dropAll, dropAll, List.map_append]
  · rw [hacc, hacc', accountsOf_append, Multiset.add_assoc, Multiset.add_comm (accountsOf removed')]

theorem sheds_of_perm {kept removed : List Session} {mark : Session → Session} :
    (kept ++ removed).Perm sessions → (∀ x, (mark x).account = x.account) →
    Sheds sessions (kept, dropAll (removed.map mark)) := by
  intro hperm hmark
  refine ⟨removed.map mark, rfl, ?_⟩
  rw [accountsOf_map hmark, ← accountsOf_perm hperm, accountsOf_append]

theorem retainMut_sheds {keep : Session → Bool} {mark : Session → Session} :
    (∀ x, (mark x).account = x.account) → Sheds sessions (retainMut keep mark sessions) :=
  sheds_of_perm (List.filter_append_perm keep sessions)

theorem handleCommands_sheds :
    ∀ (commands : List Command) (sessions : List Session),
      Sheds sessions (handleCommands commands sessions) := by
  intro commands
  induction commands with
  | nil => exact fun _ => .refl
  | cons command commands ih =>
      intro sessions
      have hfirst : Sheds sessions (handleCommand sessions command) := by
        cases command with
        | disconnect address => exact retainMut_sheds (account_because _)
        | watch | status | reload | invalid => exact .refl
      exact hfirst.trans (ih _)

theorem account_retransmit {now : Instant} {calls : Nat → RetransmitCall} {x y : Session} :
    retransmit now calls x = some y → y.account = x.account := by
  intro h
  unfold retransmit at h
  split at h
  · split at h
    · cases h
    · rw [← Option.some.inj h]
      rfl
  · rw [← Option.some.inj h]

theorem retransmitAll_sheds {now : Instant} {calls : Nat → RetransmitCall} :
    Sheds sessions (retransmitAll now calls sessions) := by
  refine ⟨_, rfl, ?_⟩
  unfold retransmitAll
  rw [accountsOf_map (account_because _), accountsOf_perm (Vec.removeLoop_kept _ _),
    accountsOf_perm (Vec.removeLoop_removed _ _)]
  induction sessions with
  | nil => rfl
  | cons x xs ih =>
      cases hx : retransmit now calls x with
      | none =>
          rw [List.filterMap_cons_none hx, List.filter_cons_of_pos (by simp [hx]), accountsOf_cons,
            accountsOf_cons, Multiset.add_cons, ih]
      | some y =>
          rw [List.filterMap_cons_some hx, List.filter_cons_of_neg (by simp [hx]), accountsOf_cons,
            accountsOf_cons, Multiset.cons_add, ih, account_retransmit hx]

theorem account_markExpired {now : Instant} (x : Session) :
    (markExpired cfg now x).account = x.account := by
  unfold markExpired
  split
  · rfl
  · split <;> rfl

theorem controlPass_sheds {now : Instant} {commands : List Command}
    {calls : Nat → RetransmitCall} :
    Sheds sessions (controlPass cfg now commands calls sessions) :=
  ((handleCommands_sheds commands sessions).trans retransmitAll_sheds).trans
    (retainMut_sheds account_markExpired)

theorem reloadPurge_sheds {logins : AList fun _ : Ipv4Addr => String × String} {rules : Rules} :
    Sheds sessions (reloadPurge logins rules sessions) := by
  refine retainMut_sheds fun x => ?_
  split <;> rfl

theorem deduplicate_sheds : Sheds sessions (deduplicate sessions) :=
  sheds_of_perm (Vec.keepLast_perm _ _) (account_because _)

theorem account_udpWriteSession {now : Instant} {calls : List (Except IoError Nat)} {x : Session} :
    (udpWriteSession now calls x).1.account = x.account := by
  unfold udpWriteSession
  split <;> rfl

theorem udpWritePass_sheds {now : Instant} {calls : Nat → List (Except IoError Nat)} :
    Sheds sessions (udpWritePass now calls sessions) := by
  generalize hdrained : sessions.map (fun x => udpWriteSession now (calls x.serial) x) = drained
  have haccounts : accountsOf sessions = accountsOf (drained.map Prod.fst) := by
    rw [← hdrained]
    simp [accountsOf, Function.comp_def, account_udpWriteSession]
  obtain ⟨rest, hrest, hperm⟩ := Vec.swapRemoveAll_marked Prod.fst Prod.snd drained []
  simp only [List.nil_append, List.length_nil] at hrest
  refine ⟨_, rfl, ?_⟩
  unfold udpWritePass
  dsimp only
  rw [hdrained, hrest, haccounts, accountsOf_perm hperm, accountsOf_perm (List.reverse_perm _),
    ← accountsOf_append, ← List.map_append]
  refine accountsOf_perm (List.Perm.map _ ?_)
  exact ((List.filter_append_perm Prod.snd drained).symm).trans List.perm_append_comm

/-- The sessions of a list leave one after the other. -/
theorem leaves {rest : Multiset Account} :
    ∀ removed : List Session,
      Shifts cfg s a ⟨accountsOf removed + rest, n⟩ ⟨rest, n⟩ ((dropAll removed).map .logged) := by
  intro removed
  induction removed with
  | nil =>
      rw [show accountsOf [] + rest = rest from Multiset.zero_add rest]
      exact .refl _
  | cons x removed ih =>
      have hx : Shift cfg s a ⟨x.account ::ₘ (accountsOf removed + rest), n⟩
          ⟨accountsOf removed + rest, n⟩ [.logged (.dropped x)] := .leave .dropped
      rw [accountsOf_cons, Multiset.cons_add]
      exact .head hx ih

theorem Sheds.shifts {r : List Session × List Event} :
    Sheds sessions r →
    Shifts cfg s a ⟨accountsOf sessions, n⟩ ⟨accountsOf r.1, n⟩ (r.2.map .logged) := by
  rintro ⟨removed, hr, hacc⟩
  rw [hr, hacc, Multiset.add_comm]
  exact leaves removed

end Removals

/-! ## Passes in which each session takes its turn -/

/-- One session goes on by itself. -/
def Turn (cfg : ServerConfig) (s : ServerState) (a : Action) (x y : Session)
    (log : List Observation) : Prop :=
  ∀ rest n, Shifts cfg s a ⟨x.account ::ₘ rest, n⟩ ⟨y.account ::ₘ rest, n⟩ log

section Turns

variable {cfg : ServerConfig} {s : ServerState} {a : Action} {n : Nat} {x y : Session}

theorem Turn.of_account : y.account = x.account → Turn cfg s a x y [] := by
  intro h rest n
  rw [h]
  exact .refl _

theorem Turn.of_change {log : List Observation} :
    Change cfg s.rules s.now x.account y.account log → Turn cfg s a x y log :=
  fun h _ _ => .single (.change h)

theorem Turn.trans {z : Session} {log log' : List Observation} :
    Turn cfg s a x y log → Turn cfg s a y z log' → Turn cfg s a x z (log ++ log') :=
  fun h h' rest n => (h rest n).trans (h' rest n)

theorem turns_map {f : Session → Session} {log : Session → List Observation} :
    ∀ sessions : List Session, (∀ x ∈ sessions, Turn cfg s a x (f x) (log x)) → ∀ rest,
      Shifts cfg s a ⟨accountsOf sessions + rest, n⟩ ⟨accountsOf (sessions.map f) + rest, n⟩
        (sessions.flatMap log) := by
  intro sessions
  induction sessions with
  | nil => exact fun _ _ => .refl _
  | cons x xs ih =>
      intro hturn rest
      have hx := hturn x List.mem_cons_self (accountsOf xs + rest) n
      have hxs := ih (fun y hy => hturn y (List.mem_cons_of_mem x hy)) ((f x).account ::ₘ rest)
      rw [Multiset.add_cons, Multiset.add_cons] at hxs
      rw [List.map_cons, List.flatMap_cons, accountsOf_cons, accountsOf_cons, Multiset.cons_add,
        Multiset.cons_add]
      exact hx.trans hxs

theorem drainPlain_turn {calls : List WriteCall} :
    Turn cfg s a x (x.drainPlain s.now calls)
      ((x.plainWritten s.now calls).map (.written x.serial)) := by
  obtain ⟨queue, haccount, hsub, hmem⟩ :=
    account_drainSessionPlain s.now (x.rawTxQueue.len + 1) calls x
  refine .of_change ?_
  rw [Session.drainPlain, haccount]
  exact .wrote hsub hmem

theorem flushPending_shifts {calls : Nat → List WriteCall} (sessions : List Session) :
    Shifts cfg s a ⟨accountsOf sessions, n⟩ ⟨accountsOf (flushPending s.now calls sessions), n⟩
      (allWritten s.now calls sessions) := by
  have hturn : ∀ x ∈ sessions, Turn cfg s a x (x.drainPlain s.now (calls x.serial))
      ((x.plainWritten s.now (calls x.serial)).map (.written x.serial)) :=
    fun _ _ => drainPlain_turn
  have h := turns_map (n := n) sessions hturn 0
  rw [Multiset.add_zero, Multiset.add_zero] at h
  exact h

/-! ## The drain pass -/

theorem injectPending_turn {y : Session} {call : DtlsCall Bool} {log : List Observation} :
    Turn cfg s a x y log → Turn cfg s a x (injectPending s.now call y) log := by
  intro h rest n
  rw [account_injectPending]
  exact h rest n

theorem withDeliveries_append {calls : Nat → DrainCall} {evs evs' : List Event} :
    withDeliveries calls (evs ++ evs') = withDeliveries calls evs ++ withDeliveries calls evs' :=
  List.flatMap_append

theorem deliverPacket_turn {calls : Nat → DrainCall} {packet : Packet} :
    x.authenticated = true →
    Turn cfg s a x (deliverPacket cfg s.now (calls x.serial) packet x).session
      (withDeliveries calls (deliverPacket cfg s.now (calls x.serial) packet x).events) := by
  intro hauth
  have hread : Turn cfg s a x x [.logged (.access (.received x.serial packet))] :=
    .of_change (.read (.inl hauth))
  unfold deliverPacket
  split
  · rename_i hkeepalive
    obtain rfl : packet = KEEPALIVE_PACKET := by simpa [isKeepalivePacket] using hkeepalive
    exact .of_change (.keepalive rfl hauth)
  · split
    · exact injectPending_turn hread
    · rename_i source destination haddresses
      have hsome : (ipv4PacketAddresses packet).isSome = true := by rw [haddresses]; rfl
      split
      · dsimp only
        -- The packet is counted before TUN is asked.
        cases htun : (writeTunPacket packet (calls x.serial).tun).1 with
        | ok _ =>
            have hlog : ∀ y : Session, y.serial = x.serial →
                withDeliveries calls [.access (.received x.serial packet), .tunWrite y packet] =
                  [.logged (.access (.received x.serial packet)), .logged (.tunWrite y packet),
                    .delivered x.serial packet] := by
              intro y hserial
              simp [withDeliveries, deliveredBy, hserial, htun]
            dsimp only
            rw [hlog]
            · exact injectPending_turn (.of_change (.delivered rfl hauth hsome))
            · rfl
        | error error =>
            have hlog : ∀ y : Session, y.serial = x.serial →
                withDeliveries calls [.access (.received x.serial packet), .tunWrite y packet] =
                  [.logged (.access (.received x.serial packet)), .logged (.tunWrite y packet)] := by
              intro y hserial
              simp [withDeliveries, deliveredBy, hserial, htun]
            dsimp only
            rw [hlog]
            · exact .of_change (.undelivered rfl hauth hsome)
            · rfl
      · exact injectPending_turn hread

theorem judgeLogin_turn {calls : Nat → DrainCall} {packet : Packet} :
    x.established = true → x.authenticated = false → x.loginAttempted = false →
    Turn cfg s a x (judgeLogin s.rules s.now packet x).session
      (withDeliveries calls (judgeLogin s.rules s.now packet x).events) := by
  intro hest hauth hattempted
  unfold judgeLogin
  dsimp only
  cases loginAccepted (s.rules.logins.lookup x.address) packet with
  | true => exact .of_change (.loggedIn hest hauth hattempted rfl)
  | false =>
      have hentry : ({ x with loginAttempted := true } : Session).entry =
          x.account.entry.logIn false := by
        simp only [Session.account, Session.entry, Entry.logIn, hauth]
      have haccount :
          (({ x with loginAttempted := true } : Session).queueSessionPlain s.now AUTH_FAILED).account =
            ({ x.account with entry := x.account.entry.logIn false } : Account).queues s.now
              AUTH_FAILED := by
        rw [← hentry]
        rfl
      rw [if_neg Bool.false_ne_true]
      refine .of_change ?_
      rw [haccount]
      exact .loginRejected hest hauth hattempted hentry

theorem drainSession_turn {calls : Nat → DrainCall} :
    Turn cfg s a x (drainSession cfg s.rules s.now (calls x.serial) x).session
      (withDeliveries calls (drainSession cfg s.rules s.now (calls x.serial) x).events) := by
  have hstay : Turn cfg s a x x [] := .of_account rfl
  unfold drainSession
  split
  · exact hstay
  · rename_i hpending
    have hest : x.established = true := by simpa using hpending
    split
    · exact hstay
    · dsimp only
      generalize hy : x.emit s.now (calls x.serial).read.sent = y
      have hother : ∀ b, Turn cfg s a x { y with drainPending := b } [] := fun b =>
        .of_account (by rw [← hy]; rfl)
      split
      · rename_i packet _
        split
        · exact injectPending_turn (hother false)
        · -- The message is read by a session with the same account.
          generalize hz : ({ y with drainPending := true } : Session) = z
          have haccount : z.account = x.account := by rw [← hz, ← hy]; rfl
          have hserial : z.serial = x.serial := by rw [← hz, ← hy]; rfl
          have hz' : Turn cfg s a x z [] := .of_account haccount
          have hestz : z.established = true := by rw [← hz, ← hy]; exact hest
          refine hz'.trans ?_
          rw [← hserial]
          unfold receiveMessage
          split
          · rename_i hauth
            exact deliverPacket_turn hauth
          · rename_i hauth
            split
            · rename_i hattempted
              exact .of_change (.read (.inr hattempted))
            · rename_i hattempted
              exact judgeLogin_turn hestz (eq_false_of_ne_true hauth) (eq_false_of_ne_true hattempted)
      · exact injectPending_turn (hother false)
      · exact injectPending_turn (hother true)
      · exact injectPending_turn (hother false)

theorem drainSessions_shifts {calls : Nat → DrainCall} {f : Session → Drained} :
    (∀ x, Turn cfg s a x (f x).session (withDeliveries calls (f x).events)) →
    ∀ (sessions : List Session) (rest : Multiset Account),
      Shifts cfg s a ⟨accountsOf sessions + rest, n⟩
        ⟨accountsOf (drainSessions f sessions).sessions + rest, n⟩
        (withDeliveries calls (drainSessions f sessions).events) := by
  intro hturn sessions
  induction sessions with
  | nil => exact fun _ => .refl _
  | cons x xs ih =>
      intro rest
      have hx := hturn x (accountsOf xs + rest) n
      unfold drainSessions
      dsimp only
      split
      · rw [accountsOf_cons, accountsOf_cons, Multiset.cons_add, Multiset.cons_add]
        exact hx
      · have hxs := ih ((f x).session.account ::ₘ rest)
        rw [Multiset.add_cons, Multiset.add_cons] at hxs
        rw [accountsOf_cons, accountsOf_cons, Multiset.cons_add, Multiset.cons_add,
          withDeliveries_append]
        exact hx.trans hxs

/-! ## A packet from TUN -/

theorem queueSessionPlain_turn {packet : Packet} :
    x.authenticated = true → Routable cfg packet x.address →
    Turn cfg s a x (x.queueSessionPlain s.now packet) [.logged (.queued x packet .tunnel)] :=
  fun hauth hroutable => .of_change (.routed rfl hauth hroutable)

theorem accountsOf_modify {sessions : List Session} {index : Nat} (f : Session → Session)
    (h : sessions[index]? = some x) :
    accountsOf sessions = x.account ::ₘ accountsOf (sessions.eraseIdx index) ∧
      accountsOf (sessions.modify index f) =
        (f x).account ::ₘ accountsOf (sessions.eraseIdx index) := by
  obtain ⟨hlt, rfl⟩ := List.getElem?_eq_some_iff.mp h
  refine ⟨accountsOf_erase hlt, ?_⟩
  have hmodify : sessions.modify index f = sessions.set index (f sessions[index]) := by
    rw [List.modify_eq_set_getElem?, h]
    rfl
  rw [hmodify, accountsOf_set hlt]

theorem routePacket_shifts {calls : Nat → List WriteCall} {packet : Packet}
    (sessions : List Session) :
    Shifts cfg s a ⟨accountsOf sessions, n⟩
      ⟨accountsOf (routePacket cfg s.now calls packet sessions).1, n⟩
      ((routePacket cfg s.now calls packet sessions).2.map .logged ++
        routeWritten cfg s.now calls packet sessions) := by
  unfold routePacket routeWritten
  cases hdestination : ipv4Destination packet with
  | none => exact .refl _
  | some destination =>
      dsimp only
      split
      · -- To everybody: the packet is queued to each session, then each is drained.
        rename_i hwide
        have hturn : ∀ x ∈ sessions, Turn cfg s a x
            (if x.authenticated then x.queueSessionPlain s.now packet else x)
            (if x.authenticated then [.logged (.queued x packet .tunnel)] else []) := by
          intro x _
          by_cases hauth : x.authenticated = true
          · rw [if_pos hauth, if_pos hauth]
            exact queueSessionPlain_turn hauth ⟨destination, hdestination, .inl hwide⟩
          · rw [if_neg hauth, if_neg hauth]
            exact .of_account rfl
        have hlog : sessions.flatMap (fun x => if x.authenticated = true then
              [Observation.logged (.queued x packet .tunnel)] else []) =
            ((sessions.filter (·.authenticated)).map fun x => Event.queued x packet .tunnel).map
              .logged := by
          induction sessions with
          | nil => rfl
          | cons x xs ih =>
              rw [List.flatMap_cons, ih fun y hy => hturn y (List.mem_cons_of_mem x hy)]
              by_cases hauth : x.authenticated = true
              · rw [if_pos hauth, List.filter_cons_of_pos hauth]
                rfl
              · rw [if_neg hauth, List.filter_cons_of_neg hauth]
                rfl
        have hqueued := turns_map (n := n) sessions hturn 0
        rw [Multiset.add_zero, Multiset.add_zero, hlog] at hqueued
        exact hqueued.trans (flushPending_shifts _)
      · split
        · rename_i hnarrow
          simp only [Bool.and_eq_true, Bool.not_eq_true'] at hnarrow
          cases hindex : unicastIndex destination sessions with
          | none => exact .refl _
          | some index =>
              obtain ⟨x, hx, hp⟩ := Vec.lastMaxIdx_some hindex
              simp only [Bool.and_eq_true, beq_iff_eq] at hp
              obtain ⟨hauth, rfl⟩ := hp
              obtain ⟨hbefore, hafter⟩ := accountsOf_modify
                (fun y => (y.queueSessionPlain s.now packet).drainPlain s.now (calls y.serial)) hx
              dsimp only
              rw [hbefore, hafter, hx, Option.toList_some]
              have hturn : Turn cfg s a x (x.queueSessionPlain s.now packet) _ :=
                queueSessionPlain_turn hauth ⟨_, hdestination, .inr ⟨hnarrow.1, hnarrow.2, rfl⟩⟩
              have hlog : allWritten s.now calls [x.queueSessionPlain s.now packet] =
                  ((x.queueSessionPlain s.now packet).plainWritten s.now (calls x.serial)).map
                    (.written x.serial) := List.flatMap_singleton ..
              rw [List.map_singleton, List.map_singleton, List.map_singleton, hlog]
              exact (hturn.trans drainPlain_turn) _ n
        · exact .refl _

/-! ## A datagram -/

theorem AdmissionEffect.shifts {datagram : UdpDatagram} {limiter : IpRateLimiter}
    {sessions : List Session} {next : Nat} {r : Admission} :
    AdmissionEffect cfg s.now datagram limiter sessions next r →
    Shifts cfg s a ⟨accountsOf sessions, next⟩ ⟨accountsOf r.sessions, r.nextSerial⟩
      (r.events.map .logged) := by
  have hevicted : ∀ {kept evicted : List Session}, (kept ++ evicted).Perm sessions →
      Sheds sessions (kept, dropAll evicted) := by
    intro kept evicted hperm
    have hid : ∀ x : Session, (id x).account = x.account := fun _ => rfl
    have h := sheds_of_perm hperm hid
    rwa [List.map_id] at h
  intro h
  cases h with
  | turnedAway _ _ => exact .refl _
  | banned ip _ =>
      have hsplit : (sessions.filter (!·.pendingFrom ip) ++
          sessions.filter (·.pendingFrom ip)).Perm sessions :=
        List.perm_append_comm.trans (List.filter_append_perm (·.pendingFrom ip) sessions)
      exact (hevicted hsplit).shifts
  | failed _ hperm _ => exact (hevicted hperm).shifts
  | admitted ip _ _ hperm _ _ _ _ _ =>
      dsimp only
      rw [accountsOf_perm (List.perm_append_singleton _ _), accountsOf_cons, List.map_append]
      exact (hevicted hperm).shifts.trans (.single .create)

section Establish

variable {before : Nat} {c : Certified} {sessions : List Session} {index : Nat}

theorem establishSession_shifts (hlt : index < sessions.length) :
    x.established = false →
    (cfg.maxClients ≤ before → (∀ y ∈ sessions.eraseIdx index, isDuplicate c.address x.peer y = false) →
      Refused cfg s a c) →
    Shifts cfg s a ⟨x.account ::ₘ accountsOf (sessions.eraseIdx index), n⟩
      ⟨accountsOf (establishSession cfg s.now s.rules before c sessions index x).1, n⟩
      ((establishSession cfg s.now s.rules before c sessions index x).2.map .logged) := by
  intro hpend hrefused
  have hmessage : handshakeAnswer s.rules c.address =
      if (s.rules.logins.lookup c.address).isNone = true then AUTH_OK else AUTH_REQUIRED := rfl
  unfold establishSession
  dsimp only
  rw [← hmessage]
  generalize hy : x.establish s.now c (s.rules.logins.lookup c.address).isNone = y
  generalize hx' : y.queueSessionPlain s.now (handshakeAnswer s.rules c.address) = x'
  have hentry : y.entry = x.account.entry.establish c.address c.fingerprint
      (s.rules.logins.lookup c.address).isNone s.now := by rw [← hy]; rfl
  have hentry' : x'.entry = y.entry := by rw [← hx']; rfl
  have haccount : x'.account =
      ({ x.account with entry := y.entry } : Account).queues s.now
        (handshakeAnswer s.rules c.address) := by rw [← hx', ← hy]; rfl
  have hpeer : x'.peer = x.peer := congrArg Entry.peer (hentry'.trans hentry)
  have hauth : y.entry.authenticated = (s.rules.logins.lookup c.address).isNone := by
    rw [hentry]
    rfl
  have hset : (sessions.set index x').Perm (x' :: sessions.eraseIdx index) :=
    List.set_perm_cons_eraseIdx hlt x'
  have hestablished : Change cfg s.rules s.now x.account x'.account
      (.logged (.queued y (handshakeAnswer s.rules c.address) .auth) ::
        .logged (.access (.established y.entry c.evidence)) ::
        if y.entry.authenticated then [.logged (.connected x')] else []) := by
    rw [haccount]
    exact .established hpend hentry hentry'
  split
  · rename_i hfull
    obtain ⟨hfull, hnone⟩ := hfull
    have hnobody : ∀ z ∈ sessions.eraseIdx index, isDuplicate c.address x.peer z = false := by
      intro z hz
      rw [List.any_eq_false] at hnone
      rw [← hpeer]
      exact eq_false_of_ne_true (hnone z (hset.symm.subset (List.mem_cons_of_mem x' hz)))
    have hleave : Leave cfg s a x.account
        [.logged (.queued y (handshakeAnswer s.rules c.address) .auth),
          .logged (.dropped (x'.because .maxClients))] :=
      .refused (hrefused hfull hnobody) hpend hentry haccount
    rw [List.set_set, accountsOf_perm (Vec.swapRemove_set_perm hlt _)]
    exact .single (.leave hleave)
  · rw [hentry']
    split
    · rename_i htrue
      rw [hauth, if_pos htrue] at hestablished
      have hloop := Vec.removeLoop_filter (isDuplicate c.address x'.peer) (sessions.set index x')
      have hperm := (List.Perm.append hloop.1 hloop.2).trans (List.perm_append_comm.trans
        ((List.filter_append_perm (isDuplicate c.address x'.peer) _).trans hset))
      have hsheds := sheds_of_perm hperm (account_because .replaced)
      rw [List.map_append]
      exact (Machine.Moves.single (.change hestablished)).trans hsheds.shifts
    · rename_i hfalse
      rw [hauth, if_neg hfalse] at hestablished
      rw [accountsOf_set hlt]
      exact .single (.change hestablished)

end Establish

theorem account_injectIncoming {now : Instant} {call : DtlsCall Bool} {incoming : Packet} :
    (injectIncoming now call incoming x).1.account = x.account := by
  unfold injectIncoming
  split
  · split <;> rfl
  · dsimp only
    split <;> rfl

theorem processDatagram_shifts {call : HandshakeCall} {incoming : Packet} {newSession : Bool}
    {index : Nat} :
    s.decrypt = .process incoming index newSession →
    Shifts cfg s (.decrypt (.process call)) ⟨accountsOf s.sessions, n⟩
      ⟨accountsOf
        (processDatagram cfg s.now s.rules call incoming newSession s.sessions index).1, n⟩
      ((processDatagram cfg s.now s.rules call incoming newSession s.sessions index).2.map
        .logged) := by
  intro hpc
  unfold processDatagram
  cases hx : s.sessions[index]? with
  | none => exact .refl _
  | some x =>
      obtain ⟨hlt, hget⟩ := List.getElem?_eq_some_iff.mp hx
      have hbefore := accountsOf_erase hlt
      rw [hget] at hbefore
      dsimp only
      generalize hin : (if newSession = true then (x, true)
        else injectIncoming s.now call.inject incoming x) = r
      have haccount : r.1.account = x.account := by
        rw [← hin]
        cases newSession with
        | true => rfl
        | false => exact account_injectIncoming
      have hentry : r.1.entry = x.entry := congrArg Account.entry haccount
      rw [hbefore]
      split
      · rename_i hgo
        simp only [Bool.and_eq_true, Bool.not_eq_true'] at hgo
        obtain ⟨hgo, hpend⟩ := hgo
        have htaken : newSession = true ∨
            (injectIncoming s.now call.inject incoming x).2 = true := by
          rw [← hin] at hgo
          cases newSession with
          | true => exact .inl rfl
          | false => exact .inr hgo
        unfold continueHandshake
        dsimp only
        generalize hz : r.1.emit s.now call.handshake.sent = z
        have hzaccount : z.account = x.account := by rw [← hz, account_emit, haccount]
        have hleave : Shifts cfg s (.decrypt (.process call))
            ⟨x.account ::ₘ accountsOf (s.sessions.eraseIdx index), n⟩
            ⟨accountsOf (s.sessions.eraseIdx index), n⟩ [.logged (.dropped z)] :=
          .single (.leave (hzaccount ▸ .dropped))
        rw [List.set_set]
        split
        · rw [accountsOf_perm (Vec.swapRemove_set_perm hlt z)]
          exact hleave
        · rw [List.set_set, accountsOf_set hlt, ← hzaccount]
          exact .refl _
        · rename_i hdone
          split
          · rw [accountsOf_perm (Vec.swapRemove_set_perm hlt z)]
            exact hleave
          · rename_i c hc
            have hpeer : z.peer = x.peer := by
              rw [← hz]
              exact congrArg Entry.peer hentry
            have hpendx : x.established = false := by
              rw [← hpend]
              exact (congrArg Entry.established hentry).symm
            have hlt' : index < (s.sessions.set index z).length := by rwa [List.length_set]
            have herase : (s.sessions.set index z).eraseIdx index = s.sessions.eraseIdx index :=
              List.eraseIdx_set_eq ..
            rw [← hzaccount, ← herase]
            refine establishSession_shifts hlt' (by rw [← hz]; exact hpend) fun hfull hnobody => ?_
            rw [herase, hpeer] at hnobody
            refine ⟨⟨call, incoming, index, newSession, x, rfl, hpc, htaken,
              ⟨hx, hpendx, hpeer ▸ hc⟩, hdone, fun y hy hest haddr => ?_⟩, hfull⟩
            have hperm := (List.getElem_cons_eraseIdx_perm hlt).symm
            rcases List.mem_cons.mp (hperm.subset hy) with rfl | hy
            · rw [hget]
            · by_contra hne
              exact Bool.false_ne_true
                ((hnobody y hy).symm.trans (isDuplicate_iff.mpr ⟨hest, haddr, hne⟩))
      · rw [accountsOf_set hlt, haccount]
        exact .refl _

end Turns

/-! ## Every action -/

section Steps

variable {cfg : ServerConfig} {s s' : ServerState} {a : Action} {evs : List Event}

/-- A step that keeps the roll and logs nothing about a session. -/
theorem roll_aside {log : List Observation} :
    s'.roll = s.roll → (∀ o ∈ log, o.serial? = none) → Shifts cfg s a s.roll s'.roll log := by
  intro hroll hnone
  rw [hroll]
  exact .single (.aside hnone)

theorem replies_aside {streams : List Nat} {ok : Bool} :
    ∀ o ∈ (streams.map fun stream => Event.reloadReply stream ok).map Observation.logged,
      o.serial? = none := by
  intro o ho
  rw [List.map_map] at ho
  obtain ⟨stream, -, rfl⟩ := List.mem_map.mp ho
  rfl

theorem decryptStep_shifts {a : DecryptAction} :
    decryptStep cfg s a = some (s', evs) →
    Shifts cfg s (.decrypt a) s.roll s'.roll (observations cfg s (.decrypt a) evs) := by
  intro h
  have hnone : ∀ o ∈ ([] : List Observation), o.serial? = none := fun _ ho =>
    absurd ho List.not_mem_nil
  cases decryptStep_cases h with
  | idle ha => cases ha
  | removed ha => cases ha
  | @moved _ pc active udpRxQueue errors =>
      cases a <;> exact roll_aside rfl hnone
  | @drained calls pc active _ _ =>
      have hturn : ∀ x, Turn cfg s (.decrypt (.drain calls)) x
          (drainSession cfg s.rules s.now (calls x.serial) x).session
          (withDeliveries calls (drainSession cfg s.rules s.now (calls x.serial) x).events) :=
        fun _ => drainSession_turn
      have hdrained := drainSessions_shifts (n := s.nextSerial) hturn s.sessions 0
      rw [Multiset.add_zero, Multiset.add_zero] at hdrained
      exact hdrained
  | deduplicated _ => exact deduplicate_sheds.shifts
  | adopted _ _ =>
      refine roll_aside rfl fun o ho => ?_
      rw [List.mem_singleton.mp ho]
      rfl
  | @admission call datagram pc active r _ _ hr _ =>
      have heff := admitPeer_effect cfg s.now call datagram s.handshakeLimiter s.sessions
        s.nextSerial
      rw [← hr] at heff
      exact heff.shifts
  | @processed call incoming index newSession r hpc hr =>
      rw [hr]
      exact processDatagram_shifts hpc

theorem encryptStep_shifts {a : EncryptAction} :
    encryptStep cfg s a = some (s', evs) →
    Shifts cfg s (.encrypt a) s.roll s'.roll (observations cfg s (.encrypt a) evs) := by
  intro h
  cases a with
  | take =>
      simp only [encryptStep] at h
      split at h
      · obtain ⟨rfl, rfl⟩ := Prod.mk.inj (Option.some.inj h)
        exact .refl _
      · cases h
  | route calls =>
      simp only [encryptStep] at h
      split at h
      · rename_i packet hpacket _
        obtain ⟨rfl, rfl⟩ := Prod.mk.inj (Option.some.inj h)
        simp only [observations, hpacket, Option.toList_some, List.flatMap_singleton]
        exact routePacket_shifts s.sessions
      · cases h
  | flush calls =>
      simp only [encryptStep] at h
      split at h
      · obtain ⟨rfl, rfl⟩ := Prod.mk.inj (Option.some.inj h)
        exact flushPending_shifts s.sessions
      · cases h

theorem controlStep_shifts {a : ControlAction} :
    controlStep cfg s a = some (s', evs) →
    Shifts cfg s (.control a) s.roll s'.roll (observations cfg s (.control a) evs) := by
  intro h
  cases a with
  | pass commands calls =>
      simp only [controlStep] at h
      split at h
      · obtain ⟨rfl, rfl⟩ := Prod.mk.inj (Option.some.inj h)
        exact controlPass_sheds.shifts
      · cases h
  | decide reload =>
      simp only [controlStep] at h
      split at h
      · split at h
        · split at h
          · obtain ⟨rfl, rfl⟩ := Prod.mk.inj (Option.some.inj h)
            exact .refl _
          · obtain ⟨rfl, rfl⟩ := Prod.mk.inj (Option.some.inj h)
            exact roll_aside rfl replies_aside
        · obtain ⟨rfl, rfl⟩ := Prod.mk.inj (Option.some.inj h)
          exact .refl _
      · cases h
  | purge =>
      simp only [controlStep] at h
      split at h
      · obtain ⟨rfl, rfl⟩ := Prod.mk.inj (Option.some.inj h)
        exact reloadPurge_sheds.shifts
      · cases h
  | send =>
      simp only [controlStep] at h
      split at h
      · obtain ⟨rfl, rfl⟩ := Prod.mk.inj (Option.some.inj h)
        exact .refl _
      · split at h <;> obtain ⟨rfl, rfl⟩ := Prod.mk.inj (Option.some.inj h)
        all_goals exact .refl _
      · cases h
  | respond answered =>
      simp only [controlStep] at h
      split at h
      · split at h
        · cases h
        · obtain ⟨rfl, rfl⟩ := Prod.mk.inj (Option.some.inj h)
          exact roll_aside rfl replies_aside
      · cases h
  | fail =>
      simp only [controlStep] at h
      split at h
      · obtain ⟨rfl, rfl⟩ := Prod.mk.inj (Option.some.inj h)
        exact .refl _
      · cases h

/-- **Every action is a sequence of shifts**, and what it shows is what they show. -/
theorem step_shifts :
    step cfg s a = some (s', evs) →
    Shifts cfg s a s.roll s'.roll (observations cfg s a evs) := by
  intro h
  cases a with
  | tick | deactivate | shutdown | tunReadFailed | udpReceived | tunReceived =>
      obtain ⟨rfl, rfl⟩ := Prod.mk.inj (Option.some.inj h)
      exact .refl _
  | decrypt a => exact decryptStep_shifts h
  | encrypt a => exact encryptStep_shifts h
  | udpWrite calls =>
      simp only [step] at h
      split at h
      · obtain ⟨rfl, rfl⟩ := Prod.mk.inj (Option.some.inj h)
        exact udpWritePass_sheds.shifts
      · cases h
  | control a => exact controlStep_shifts h

end Steps

/-! ## Every run -/

section Runs

variable {cfg : ServerConfig} {rules : Rules} {G : ServerState → Action → Prop} {as : List Action}
  {log : List Observation} {s : ServerState} {P : List Observation → Account → Prop}
  {Q : List Observation → Prop}

/-- What the steps of single sessions keep holds in every run that makes only
such steps. -/
theorem Run.living :
    (observedServer cfg rules).Run G as log s → (∀ s a, G s a → Lived cfg s a P Q) → Q [] →
    Living P Q log s.roll := by
  intro hr hlived hempty
  refine Machine.Run.invariant (fun log (s : ServerState) => Living P Q log s.roll) ?_ ?_ hr
  · exact ⟨Multiset.nodup_zero, fun _ h => absurd h (Multiset.notMem_zero _), fun _ _ => rfl,
      fun _ h => absurd h (Multiset.notMem_zero _), fun _ _ => hempty⟩
  · intro tr s a s' new hliving hG hstep
    obtain ⟨evs, hs, rfl⟩ := Machine.observe_step.mp hstep
    exact (step_shifts hs).invariant (Living P Q)
      (fun hI hshift => hshift.living (hlived s a hG) hI) tr hliving

/-- A session of the list, with its history. -/
theorem Living.session {x : Session} :
    Living P Q log s.roll → x ∈ s.sessions → P (life x.serial log) x.account :=
  fun h hx => h.present x.account (List.mem_map_of_mem hx)

/-- A session that is not in the list, or not any more. -/
theorem Living.gone {n : Nat} :
    Living P Q log s.roll → (∀ x ∈ s.sessions, x.serial ≠ n) → Q (life n log) := by
  intro h hn
  refine h.absent n fun α hα => ?_
  obtain ⟨x, hx, rfl⟩ := List.mem_map.mp hα
  exact hn x hx

/-- When the server has ended the sessions that are left go too. -/
theorem Living.closed {a : Action} {n : Nat} :
    Living P Q log s.roll → Lived cfg s a P Q →
    Q (life n (log ++ (dropAll s.sessions).map .logged)) := by
  intro h hlived
  have hshifts : Shifts cfg s a ⟨accountsOf s.sessions + 0, s.nextSerial⟩ ⟨0, s.nextSerial⟩
      ((dropAll s.sessions).map .logged) := leaves s.sessions
  rw [Multiset.add_zero] at hshifts
  have hend := hshifts.invariant (Living P Q) (fun hI hshift => hshift.living hlived hI) log h
  exact hend.absent n fun _ hα => absurd hα (Multiset.notMem_zero _)

end Runs

end AutobricksVpn
