/-
# `AutobricksVpn.Server.Refine` — the server refines the access table

Every action of the server is a sequence of moves of the access table: none for
most, a removal for the other workers, and for the decrypt worker the moves
`Action.kinds` names.  So what every move keeps holds in every state of every
run (`server_lawful`).

Two facts are not about the table alone.  One authenticated session for each
address is an invariant of the loop, broken by a login and mended by the
deduplication pass (`OneForEachOutside`).  And a pending session is never one
of a banned source (`PendingUnbanned`), which is about the limiter as well.
-/
import AutobricksVpn.Access.History
import AutobricksVpn.Server.System

namespace AutobricksVpn

def ServerState.table (s : ServerState) : AccessTable := tableOf s.sessions s.nextSerial

/-- The moves an action may be made of. -/
def Action.kinds : Action → List MoveKind
  | .decrypt (.drain _) => [.drop, .read, .login]
  | .decrypt (.findSession _) => [.drop, .admission]
  | .decrypt (.process _) => [.drop, .establish]
  | _ => [.drop]

/-! ## The table of a list -/

section TableOf

variable (l : List Session) (n : Nat)

theorem establishedCount_tableOf :
    (tableOf l n).establishedCount = l.countP (·.established) := by
  simp only [AccessTable.establishedCount, tableOf, Multiset.coe_countP, List.countP_map]
  exact List.countP_congr fun x _ => by simp [Session.entry]

theorem pendingCount_tableOf : (tableOf l n).pendingCount = l.countP (!·.established) := by
  simp only [AccessTable.pendingCount, tableOf, Multiset.coe_countP, List.countP_map]
  exact List.countP_congr fun x _ => by simp [Session.entry]

theorem pendingFromCount_tableOf (ip : Ipv4Addr) :
    (tableOf l n).pendingFromCount ip = l.countP (·.pendingFrom ip) := by
  simp only [AccessTable.pendingFromCount, tableOf, Multiset.coe_countP, List.countP_map]
  refine List.countP_congr fun x _ => ?_
  rw [Function.comp_apply, decide_eq_true_iff]
  exact Iff.rfl

variable {l n}

theorem mem_tableOf {e : Entry} : e ∈ (tableOf l n).entries ↔ ∃ x ∈ l, x.entry = e := by
  simp [tableOf]

theorem tableOf_perm {l' : List Session} (h : l.Perm l') : tableOf l n = tableOf l' n := by
  rw [tableOf, tableOf, Multiset.coe_eq_coe.mpr (h.map Session.entry)]

theorem tableOf_entries {l' : List Session} (h : l.map Session.entry = l'.map Session.entry) :
    tableOf l n = tableOf l' n := by
  rw [tableOf, tableOf, h]

theorem entries_eraseIdx {i : Nat} (hi : i < l.length) :
    (tableOf l n).entries = l[i].entry ::ₘ (tableOf (l.eraseIdx i) n).entries := by
  rw [tableOf_perm (List.getElem_cons_eraseIdx_perm hi).symm]
  rfl

variable {cfg : ServerConfig} {rules : Rules} {kinds : List MoveKind}

/-- Removing sessions is one move. -/
theorem moves_drop {l' : List Session} (hk : .drop ∈ kinds)
    (h : (l'.map Session.entry).Subperm (l.map Session.entry)) :
    TableMoves cfg rules kinds (tableOf l n) (tableOf l' n) [] :=
  .single ⟨.drop, hk, .drop (t := tableOf l n) (Multiset.coe_le.mpr h)⟩

theorem moves_sublist {l' : List Session} (hk : .drop ∈ kinds) (h : l'.Sublist l) :
    TableMoves cfg rules kinds (tableOf l n) (tableOf l' n) [] :=
  moves_drop hk (h.map Session.entry).subperm

theorem moves_append {kept evicted : List Session} (hk : .drop ∈ kinds)
    (h : (kept ++ evicted).Perm l) :
    TableMoves cfg rules kinds (tableOf l n) (tableOf kept n) [] :=
  moves_drop hk (Vec.subperm_map ((List.sublist_append_left kept evicted).subperm.trans h.subperm))

end TableOf

/-! ## The actions of the decrypt worker -/

section Decrypt

variable {cfg : ServerConfig} {rules : Rules} {s : ServerState} {tr : List AccessEvent}

theorem peer_ne_of_lookup {sessions : List Session} {peer : SockaddrStorage} :
    lookupPeer sessions peer = none → ∀ x ∈ sessions, x.peer ≠ peer := by
  intro h x hx heq
  have := List.findIdx?_eq_none_iff.mp h x hx
  rw [heq] at this
  exact Bool.false_ne_true (this.symm.trans (samePeer_iff.mpr rfl))

theorem AdmissionEffect.moves {now : Instant} {datagram : UdpDatagram} {limiter : IpRateLimiter}
    {sessions : List Session} {next : Nat} {r : Admission} :
    AdmissionEffect cfg now datagram limiter sessions next r →
    lookupPeer sessions datagram.peer = none →
    (tableOf sessions next).pendingCount ≤ cfg.maxPendingHandshakes →
    TableMoves cfg rules [.drop, .admission] (tableOf sessions next)
      (tableOf r.sessions r.nextSerial) (accessLog r.events) := by
  intro h hlookup hpending
  cases h with
  | turnedAway _ _ => exact .refl _
  | banned ip _ =>
      rw [accessLog_dropAll]
      exact moves_sublist (by simp) List.filter_sublist
  | failed _ hperm _ =>
      rw [accessLog_dropAll]
      exact moves_append (by simp) hperm
  | @admitted limiter' kept evicted ip _ _ hperm _ hpeer hcap hfrom hroom =>
      rw [accessLog_append, accessLog_dropAll, List.nil_append, accessLog_access, accessLog_nil]
      have hsub : kept.Subperm sessions :=
        (List.sublist_append_left kept evicted).subperm.trans hperm.subperm
      have hadmit : Move cfg rules .admission (tableOf kept next)
          ⟨Entry.knock next datagram.peer ::ₘ (tableOf kept next).entries, next + 1⟩
          [.created next] := by
        refine .admission (t := tableOf kept next) ?_ ?_ ?_ ?_
        · intro e he
          obtain ⟨x, hx, rfl⟩ := mem_tableOf.mp he
          exact peer_ne_of_lookup hlookup x (hsub.subset hx)
        · rw [establishedCount_tableOf]
          exact Nat.lt_of_le_of_lt (hsub.countP_le _) hcap
        · intro a ha
          rw [pendingFromCount_tableOf, ← Option.some.inj (hpeer.symm.trans ha)]
          exact Nat.lt_of_le_of_lt (hsub.countP_le _) hfrom
        · rw [pendingCount_tableOf]
          rw [pendingCount_tableOf] at hpending
          exact hroom hpending
      have hend : (⟨Entry.knock next datagram.peer ::ₘ (tableOf kept next).entries, next + 1⟩ :
          AccessTable) =
          tableOf (kept ++ [Session.create next datagram.peer datagram.peerSize now]) (next + 1) := by
        rw [tableOf_perm (List.perm_append_singleton _ _)]
        rfl
      rw [hend] at hadmit
      have hdrop : TableMoves cfg rules [.drop, .admission] (tableOf sessions next)
          (tableOf kept next) [] := moves_append (by simp) hperm
      exact hdrop.trans (.single ⟨.admission, by simp, hadmit⟩)

/-- Peers are distinct, so whoever else is established for an address is a duplicate. -/
theorem isDuplicate_of_distinct {sessions : List Session} {index next : Nat} {x y : Session}
    {address : Ipv4Addr} :
    (tableOf sessions next).Distinct → sessions[index]? = some x → y ∈ sessions.eraseIdx index →
    y.established = true → y.address = address → isDuplicate address x.peer y = true := by
  intro hd hx hy hest haddr
  obtain ⟨hlt, rfl⟩ := List.getElem?_eq_some_iff.mp hx
  refine isDuplicate_iff.mpr ⟨hest, haddr, fun hsame => ?_⟩
  have hpeers := hd.peers
  have hperm := (List.getElem_cons_eraseIdx_perm hlt).symm
  rw [tableOf_perm hperm, tableOf, Multiset.map_coe, Multiset.coe_nodup,
    List.map_map, List.map_cons, List.nodup_cons] at hpeers
  exact hpeers.1 (List.mem_map.mpr ⟨y, hy, hsame⟩)

theorem ProcessEffect.moves {now : Instant} {call : HandshakeCall} {sessions : List Session} {x : Session}
    {index next : Nat} {r : List Session × List Event} :
    ProcessEffect cfg now rules call sessions x (sessions.eraseIdx index) r →
    sessions[index]? = some x → (tableOf sessions next).Distinct →
    TableMoves cfg rules [.drop, .establish] (tableOf sessions next) (tableOf r.1 next)
      (accessLog r.2) := by
  intro h hx hd
  obtain ⟨hlt, rfl⟩ := List.getElem?_eq_some_iff.mp hx
  have hperm := (List.getElem_cons_eraseIdx_perm hlt).symm
  cases h with
  | @kept x' l hentry hl =>
      have : tableOf l next = tableOf sessions next := by
        rw [tableOf_perm hl, tableOf_perm hperm]
        exact tableOf_entries (by rw [List.map_cons, List.map_cons, hentry])
      dsimp only
      rw [this]
      exact .refl _
  | removed _ hl hevs =>
      rw [hevs]
      refine moves_drop (by simp) (Vec.subperm_map ?_)
      exact hl.subperm.trans (List.eraseIdx_sublist _ _).subperm
  | @established x' l kept evs c hpend _ _ hentry hrules hsupports hl hkept hroom _ hevs =>
      dsimp only
      rw [hevs]
      have hafter : tableOf l next =
          ⟨x'.entry ::ₘ (tableOf kept next).entries, next⟩ := by
        rw [tableOf_perm hl]
        rfl
      rw [hafter, hentry]
      rw [hentry] at hsupports
      refine .single ⟨.establish, by simp, ?_⟩
      refine .establish (entries_eraseIdx hlt) hpend ?_ hrules hsupports ?_ ?_
      · exact Multiset.coe_le.mpr ((hkept ▸ List.filter_sublist).map Session.entry).subperm
      · -- Whoever is established for the address is a duplicate, and gone.
        intro hauth e he hest haddr
        obtain ⟨y, hy, rfl⟩ := mem_tableOf.mp he
        rw [hkept] at hy
        obtain ⟨hy, hnot⟩ := List.mem_filter.mp hy
        rw [hauth, isDuplicate_of_distinct hd hx hy hest haddr] at hnot
        exact Bool.false_ne_true hnot
      · refine hroom.imp (fun hlt => ?_) fun ⟨y, hy, hest, haddr⟩ => ?_
        · rwa [establishedCount_tableOf]
        · refine AccessTable.mem_establishedAddresses.mpr ⟨y.entry, mem_tableOf.mpr ⟨y, ?_, rfl⟩, hest,
            haddr⟩
          exact List.mem_of_mem_eraseIdx hy

end Decrypt

/-! ## Every action -/

section Effects

variable {cfg : ServerConfig} {s s' : ServerState} {a : Action} {evs : List Event}
  {tr : List AccessEvent}

theorem drop_mem_kinds (a : Action) : .drop ∈ a.kinds := by
  cases a with
  | decrypt d => cases d <;> simp [Action.kinds]
  | _ => simp [Action.kinds]

theorem login_notMem_kinds : a.isDecrypt = false → .login ∉ a.kinds := by
  intro ha
  cases a with
  | decrypt d => exact nomatch ha
  | _ => simp [Action.kinds]

theorem admission_notMem_kinds : a.isDecrypt = false → .admission ∉ a.kinds := by
  intro ha
  cases a with
  | decrypt d => exact nomatch ha
  | _ => simp [Action.kinds]

theorem accessLog_idle {sessions : List Session} (h : ∀ ev ∈ evs, ev.Idle sessions) :
    accessLog evs = [] := by
  refine List.filterMap_eq_nil_iff.mpr fun ev hev => ?_
  obtain ⟨stream, ok, rfl⟩ | ⟨x, -, -, packet, -, rfl⟩ := h ev hev <;> rfl

theorem Frame.table (h : Frame s s') (hs : s'.sessions.map Session.entry = s.sessions.map Session.entry) :
    s'.table = s.table := by
  rw [ServerState.table, ServerState.table, h.nextSerial, tableOf_entries hs]

theorem Shrinks.moves {rules : Rules} {kinds : List MoveKind} {sessions : List Session}
    {r : List Session × List Event} (h : Shrinks sessions r) (hk : .drop ∈ kinds) (next : Nat) :
    TableMoves cfg rules kinds (tableOf sessions next) (tableOf r.1 next) (accessLog r.2) := by
  obtain ⟨removed, hr⟩ := h.dropped
  rw [hr, accessLog_dropAll]
  exact moves_drop hk h.entries

/-- **Refinement.**  An action is a sequence of moves of the kinds it may make. -/
theorem Effect.moves :
    Effect cfg s a s' evs → Lawful cfg tr s.table →
    TableMoves cfg s.rules a.kinds s.table s'.table (accessLog evs) := by
  intro h hl
  cases h with
  | idle _ hframe hentries hevs =>
      rw [hframe.table hentries, accessLog_idle hevs]
      exact .refl _
  | removed _ hframe _ hshrinks _ =>
      have hm : TableMoves cfg s.rules a.kinds _ _ _ :=
        hshrinks.moves (drop_mem_kinds a) s.nextSerial
      rwa [ServerState.table, ServerState.table, hframe.nextSerial]
  | purged _ _ => exact (reloadPurge_shrinks ..).moves (drop_mem_kinds _) s.nextSerial
  | sent _ hsessions hnext _ _ _ _ _ =>
      rw [ServerState.table, ServerState.table, hsessions, hnext]
      exact .refl _
  | moved _ _ _ _ => exact .refl _
  | @drained calls _ _ _ _ =>
      have hm : TableMoves cfg s.rules [.read, .login] _ _ _ := drainSessions_moves
        (fun x => drainSession_effect cfg s.rules s.now (calls x.serial) x) s.nextSerial s.sessions 0
      rw [Multiset.add_zero, Multiset.add_zero] at hm
      refine hm.mono fun t t' evs hmove => ?_
      obtain ⟨k, hk, hmove⟩ := hmove
      exact ⟨k, List.mem_cons_of_mem _ hk, hmove⟩
  | deduplicated _ =>
      rw [show accessLog (deduplicate s.sessions).2 = [] from accessLog_dropAll _]
      exact moves_sublist (drop_mem_kinds _) (Vec.keepLast_sublist _ _)
  | adopted _ _ => exact .refl _
  | @admission call datagram pc active r _ hlookup hr _ =>
      have heff := admitPeer_effect cfg s.now call datagram s.handshakeLimiter s.sessions s.nextSerial
      rw [← hr] at heff
      exact heff.moves hlookup hl.bounded.pending
  | @processed call incoming index newSession r _ hr =>
      rcases processDatagram_cases hr with rfl | ⟨x, hx, heff⟩
      · exact .refl _
      · exact heff.moves hx hl.distinct

/-- The table of a state is lawful, in every run. -/
theorem server_lawful {rules : Rules} {G : ServerState → Action → Prop} {as : List Action}
    {tr : List Event} (h : (server cfg rules).Run G as tr s) : Lawful cfg (accessLog tr) s.table := by
  refine h.refines ServerState.table Event.access?
    (fun s a t t' evs => ∃ k ∈ a.kinds, Move cfg s.rules k t t' evs) (Lawful cfg) ?_ ?_ ?_
  · intro tr s a s' evs hl hstep
    exact (step_cases hstep).moves hl
  · exact Lawful.empty cfg
  · intro s a tr t t' evs hl hmove
    obtain ⟨k, -, hmove⟩ := hmove
    exact hmove.lawful hl

/-! ## One authenticated session for each address -/

/-- Between the deduplication pass and the next drain pass. -/
def ServerState.OneForEachOutside (s : ServerState) : Prop :=
  s.decrypt ≠ .deduplicate → s.decrypt ≠ .stopped → s.table.OneForEach

theorem TableMoves.oneForEach {rules : Rules} {kinds : List MoveKind} {t t' : AccessTable}
    {evs : List AccessEvent} :
    TableMoves cfg rules kinds t t' evs → .login ∉ kinds → t.Staged → t.OneForEach →
    t'.OneForEach := by
  intro hm hk hs ho
  refine (hm.invariant (fun _ t => t.Staged ∧ t.OneForEach) ?_ [] ⟨hs, ho⟩).2
  intro tr t t' evs hI hmove
  obtain ⟨k, hmem, hmove⟩ := hmove
  exact ⟨hmove.staged hI.1, hmove.oneForEach (fun heq => hk (heq ▸ hmem)) hI.1 hI.2⟩

/-- No two authenticated sessions have an address in common. -/
def Uncontested (sessions : List Session) : Prop :=
  sessions.Pairwise fun x y =>
    x.authenticated = true → y.authenticated = true → x.address ≠ y.address

theorem oneForEach_iff {sessions : List Session} {next : Nat} :
    (tableOf sessions next).OneForEach ↔ Uncontested sessions := by
  rw [AccessTable.OneForEach, tableOf, Multiset.filter_coe, Multiset.map_coe, Multiset.coe_nodup,
    List.filter_map, List.map_map, List.Nodup, List.pairwise_map, List.pairwise_filter]
  constructor
  · exact fun h => h.imp fun h hx hy => h (decide_eq_true hx) (decide_eq_true hy)
  · exact fun h => h.imp fun h hx hy => h (of_decide_eq_true hx) (of_decide_eq_true hy)

/-- The deduplication pass leaves one authenticated session for each address. -/
theorem uncontested_deduplicate (sessions : List Session) : Uncontested (deduplicate sessions).1 := by
  refine (Vec.keepLast_pairwise authenticatedAddress sessions).imp fun {x y} h hx hy haddr => ?_
  exact h x.address (if_pos hx) (by rw [haddr]; exact if_pos hy)

theorem Effect.oneForEachOutside :
    Effect cfg s a s' evs → Lawful cfg tr s.table → s.OneForEachOutside → s'.OneForEachOutside := by
  intro h hl ho
  have hm := h.moves hl
  have hkeep : .login ∉ a.kinds → s.table.OneForEach → s'.table.OneForEach := fun hk =>
    hm.oneForEach hk hl.staged
  intro hdedup hstopped
  cases h with
  | idle ha hframe _ _ =>
      rw [hframe.decrypt] at hdedup hstopped
      exact hkeep (login_notMem_kinds ha) (ho hdedup hstopped)
  | removed ha hframe _ _ _ =>
      rw [hframe.decrypt] at hdedup hstopped
      exact hkeep (login_notMem_kinds ha) (ho hdedup hstopped)
  | purged _ _ => exact hkeep (by simp [Action.kinds]) (ho hdedup hstopped)
  | sent _ _ _ _ hdecrypt _ _ _ =>
      rw [hdecrypt] at hdedup hstopped
      exact hkeep (by simp [Action.kinds]) (ho hdedup hstopped)
  | @moved d pc _ _ _ hfrom _ _ hend => exact ho hfrom fun heq => hstopped (hend heq)
  | drained _ hpc => exact absurd hpc (not_or.mpr ⟨hdedup, hstopped⟩)
  | deduplicated _ => exact oneForEach_iff.mpr (uncontested_deduplicate _)
  | adopted _ _ => exact ho hdedup hstopped
  | admission hpc _ _ _ =>
      exact hkeep (by simp [Action.kinds]) (ho (by rw [hpc]; nofun) (by rw [hpc]; nofun))
  | processed hpc _ =>
      exact hkeep (by simp [Action.kinds]) (ho (by rw [hpc]; nofun) (by rw [hpc]; nofun))

theorem server_oneForEachOutside {rules : Rules} {G : ServerState → Action → Prop}
    {as : List Action} {tr : List Event} :
    (server cfg rules).Run G as tr s → s.OneForEachOutside := by
  refine Machine.Run.invariant₂ (fun tr (s : ServerState) => Lawful cfg (accessLog tr) s.table)
    (fun _ (s : ServerState) => s.OneForEachOutside) server_lawful ?_ ?_
  · intro _ _
    exact List.nodup_nil
  · intro tr s a s' evs hl ho _ hstep
    exact (step_cases hstep).oneForEachOutside hl ho

/-! ## No pending session of a banned source -/

def ServerState.PendingUnbanned (s : ServerState) : Prop :=
  ∀ e ∈ s.table.entries, ∀ ip, e.pendingFrom ip = true → s.handshakeLimiter.Unbanned ip

theorem TableMoves.pending_mem {rules : Rules} {kinds : List MoveKind} {t t' : AccessTable}
    {evs : List AccessEvent} :
    TableMoves cfg rules kinds t t' evs → .admission ∉ kinds →
    ∀ e ∈ t'.entries, e.established = false → e ∈ t.entries := by
  intro hm hk
  induction hm with
  | refl => exact fun _ he _ => he
  | head hmove _ ih =>
      obtain ⟨k, hmem, hmove⟩ := hmove
      intro e he hpend
      exact hmove.pending_mem (fun heq => hk (heq ▸ hmem)) e (ih e he hpend) hpend

theorem Entry.established_of_pendingFrom {e : Entry} {ip : Ipv4Addr} :
    e.pendingFrom ip = true → e.established = false := by
  intro h
  rw [Entry.pendingFrom, Bool.and_eq_true, Bool.not_eq_true'] at h
  exact h.1

theorem Effect.pendingUnbanned :
    Effect cfg s a s' evs → Lawful cfg tr s.table → s.PendingUnbanned → s'.PendingUnbanned := by
  intro h hl hp
  have hm := h.moves hl
  -- Where nobody is admitted, the limiter is all that may have changed.
  have hkeep : .admission ∉ a.kinds →
      (∀ ip, s.handshakeLimiter.Unbanned ip → s'.handshakeLimiter.Unbanned ip) →
      s'.PendingUnbanned := by
    intro hk hlimiter e he ip hpend
    have hmem := hm.pending_mem hk e he (Entry.established_of_pendingFrom hpend)
    exact hlimiter ip (hp e hmem ip hpend)
  cases h with
  | idle ha hframe _ _ =>
      refine hkeep (admission_notMem_kinds ha) fun ip hip => ?_
      rwa [hframe.handshakeLimiter]
  | removed ha hframe _ _ _ =>
      refine hkeep (admission_notMem_kinds ha) fun ip hip => ?_
      rwa [hframe.handshakeLimiter]
  | purged _ _ => exact hkeep (admission_notMem_kinds rfl) fun _ hip => hip
  | sent _ _ _ hlimiter _ _ _ _ =>
      refine hkeep (admission_notMem_kinds rfl) fun ip hip => ?_
      rwa [hlimiter]
  | moved _ _ _ _ => exact hp
  | drained _ _ => exact hkeep (by simp [Action.kinds]) fun _ hip => hip
  | deduplicated _ =>
      exact hkeep (by simp [Action.kinds]) fun _ hip => IpRateLimiter.purge_unbanned hip _
  | adopted _ _ => exact hp
  | @admission call datagram pc active r _ _ hr _ =>
      have heff := admitPeer_effect cfg s.now call datagram s.handshakeLimiter s.sessions s.nextSerial
      rw [← hr] at heff
      intro e he ip hpend
      obtain ⟨x, hx, rfl⟩ := mem_tableOf.mp he
      exact heff.unbanned (fun y hy => hp y.entry (mem_tableOf.mpr ⟨y, hy, rfl⟩)) x hx ip hpend
  | processed _ _ => exact hkeep (by simp [Action.kinds]) fun _ hip => hip

theorem server_pendingUnbanned {rules : Rules} {G : ServerState → Action → Prop}
    {as : List Action} {tr : List Event} :
    (server cfg rules).Run G as tr s → s.PendingUnbanned := by
  refine Machine.Run.invariant₂ (fun tr (s : ServerState) => Lawful cfg (accessLog tr) s.table)
    (fun _ (s : ServerState) => s.PendingUnbanned) server_lawful ?_ ?_
  · exact fun _ he => absurd he (Multiset.notMem_zero _)
  · intro tr s a s' evs hl hp _ hstep
    exact (step_cases hstep).pendingUnbanned hl hp

end Effects

end AutobricksVpn
