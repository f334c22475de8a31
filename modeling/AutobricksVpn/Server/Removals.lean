/-
# `AutobricksVpn.Server.Removals` — the loops that remove sessions by index

Three loops go over the session list and remove sessions with `swap_remove`:
the duplicates of a client that has connected (`src/server/decrypt.rs`), the
handshakes whose retransmission failed (`src/server/control.rs`), and the
clients whose send failed (`src/server/udp_write.rs`).  The first two go
forward and stay where they have removed; the third records indices and
removes them afterwards, the last one first.

Here they are taken turn by turn, as the source has them, and each answer of
wolfSSL or the socket may depend on the turn in which it is given.  Each loop
looks at every session once and removes the sessions it means, whatever their
positions (`removal_loops_exact`); and what the passes of `Handshake`, `Control`
and `Egress` compute is where these loops end.
-/
import AutobricksVpn.Server.Control
import AutobricksVpn.Server.Handshake

namespace AutobricksVpn

/-! ## The loops -/

/-- A turn of `while authenticated && duplicate_index < sessions.len()`. -/
def replaceTurn (authenticated : Bool) (address : Ipv4Addr) (peer : SockaddrStorage)
    (s : Vec.Scan Session) : Option (Vec.Scan Session) :=
  if authenticated then
    s.turn fun _ x => if isDuplicate address peer x then none else some x
  else none

/-- A turn of the retransmission loop; `calls` are the outcomes of the calls
made in a turn, with a session. -/
def retransmitTurn (now : Instant) (calls : Nat → Session → RetransmitCall)
    (s : Vec.Scan Session) : Option (Vec.Scan Session) :=
  s.turn fun turn x => retransmit now (fun _ => calls turn x) x

/-- The session's retransmission is due, and fails. -/
def retransmissionFails (now : Instant) (call : RetransmitCall) (x : Session) : Bool :=
  !x.established && x.dtlsDeadline.any (fun deadline => decide (deadline ≤ now)) &&
    match call.handleTimeout.result with
    | .error _ => true
    | .ok _ => false

/-- The `for` loop of the UDP writer, at `index`: the sessions as it leaves
them, and the indices it records. -/
def drainAll (now : Instant) (calls : Nat → Session → List (Except IoError Nat)) :
    Nat → List Session → List Session × List Nat
  | _, [] => ([], [])
  | index, x :: sessions =>
      let (x', failed) := udpWriteSession now (calls index x) x
      let (drained, remove) := drainAll now calls (index + 1) sessions
      (x' :: drained, if failed then index :: remove else remove)

/-! ## Where they end -/

theorem retransmit_isNone (now : Instant) (calls : Nat → RetransmitCall) (x : Session) :
    (retransmit now calls x).isNone = retransmissionFails now (calls x.serial) x := by
  unfold retransmit retransmissionFails
  split
  · rename_i hdue
    rw [hdue]
    cases (calls x.serial).handleTimeout.result <;> rfl
  · rename_i hdue
    rw [eq_false_of_ne_true hdue]
    rfl

theorem replace_ends (authenticated : Bool) (address : Ipv4Addr) (peer : SockaddrStorage)
    (sessions : List Session) :
    ∃ turns last, Vec.Turns (replaceTurn authenticated address peer) turns (.start sessions) last ∧
      (authenticated = true → turns = sessions.length ∧ last.examined.Perm sessions) ∧
      last.vec.Perm (sessions.filter fun x => !(authenticated && isDuplicate address peer x)) ∧
      last.removed.Perm (sessions.filter fun x => authenticated && isDuplicate address peer x) := by
  cases authenticated with
  | false =>
      refine ⟨0, .start sessions, .done rfl, nofun, ?_, ?_⟩
      · simp [Vec.Scan.start]
      · simp [Vec.Scan.start]
  | true =>
      obtain ⟨seen, hperm, hturns⟩ := Vec.scan_turns
        (fun _ x => if isDuplicate address peer x then none else some x) sessions
      refine ⟨sessions.length, _, hturns, fun _ => ⟨rfl, hperm⟩, ?_, ?_⟩
      · dsimp only
        rw [Vec.kept_const, Vec.filterMap_unless]
        exact hperm.filter _
      · dsimp only
        rw [Vec.dropped_const, Vec.filter_unless]
        exact hperm.filter _

theorem retransmit_ends (now : Instant) (calls : Nat → Session → RetransmitCall)
    (sessions : List Session) :
    ∃ last, Vec.Turns (retransmitTurn now calls) sessions.length (.start sessions) last ∧
      last.examined.Perm sessions ∧
      last.vec =
        last.examined.zipIdx.filterMap (fun x => retransmit now (fun _ => calls x.2 x.1) x.1) ∧
      last.vec.map Session.entry =
        (last.examined.zipIdx.filter fun x => !retransmissionFails now (calls x.2 x.1) x.1).map
          (fun x => x.1.entry) ∧
      last.removed =
        (last.examined.zipIdx.filter fun x => retransmissionFails now (calls x.2 x.1) x.1).map
          Prod.fst := by
  obtain ⟨seen, hperm, hturns⟩ := Vec.scan_turns
    (fun turn x => retransmit now (fun _ => calls turn x) x) sessions
  refine ⟨_, hturns, hperm, rfl, ?_, ?_⟩
  · dsimp only
    rw [Vec.map_kept fun _ _ _ => retransmit_entry]
    simp only [retransmit_isNone]
  · simp only [Vec.Scan.dropped, retransmit_isNone]

theorem drainAll_eq (now : Instant) (calls : Nat → Session → List (Except IoError Nat)) :
    ∀ (sessions : List Session) (index : Nat),
      let drained := (sessions.zipIdx index).map fun x => udpWriteSession now (calls x.2 x.1) x.1
      drainAll now calls index sessions =
        (drained.map Prod.fst, ((drained.zipIdx index).filter fun x => x.1.2).map Prod.snd) := by
  intro sessions
  induction sessions with
  | nil => exact fun _ => rfl
  | cons x sessions ih =>
      intro index
      have hrest := ih (index + 1)
      dsimp only at hrest ⊢
      rw [drainAll, hrest, List.zipIdx_cons, List.map_cons, List.zipIdx_cons]
      dsimp only
      cases hfailed : (udpWriteSession now (calls index x) x).2 <;> simp [hfailed]

theorem udpWrite_ends (now : Instant) (calls : Nat → Session → List (Except IoError Nat))
    (sessions : List Session) :
    let drained := sessions.zipIdx.map fun x => udpWriteSession now (calls x.2 x.1) x.1
    ∃ kept, Vec.swapRemoveEach (drainAll now calls 0 sessions).1
          (drainAll now calls 0 sessions).2.reverse =
        some (((drained.filter fun x => x.2).map Prod.fst).reverse, kept) ∧
      kept.Perm ((drained.filter fun x => !x.2).map Prod.fst) := by
  intro drained
  rw [drainAll_eq]
  obtain ⟨hremove, hkept⟩ := Vec.swapRemoveEach_marked Prod.fst (fun x => x.2) drained
  exact ⟨_, hremove, hkept⟩

/-! ## The passes of the server -/

/-- The pass of `Control` ends where the loop ends. -/
theorem retransmitAll_ends (now : Instant) (calls : Nat → RetransmitCall)
    (sessions : List Session) :
    ∃ last, Vec.Turns (retransmitTurn now fun _ x => calls x.serial) sessions.length
        (.start sessions) last ∧
      retransmitAll now calls sessions =
        (last.vec, dropAll (last.removed.map (Session.because .handshakeTimeoutError))) := by
  obtain ⟨seen, -, hturns⟩ := Vec.scan_turns (fun _ => retransmit now calls) sessions
  obtain ⟨hvec, hremoved⟩ := Vec.removeLoop_of_turns hturns sessions.length (Nat.le_refl _)
  refine ⟨_, hturns, ?_⟩
  rw [hvec, hremoved]
  rfl

/-- The pass of `Egress` removes the recorded indices, the last one first. -/
theorem udpWritePass_ends (now : Instant) (calls : Nat → List (Except IoError Nat))
    (sessions : List Session) :
    let drained := drainAll now (fun _ x => calls x.serial) 0 sessions
    ∃ removed, Vec.swapRemoveEach drained.1 drained.2.reverse =
        some (removed, (udpWritePass now calls sessions).1) ∧
      (udpWritePass now calls sessions).2 = dropAll removed := by
  have hmap : (sessions.zipIdx.map fun x => udpWriteSession now (calls x.1.serial) x.1) =
      sessions.map fun x => udpWriteSession now (calls x.serial) x := by
    calc (sessions.zipIdx.map fun x => udpWriteSession now (calls x.1.serial) x.1)
        = (sessions.zipIdx.map Prod.fst).map fun x => udpWriteSession now (calls x.serial) x := by
          rw [List.map_map]
          rfl
      _ = sessions.map fun x => udpWriteSession now (calls x.serial) x := by
          rw [List.zipIdx_map_fst]
  dsimp only
  rw [drainAll_eq, hmap]
  exact ⟨_, (Vec.swapRemoveEach_marked Prod.fst (fun x => x.2) _).1, rfl⟩

/-- A session that is established, and not refused for capacity, leaves the
sessions where the loop over its duplicates ends, and logs those it removes. -/
theorem establishSession_ends {cfg : ServerConfig} {now : Instant} {rules : Rules}
    {established : Nat} {c : Certified} {sessions : List Session} {index : Nat} {x x' : Session}
    {authenticated : Bool} (hauth : (rules.logins.lookup c.address).isNone = authenticated)
    (hx' : (x.establish now c authenticated).queueSessionPlain now
      (if authenticated then AUTH_OK else AUTH_REQUIRED) = x')
    (hroom : ¬ (cfg.maxClients ≤ established ∧
      (sessions.set index x').any (isDuplicate c.address x'.peer) = false)) :
    ∃ turns last, Vec.Turns (replaceTurn authenticated c.address x'.peer) turns
        (.start (sessions.set index x')) last ∧
      (establishSession cfg now rules established c sessions index x).1 = last.vec ∧
      ∀ y ∈ last.removed, .dropped (y.because .replaced) ∈
        (establishSession cfg now rules established c sessions index x).2 := by
  unfold establishSession
  rw [hauth]
  dsimp only
  rw [hx', if_neg hroom]
  clear hx' hauth
  cases authenticated with
  | false =>
      rw [if_neg Bool.false_ne_true]
      exact ⟨0, .start (sessions.set index x'), .done rfl, rfl, fun _ h => nomatch h⟩
  | true =>
      rw [if_pos rfl]
      obtain ⟨seen, -, hturns⟩ := Vec.scan_turns
        (fun _ y => if isDuplicate c.address x'.peer y then none else some y) (sessions.set index x')
      obtain ⟨hvec, hremoved⟩ := Vec.removeLoop_of_turns hturns _ (Nat.le_refl _)
      refine ⟨_, _, hturns, hvec.symm, fun y hy => ?_⟩
      rw [hremoved] at hy
      exact List.mem_append_right _ (List.mem_map.mpr ⟨_, List.mem_map.mpr ⟨y, hy, rfl⟩, rfl⟩)

/-- **Removal by index.**  The loop over duplicates and the retransmission loop
are over after one turn for each session, have looked at each session once, and
leave those that are no duplicates, and those whose retransmission did not
fail.  Any recorded indices, removed backwards, take away the sessions at those
indices and no other; and so the UDP writer removes the sessions whose send
failed, and keeps the rest as the writes have left them. -/
theorem removal_loops_exact :
    (∀ (authenticated : Bool) (address : Ipv4Addr) (peer : SockaddrStorage)
      (sessions : List Session),
      ∃ turns last,
        Vec.Turns (replaceTurn authenticated address peer) turns (.start sessions) last ∧
        (authenticated = true → turns = sessions.length ∧ last.examined.Perm sessions) ∧
        last.vec.Perm (sessions.filter fun x => !(authenticated && isDuplicate address peer x)) ∧
        last.removed.Perm
          (sessions.filter fun x => authenticated && isDuplicate address peer x)) ∧
    (∀ (now : Instant) (calls : Nat → Session → RetransmitCall) (sessions : List Session),
      ∃ last, Vec.Turns (retransmitTurn now calls) sessions.length (.start sessions) last ∧
        last.examined.Perm sessions ∧
        last.vec =
          last.examined.zipIdx.filterMap (fun x => retransmit now (fun _ => calls x.2 x.1) x.1) ∧
        last.vec.map Session.entry =
          (last.examined.zipIdx.filter fun x => !retransmissionFails now (calls x.2 x.1) x.1).map
            (fun x => x.1.entry) ∧
        last.removed =
          (last.examined.zipIdx.filter fun x => retransmissionFails now (calls x.2 x.1) x.1).map
            Prod.fst) ∧
    (∀ (sessions : List Session) (indices : List Nat), indices.Pairwise (fun i j => i < j) →
      (∀ i ∈ indices, i < sessions.length) →
      ∃ kept, Vec.swapRemoveEach sessions indices.reverse =
          some (indices.reverse.filterMap (fun i => sessions[i]?), kept) ∧
        kept.Perm ((sessions.zipIdx.filter fun x => decide (x.2 ∉ indices)).map Prod.fst)) ∧
    (∀ (now : Instant) (calls : Nat → Session → List (Except IoError Nat))
      (sessions : List Session),
      let drained := sessions.zipIdx.map fun x => udpWriteSession now (calls x.2 x.1) x.1
      ∃ kept, Vec.swapRemoveEach (drainAll now calls 0 sessions).1
            (drainAll now calls 0 sessions).2.reverse =
          some (((drained.filter fun x => x.2).map Prod.fst).reverse, kept) ∧
        kept.Perm ((drained.filter fun x => !x.2).map Prod.fst)) := by
  refine ⟨replace_ends, retransmit_ends, fun sessions indices hsorted hrange => ?_, udpWrite_ends⟩
  exact ⟨_, Vec.swapRemoveEach_reverse hsorted hrange, Vec.swapRemoveAll_reverse hsorted hrange⟩

namespace Sample

/-- The peer of session `serial`. -/
def peerOf (serial : Nat) : SockaddrStorage := ⟨AF_INET, UInt16.ofNat serial, 0, []⟩

/-- Three sessions with a datagram to send, whose retransmissions are due. -/
def trio (established : Bool) : List Session :=
  [0, 1, 2].map fun serial =>
    { (Session.create serial (peerOf serial) 16 0).emit 0 [[1]] with
      established := established, dtlsDeadline := some 0 }

def unreachable : IoError := IoError.other "unreachable"

/-- The retransmission fails but for session 1. -/
def failsButOne (x : Session) : RetransmitCall :=
  { handleTimeout := { result := if x.serial = 1 then .ok () else .error unreachable, sent := [] }
    currentTimeout := 0 }

/-- The socket refuses the datagrams of all sessions but session 1. -/
def refusesButOne (x : Session) : List (Except IoError Nat) :=
  [if x.serial = 1 then .ok 1 else .error unreachable]

end Sample

/-- On three sessions, of which the first and the last are removed in each loop. -/
theorem removal_loops_exact_three :
    (∃ last, Vec.Turns (replaceTurn true Ipv4Addr.unspecified (Sample.peerOf 1)) 3
        (.start (Sample.trio true)) last ∧ last.examined.Perm (Sample.trio true) ∧
      (last.vec.map Session.serial).Perm [1] ∧ (last.removed.map Session.serial).Perm [0, 2]) ∧
    (∃ last, Vec.Turns (retransmitTurn 1 fun _ => Sample.failsButOne) 3
        (.start (Sample.trio false)) last ∧ last.examined.Perm (Sample.trio false) ∧
      last.removed = (last.examined.zipIdx.filter fun x =>
        retransmissionFails 1 (Sample.failsButOne x.1) x.1).map Prod.fst) ∧
    (∃ kept, Vec.swapRemoveEach (Sample.trio true) [2, 0] =
        some ([2, 0].filterMap (fun i => (Sample.trio true)[i]?), kept) ∧
      (kept.map Session.serial).Perm [1]) ∧
    ∃ sent kept, Vec.swapRemoveEach (drainAll 0 (fun _ => Sample.refusesButOne) 0
          (Sample.trio true)).1
        (drainAll 0 (fun _ => Sample.refusesButOne) 0 (Sample.trio true)).2.reverse =
          some (sent, kept) ∧
      sent.map Session.serial = [2, 0] ∧ (kept.map Session.serial).Perm [1] := by
  obtain ⟨hreplace, hretransmit, hbackwards, hwrite⟩ := removal_loops_exact
  refine ⟨?_, ?_, ?_, ?_⟩
  · obtain ⟨turns, last, hturns, hcount, hkept, hremoved⟩ :=
      hreplace true Ipv4Addr.unspecified (Sample.peerOf 1) (Sample.trio true)
    obtain ⟨rfl, hexamined⟩ := hcount rfl
    exact ⟨last, hturns, hexamined, hkept.map Session.serial, hremoved.map Session.serial⟩
  · obtain ⟨last, hturns, hexamined, -, -, hremoved⟩ :=
      hretransmit 1 (fun _ => Sample.failsButOne) (Sample.trio false)
    exact ⟨last, hturns, hexamined, hremoved⟩
  · obtain ⟨kept, hremoved, hkept⟩ := hbackwards (Sample.trio true) [0, 2] (by decide) (by decide)
    exact ⟨kept, hremoved, hkept.map Session.serial⟩
  · obtain ⟨kept, hremoved, hkept⟩ :=
      hwrite 0 (fun _ => Sample.refusesButOne) (Sample.trio true)
    exact ⟨_, kept, hremoved, by decide +kernel, hkept.map Session.serial⟩

end AutobricksVpn
