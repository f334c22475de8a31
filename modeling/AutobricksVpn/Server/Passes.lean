/-
# `AutobricksVpn.Server.Passes` — what a pass does, from what it does to a session

The workers go over the session list: they do something to each session or to
one of them, and they remove some.  Let `R` be what may become of a session.
Where `R` holds of what a pass does to a session it holds, session by session,
between the list before and the list after (`Related`); a new session is the
only one that comes from none.
-/
import AutobricksVpn.Server.Handshake
import AutobricksVpn.Server.Control

namespace AutobricksVpn

/-- Every session kept comes from one that was there. -/
def Related (R : Session → Session → Prop) (sessions kept : List Session) : Prop :=
  ∀ y ∈ kept, ∃ x ∈ sessions, R x y

section Related

variable {R : Session → Session → Prop} {cfg : ServerConfig} {rules : Rules} {now : Instant}
  {sessions kept left : List Session} {x y : Session}

theorem related_of_subset (hrefl : ∀ x, R x x) (h : kept ⊆ sessions) : Related R sessions kept :=
  fun y hy => ⟨y, h hy, hrefl y⟩

theorem Related.subset (h : Related R sessions kept) :
    left ⊆ kept → Related R sessions left :=
  fun hsub y hy => h y (hsub hy)

theorem Related.trans (htrans : ∀ x y z, R x y → R y z → R x z) (h : Related R sessions kept)
    (h' : Related R kept left) : Related R sessions left := by
  intro z hz
  obtain ⟨y, hy, hyz⟩ := h' z hz
  obtain ⟨x, hx, hxy⟩ := h y hy
  exact ⟨x, hx, htrans x y z hxy hyz⟩

theorem related_map {f : Session → Session} (h : ∀ x, R x (f x)) :
    Related R sessions (sessions.map f) := by
  intro y hy
  obtain ⟨x, hx, rfl⟩ := List.mem_map.mp hy
  exact ⟨x, hx, h x⟩

/-- The session at an index is exchanged. -/
theorem related_set (hrefl : ∀ x, R x x) {index : Nat} (hx : sessions[index]? = some x)
    (h : R x y) : Related R sessions (sessions.set index y) := by
  intro z hz
  rcases List.mem_or_eq_of_mem_set hz with hz | rfl
  · exact ⟨z, hz, hrefl z⟩
  · exact ⟨x, List.mem_of_getElem? hx, h⟩

/-! ### The encrypt worker and the UDP writer -/

theorem related_flushPending (hdrain : ∀ calls x, R x (x.drainPlain now calls))
    (calls : Nat → List WriteCall) (sessions : List Session) :
    Related R sessions (flushPending now calls sessions) :=
  related_map fun x => hdrain (calls x.serial) x

theorem related_routePacket (hrefl : ∀ x, R x x) (htrans : ∀ x y z, R x y → R y z → R x z)
    (hqueue : ∀ packet x, R x (x.queueSessionPlain now packet))
    (hdrain : ∀ calls x, R x (x.drainPlain now calls)) (calls : Nat → List WriteCall)
    (packet : Packet) (sessions : List Session) :
    Related R sessions (routePacket cfg now calls packet sessions).1 := by
  unfold routePacket
  split
  · exact related_of_subset hrefl (List.Subset.refl _)
  · dsimp only
    split
    · refine Related.trans htrans (related_map fun x => ?_) (related_flushPending hdrain calls _)
      split
      · exact hqueue packet x
      · exact hrefl x
    · split
      · split
        · rename_i index _
          intro y hy
          obtain ⟨i, hi, rfl⟩ := List.mem_iff_getElem.mp hy
          rw [List.length_modify] at hi
          refine ⟨sessions[i], List.getElem_mem hi, ?_⟩
          rw [List.getElem_modify]
          split
          · exact htrans _ _ _ (hqueue packet _) (hdrain _ _)
          · exact hrefl _
        · exact related_of_subset hrefl (List.Subset.refl _)
      · exact related_of_subset hrefl (List.Subset.refl _)

theorem related_udpWritePass (hsession : ∀ calls x, R x (udpWriteSession now calls x).1)
    (calls : Nat → List (Except IoError Nat)) (sessions : List Session) :
    Related R sessions (udpWritePass now calls sessions).1 := by
  have hdrained : Related R sessions
      ((sessions.map fun x => udpWriteSession now (calls x.serial) x).map Prod.fst) := by
    rw [List.map_map]
    exact related_map fun x => hsession (calls x.serial) x
  exact hdrained.subset (Vec.swapRemoveAll_subperm _ _).subset

/-! ### The decrypt worker -/

theorem related_drainSessions (hrefl : ∀ x, R x x)
    (hdrain : ∀ call x, R x (drainSession cfg rules now call x).session)
    (calls : Nat → DrainCall) (sessions : List Session) :
    Related R sessions
      (drainSessions (fun x => drainSession cfg rules now (calls x.serial) x) sessions).sessions := by
  intro y hy
  obtain ⟨x, hx, rfl | ⟨rfl, -⟩⟩ := mem_drainSessions _ sessions y hy
  · exact ⟨y, hx, hrefl y⟩
  · exact ⟨x, hx, hdrain (calls x.serial) x⟩

/-- What the admission of an unknown peer leaves was there, or is the new session. -/
theorem mem_admitPeer {call : AdmitCall} {datagram : UdpDatagram} {limiter : IpRateLimiter}
    {next : Nat} :
    ∀ y ∈ (admitPeer cfg now call datagram limiter sessions next).sessions,
      y ∈ sessions ∨ y = Session.create next datagram.peer datagram.peerSize now := by
  have heffect := admitPeer_effect cfg now call datagram limiter sessions next
  generalize admitPeer cfg now call datagram limiter sessions next = r at heffect
  intro y hy
  cases heffect with
  | turnedAway => exact .inl hy
  | banned => exact .inl (List.mem_of_mem_filter hy)
  | failed _ hperm => exact .inl (hperm.subset (List.mem_append_left _ hy))
  | admitted _ _ _ hperm =>
      rcases List.mem_append.mp hy with hy | hy
      · exact .inl (hperm.subset (List.mem_append_left _ hy))
      · exact .inr (List.mem_singleton.mp hy)

theorem related_establishSession (hrefl : ∀ x, R x x)
    (htrans : ∀ x y z, R x y → R y z → R x z)
    (hqueue : ∀ packet x, R x (x.queueSessionPlain now packet))
    (hbecause : ∀ reason x, R x (Session.because reason x))
    (hestablish : ∀ c authenticated x, R x (x.establish now c authenticated))
    {before index : Nat} {c : Certified} (hx : sessions[index]? = some x) :
    Related R sessions (establishSession cfg now rules before c sessions index x).1 := by
  unfold establishSession
  dsimp only
  generalize (rules.logins.lookup c.address).isNone = authenticated
  generalize (if authenticated = true then AUTH_OK else AUTH_REQUIRED) = message
  have hy : R x ((x.establish now c authenticated).queueSessionPlain now message) :=
    htrans _ _ _ (hestablish c authenticated x) (hqueue message _)
  generalize (x.establish now c authenticated).queueSessionPlain now message = y at hy
  split
  · rw [List.set_set]
    refine (related_set hrefl hx (htrans _ _ _ hy (hbecause .maxClients y))).subset ?_
    exact (Vec.swapRemove_subperm _ _).subset
  · split
    · refine (related_set hrefl hx hy).subset ?_
      exact fun z hz => List.mem_of_mem_filter ((Vec.removeLoop_filter _ _).1.subset hz)
    · exact related_set hrefl hx hy

theorem related_processDatagram (hrefl : ∀ x, R x x)
    (htrans : ∀ x y z, R x y → R y z → R x z)
    (hqueue : ∀ packet x, R x (x.queueSessionPlain now packet))
    (hbecause : ∀ reason x, R x (Session.because reason x))
    (hestablish : ∀ c authenticated x, R x (x.establish now c authenticated))
    (hemit : ∀ sent x, R x (x.emit now sent))
    (hdeadline : ∀ deadline x, R x { x with dtlsDeadline := deadline })
    (hinject : ∀ call incoming x, R x (injectIncoming now call incoming x).1)
    {call : HandshakeCall} {incoming : Packet} {newSession : Bool} {index : Nat} :
    Related R sessions
      (processDatagram cfg now rules call incoming newSession sessions index).1 := by
  unfold processDatagram
  cases hx : sessions[index]? with
  | none => exact related_of_subset hrefl (List.Subset.refl _)
  | some x =>
      dsimp only
      have hin : R x (if newSession then (x, true)
          else injectIncoming now call.inject incoming x).1 := by
        split
        · exact hrefl x
        · exact hinject call.inject incoming x
      generalize (if newSession then (x, true)
        else injectIncoming now call.inject incoming x) = r at hin
      obtain ⟨y, goOn⟩ := r
      dsimp only at hin ⊢
      split
      · unfold continueHandshake
        dsimp only
        rw [List.set_set]
        have hy : R x (y.emit now call.handshake.sent) := htrans _ _ _ hin (hemit _ y)
        generalize y.emit now call.handshake.sent = z at hy
        have hset := related_set hrefl hx hy
        have hlt : index < sessions.length := (List.getElem?_eq_some_iff.mp hx).1
        split
        · exact hset.subset (Vec.swapRemove_subperm _ _).subset
        · rw [List.set_set]
          exact related_set hrefl hx (htrans _ _ _ hy (hdeadline _ z))
        · split
          · exact hset.subset (Vec.swapRemove_subperm _ _).subset
          · refine Related.trans htrans hset ?_
            exact related_establishSession hrefl htrans hqueue hbecause hestablish
              (List.getElem?_set_self hlt)
      · exact related_set hrefl hx hin

/-! ### The control worker -/

theorem related_retransmitAll (hretransmit : ∀ calls x y, retransmit now calls x = some y → R x y)
    (calls : Nat → RetransmitCall) (sessions : List Session) :
    Related R sessions (retransmitAll now calls sessions).1 := by
  intro y hy
  have hmem := (Vec.removeLoop_kept (retransmit now calls) sessions).subset hy
  obtain ⟨x, hx, hxy⟩ := List.mem_filterMap.mp hmem
  exact ⟨x, hx, hretransmit calls x y hxy⟩

theorem handleCommands_subset : ∀ (commands : List Command) (sessions : List Session),
    (handleCommands commands sessions).1 ⊆ sessions := by
  intro commands
  induction commands with
  | nil => exact fun sessions => List.Subset.refl _
  | cons command commands ih =>
      intro sessions
      have hfirst : (handleCommand sessions command).1 ⊆ sessions := by
        cases command with
        | disconnect address => exact List.filter_sublist.subset
        | watch | status | reload | invalid => exact List.Subset.refl _
      exact List.Subset.trans (ih _) hfirst

theorem related_controlPass (hrefl : ∀ x, R x x) (htrans : ∀ x y z, R x y → R y z → R x z)
    (hretransmit : ∀ calls x y, retransmit now calls x = some y → R x y)
    (commands : List Command) (calls : Nat → RetransmitCall) (sessions : List Session) :
    Related R sessions (controlPass cfg now commands calls sessions).1 := by
  have hcommands : Related R sessions (handleCommands commands sessions).1 :=
    related_of_subset hrefl (handleCommands_subset commands sessions)
  refine (Related.trans htrans hcommands (related_retransmitAll hretransmit calls _)).subset ?_
  exact List.filter_sublist.subset

end Related

end AutobricksVpn
