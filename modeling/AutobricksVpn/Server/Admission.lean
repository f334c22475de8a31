/-
# `AutobricksVpn.Server.Admission` — a datagram of an unknown peer

The branch of `src/server/decrypt.rs` taken when no session has the peer of the
datagram: ban check, cookie exchange, recorded attempt, capacity, per-source
limit, eviction of the oldest pending session, and the new session record.
The acceptor is an object of wolfSSL without data of its own here; only the
outcomes of the calls on it matter.

Whatever happens, the result is one of three (`AdmissionEffect`): the list is
as it was; the pending sessions of a freshly banned source are gone; or the
limits were met, at most one pending session was evicted, and the new session
stands at the end unless the acceptor could not be replaced.  Established
sessions are never touched (`AdmissionEffect.established`).
-/
import AutobricksVpn.Server.Drain
import AutobricksVpn.Net.RateLimiter

namespace AutobricksVpn

/-- The outcomes of the calls made for an unknown peer. -/
structure AdmitCall where
  setIncomingPeer : Except IoError Unit
  acceptStateless : Except IoError Bool
  createStatelessAcceptor : Except IoError Unit

inductive AdmitVerdict where
  | refused
  | failed (error : IoError)
  | admitted

structure Admission where
  limiter : IpRateLimiter
  sessions : List Session
  nextSerial : Nat
  events : List Event
  verdict : AdmitVerdict

/-- `sessions.iter().position(|session| same_peer(…))`. -/
def lookupPeer (sessions : List Session) (peer : SockaddrStorage) : Option Nat :=
  sessions.findIdx? fun x => samePeer x.peer peer

def Session.pendingFrom (ip : Ipv4Addr) (x : Session) : Bool :=
  !x.established && peerIpv4 x.peer == some ip

/-- The oldest pending session makes room when the limit is reached. -/
def evictOldest (cfg : ServerConfig) (sessions : List Session) : List Session × List Session :=
  if cfg.maxPendingHandshakes ≤ sessions.countP (!·.established) then
    match Vec.firstMinIdx (!·.established) (·.lastActivity) sessions with
    | some oldest => (Vec.swapRemove sessions oldest, sessions[oldest]?.toList)
    | none => (sessions, [])
  else (sessions, [])

/-- The acceptor is made anew after a failed call; only that may end the server. -/
def rebuildAcceptor (call : AdmitCall) : AdmitVerdict :=
  match call.createStatelessAcceptor with
  | .ok _ => .refused
  | .error error => .failed error

/-- The peer has shown a valid cookie and is not banned. -/
def admitVerified (cfg : ServerConfig) (now : Instant) (call : AdmitCall) (datagram : UdpDatagram)
    (ip : Ipv4Addr) (limiter : IpRateLimiter) (sessions : List Session) (nextSerial : Nat) :
    Admission :=
  if cfg.maxClients ≤ sessions.countP (·.established) then
    ⟨limiter, sessions, nextSerial, [], .refused⟩
  else if MAX_PENDING_PER_IP ≤ sessions.countP (·.pendingFrom ip) then
    ⟨limiter, sessions, nextSerial, [], .refused⟩
  else
    let (kept, evicted) := evictOldest cfg sessions
    match call.createStatelessAcceptor with
    | .error error => ⟨limiter, kept, nextSerial, dropAll evicted, .failed error⟩
    | .ok _ =>
        ⟨limiter, kept ++ [Session.create nextSerial datagram.peer datagram.peerSize now],
          nextSerial + 1, dropAll evicted ++ [.access (.created nextSerial)], .admitted⟩

def admitPeer (cfg : ServerConfig) (now : Instant) (call : AdmitCall) (datagram : UdpDatagram)
    (limiter : IpRateLimiter) (sessions : List Session) (nextSerial : Nat) : Admission :=
  match peerIpv4 datagram.peer with
  | none => ⟨limiter, sessions, nextSerial, [], .refused⟩
  | some ip =>
      match limiter.checkBan ip now with
      | (true, limiter) => ⟨limiter, sessions, nextSerial, [], .refused⟩
      | (false, limiter) =>
          match call.setIncomingPeer, call.acceptStateless with
          | .error _, _ => ⟨limiter, sessions, nextSerial, [], rebuildAcceptor call⟩
          | .ok _, .error _ => ⟨limiter, sessions, nextSerial, [], rebuildAcceptor call⟩
          | .ok _, .ok false => ⟨limiter, sessions, nextSerial, [], .refused⟩
          | .ok _, .ok true =>
              match limiter.recordAttempt ip now with
              | some (.allowed, limiter) =>
                  admitVerified cfg now call datagram ip limiter sessions nextSerial
              | some (.bannedNow, limiter) =>
                  ⟨limiter, sessions.filter (!·.pendingFrom ip), nextSerial,
                    dropAll (sessions.filter (·.pendingFrom ip)), .refused⟩
              | some (.banned, limiter) => ⟨limiter, sessions, nextSerial, [], .refused⟩
              -- The panic is not caught here, and ends the worker.
              | none => ⟨limiter, sessions, nextSerial, [], .failed (IoError.other "decrypt worker panicked")⟩

/-! ## The three outcomes -/

/-- What the branch leaves of the limiter and the list. -/
inductive AdmissionEffect (cfg : ServerConfig) (now : Instant) (datagram : UdpDatagram)
    (limiter : IpRateLimiter) (sessions : List Session) (next : Nat) : Admission → Prop
  | turnedAway {limiter' : IpRateLimiter} {verdict : AdmitVerdict} :
      (∀ b, limiter.Unbanned b → limiter'.Unbanned b) → verdict ≠ .admitted →
      AdmissionEffect cfg now datagram limiter sessions next ⟨limiter', sessions, next, [], verdict⟩
  | banned {limiter' : IpRateLimiter} (ip : Ipv4Addr) :
      (∀ b, limiter.Unbanned b → b ≠ ip → limiter'.Unbanned b) →
      AdmissionEffect cfg now datagram limiter sessions next
        ⟨limiter', sessions.filter (!·.pendingFrom ip), next,
          dropAll (sessions.filter (·.pendingFrom ip)), .refused⟩
  | failed {limiter' : IpRateLimiter} {kept evicted : List Session} {error : IoError} :
      (∀ b, limiter.Unbanned b → limiter'.Unbanned b) →
      (kept ++ evicted).Perm sessions → (∀ x ∈ evicted, x.established = false) →
      AdmissionEffect cfg now datagram limiter sessions next
        ⟨limiter', kept, next, dropAll evicted, .failed error⟩
  | admitted {limiter' : IpRateLimiter} {kept evicted : List Session} (ip : Ipv4Addr) :
      (∀ b, limiter.Unbanned b → limiter'.Unbanned b) → limiter'.Unbanned ip →
      (kept ++ evicted).Perm sessions → (∀ x ∈ evicted, x.established = false) →
      peerIpv4 datagram.peer = some ip →
      sessions.countP (·.established) < cfg.maxClients →
      sessions.countP (·.pendingFrom ip) < MAX_PENDING_PER_IP →
      (sessions.countP (!·.established) ≤ cfg.maxPendingHandshakes →
        kept.countP (!·.established) < cfg.maxPendingHandshakes) →
      AdmissionEffect cfg now datagram limiter sessions next
        ⟨limiter', kept ++ [Session.create next datagram.peer datagram.peerSize now], next + 1,
          dropAll evicted ++ [.access (.created next)], .admitted⟩

/-- At most one session is evicted, a pending one, and then there is room. -/
theorem evictOldest_spec {cfg : ServerConfig} {sessions kept evicted : List Session}
    (h : evictOldest cfg sessions = (kept, evicted)) :
    (kept ++ evicted).Perm sessions ∧ (∀ x ∈ evicted, x.established = false) ∧
      (sessions.countP (!·.established) ≤ cfg.maxPendingHandshakes →
        kept.countP (!·.established) < cfg.maxPendingHandshakes) := by
  unfold evictOldest at h
  split at h
  · rename_i hfull
    split at h
    · rename_i oldest hidx
      obtain ⟨rfl, rfl⟩ := Prod.mk.inj h
      obtain ⟨x, hx, hpend⟩ := Vec.firstMinIdx_some hidx
      obtain ⟨hlt, rfl⟩ := List.getElem?_eq_some_iff.mp hx
      have hperm := Vec.perm_swapRemove hlt
      rw [hx]
      refine ⟨(List.perm_append_singleton _ _).trans hperm, ?_, fun hle => ?_⟩
      · intro y hy
        rw [List.mem_singleton.mp hy]
        simpa using hpend
      · have hcount := hperm.countP_eq (!·.established)
        rw [List.countP_cons_of_pos (p := fun x : Session => !x.established) hpend] at hcount
        omega
    · rename_i hidx
      have hzero := Vec.firstMinIdx_none hidx
      exact absurd (hzero ▸ hfull) (Nat.not_le.mpr cfg.maxPendingHandshakes_pos)
  · rename_i hroom
    obtain ⟨rfl, rfl⟩ := Prod.mk.inj h
    exact ⟨List.Perm.of_eq (List.append_nil _), fun x hx => absurd hx List.not_mem_nil,
      fun _ => Nat.not_le.mp hroom⟩

theorem rebuildAcceptor_ne_admitted (call : AdmitCall) : rebuildAcceptor call ≠ .admitted := by
  unfold rebuildAcceptor
  split <;> nofun

theorem admitVerified_effect {cfg : ServerConfig} {now : Instant} {call : AdmitCall}
    {datagram : UdpDatagram} {ip : Ipv4Addr} {limiter limiter' : IpRateLimiter}
    {sessions : List Session} {next : Nat} (hpeer : peerIpv4 datagram.peer = some ip)
    (hmono : ∀ b, limiter.Unbanned b → limiter'.Unbanned b) (hip : limiter'.Unbanned ip) :
    AdmissionEffect cfg now datagram limiter sessions next
      (admitVerified cfg now call datagram ip limiter' sessions next) := by
  unfold admitVerified
  split
  · exact .turnedAway hmono nofun
  · rename_i hcap
    split
    · exact .turnedAway hmono nofun
    · rename_i hfrom
      rcases hev : evictOldest cfg sessions with ⟨kept, evicted⟩
      obtain ⟨hperm, hpend, hroom⟩ := evictOldest_spec hev
      dsimp only
      split
      · exact .failed hmono hperm hpend
      · exact .admitted ip hmono hip hperm hpend hpeer (Nat.not_le.mp hcap) (Nat.not_le.mp hfrom)
          hroom

theorem admitPeer_effect (cfg : ServerConfig) (now : Instant) (call : AdmitCall)
    (datagram : UdpDatagram) (limiter : IpRateLimiter) (sessions : List Session) (next : Nat) :
    AdmissionEffect cfg now datagram limiter sessions next
      (admitPeer cfg now call datagram limiter sessions next) := by
  unfold admitPeer
  split
  · exact .turnedAway (fun _ h => h) nofun
  · rename_i ip hpeer
    rcases hban : limiter.checkBan ip now with ⟨banned, limiter₁⟩
    have hmono₁ : ∀ b, limiter.Unbanned b → limiter₁.Unbanned b := fun b hb => by
      simpa [hban] using IpRateLimiter.checkBan_unbanned (a := ip) hb now
    cases banned with
    | true => exact .turnedAway hmono₁ nofun
    | false =>
        dsimp only
        split
        · exact .turnedAway hmono₁ (rebuildAcceptor_ne_admitted call)
        · exact .turnedAway hmono₁ (rebuildAcceptor_ne_admitted call)
        · exact .turnedAway hmono₁ nofun
        · cases hrec : limiter₁.recordAttempt ip now with
          | none => exact .turnedAway hmono₁ nofun
          | some r =>
              obtain ⟨decision, limiter₂⟩ := r
              obtain ⟨hothers, hself⟩ := IpRateLimiter.recordAttempt_unbanned hrec
              cases decision with
              | allowed =>
                  exact admitVerified_effect hpeer (fun b hb => hothers b (hmono₁ b hb) nofun)
                    (hself rfl)
              | bannedNow => exact .banned ip fun b hb hne => hothers b (hmono₁ b hb) fun _ => hne
              | banned => exact .turnedAway (fun b hb => hothers b (hmono₁ b hb) nofun) nofun

/-! ## What follows for the sessions and for the table -/

section Consequences

variable {cfg : ServerConfig} {now : Instant} {datagram : UdpDatagram} {limiter : IpRateLimiter}
  {sessions : List Session} {next : Nat} {r : Admission}

/-- The established sessions are the same records, up to order. -/
theorem AdmissionEffect.established
    (h : AdmissionEffect cfg now datagram limiter sessions next r) :
    (r.sessions.filter (·.established)).Perm (sessions.filter (·.established)) := by
  have hevict : ∀ {kept evicted : List Session}, (kept ++ evicted).Perm sessions →
      (∀ x ∈ evicted, x.established = false) →
      (kept.filter (·.established)).Perm (sessions.filter (·.established)) := by
    intro kept evicted hperm hpend
    have hnone : evicted.filter (·.established) = [] :=
      List.filter_eq_nil_iff.mpr fun x hx => by simp [hpend x hx]
    have := hperm.filter (·.established)
    rwa [List.filter_append, hnone, List.append_nil] at this
  cases h with
  | turnedAway _ _ => exact List.Perm.refl _
  | banned ip _ =>
      refine List.Perm.of_eq ?_
      rw [List.filter_filter]
      refine List.filter_congr fun x _ => ?_
      cases hx : x.established <;> simp [Session.pendingFrom, hx]
  | failed _ hperm hpend => exact hevict hperm hpend
  | admitted ip _ _ hperm hpend _ _ _ _ =>
      rw [List.filter_append]
      simpa [Session.create] using hevict hperm hpend

/-- A pending session the branch leaves is not banned, if none was before. -/
theorem AdmissionEffect.unbanned (h : AdmissionEffect cfg now datagram limiter sessions next r)
    (hold : ∀ x ∈ sessions, ∀ ip, x.pendingFrom ip = true → limiter.Unbanned ip) :
    ∀ x ∈ r.sessions, ∀ ip, x.pendingFrom ip = true → r.limiter.Unbanned ip := by
  cases h with
  | turnedAway hmono _ => exact fun x hx ip hp => hmono ip (hold x hx ip hp)
  | banned ip hmono =>
      intro x hx a hp
      obtain ⟨hx, hkept⟩ := List.mem_filter.mp hx
      refine hmono a (hold x hx a hp) ?_
      rintro rfl
      rw [hp] at hkept
      exact Bool.false_ne_true hkept
  | failed hmono hperm _ =>
      exact fun x hx ip hp => hmono ip (hold x (hperm.subset (List.mem_append_left _ hx)) ip hp)
  | admitted ip hmono hip hperm _ hpeer _ _ _ =>
      intro x hx a hp
      rcases List.mem_append.mp hx with hx | hx
      · exact hmono a (hold x (hperm.subset (List.mem_append_left _ hx)) a hp)
      · rw [List.mem_singleton.mp hx] at hp
        have : peerIpv4 datagram.peer = some a := by
          simpa [Session.pendingFrom, Session.create] using hp
        rwa [Option.some.inj (hpeer.symm.trans this)] at hip

end Consequences

end AutobricksVpn
