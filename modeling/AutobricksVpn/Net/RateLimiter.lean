/-
# `AutobricksVpn.Net.RateLimiter` — handshake attempts per source address

`IpRateLimiter` of `src/lib.rs`.  An address that makes `limit` attempts within
`window` is banned for `banDuration`; `check_ban` and `record_attempt` answer
and forget what has expired.  A ban whose end is no point of the clock is a panic.

The server relies on one thing only: a ban begins with the answer `BannedNow`
and nowhere else.  Every operation keeps an address unbanned that was unbanned
before, except `record_attempt` on that address when it answers `BannedNow`
(`checkBan_unbanned`, `recordAttempt_unbanned`, `purge_unbanned`).
-/
import AutobricksVpn.Net.Ipv4
import Mathlib.Logic.Function.Basic

namespace AutobricksVpn

inductive RateLimitDecision where
  | allowed
  | bannedNow
  | banned
  deriving DecidableEq

structure IpAttemptState where
  attempts : List Instant
  bannedUntil : Option Instant

structure IpRateLimiter where
  states : Ipv4Addr → Option IpAttemptState
  limit : Nat
  window : Duration
  banDuration : Duration

namespace IpRateLimiter

def new (limit : Nat) (window banDuration : Duration) : IpRateLimiter :=
  { states := fun _ => none, limit := max limit 1, window := window, banDuration := banDuration }

/-- The attempts left after popping the expired ones off the front. -/
def fresh (window : Duration) (now : Instant) (attempts : List Instant) : List Instant :=
  attempts.dropWhile fun attempt => decide (window ≤ now - attempt)

/-- `deadline > now`, for a ban that may not exist. -/
def bansAt (now : Instant) (deadline : Option Instant) : Bool :=
  deadline.any fun deadline => decide (now < deadline)

def checkBan (l : IpRateLimiter) (address : Ipv4Addr) (now : Instant) : Bool × IpRateLimiter :=
  match l.states address with
  | none => (false, l)
  | some state =>
      if bansAt now state.bannedUntil then (true, l)
      else
        (false, { l with
          states := Function.update l.states address
            (some { attempts := fresh l.window now state.attempts, bannedUntil := none }) })

/-- `record_attempt`; it panics when the end of the ban cannot be computed. -/
def recordAttempt (l : IpRateLimiter) (address : Ipv4Addr) (now : Instant) :
    Option (RateLimitDecision × IpRateLimiter) :=
  match l.checkBan address now with
  | (true, l) => some (.banned, l)
  | (false, l) =>
      let state := (l.states address).getD { attempts := [], bannedUntil := none }
      let attempts := state.attempts ++ [now]
      if l.limit ≤ attempts.length then
        (instantAdd now l.banDuration).map fun deadline =>
          (.bannedNow, { l with
            states := Function.update l.states address
              (some { attempts := [], bannedUntil := some deadline }) })
      else
        some (.allowed, { l with
          states := Function.update l.states address (some { state with attempts := attempts }) })

def purge (l : IpRateLimiter) (now : Instant) : IpRateLimiter :=
  { l with
    states := fun address =>
      match l.states address with
      | none => none
      | some state =>
          let attempts := fresh l.window now state.attempts
          if bansAt now state.bannedUntil || !attempts.isEmpty then
            some { state with attempts := attempts }
          else none }

/-! ## When an address is not banned -/

/-- No ban is on record for the address. -/
def Unbanned (l : IpRateLimiter) (address : Ipv4Addr) : Prop :=
  (l.states address).bind IpAttemptState.bannedUntil = none

/-- An unbanned address is let through whenever it is asked about. -/
theorem Unbanned.checkBan {l : IpRateLimiter} {address : Ipv4Addr} (h : l.Unbanned address)
    (now : Instant) : (l.checkBan address now).1 = false := by
  unfold IpRateLimiter.checkBan
  cases hs : l.states address with
  | none => rfl
  | some state =>
      have : state.bannedUntil = none := by simpa [Unbanned, hs] using h
      simp [this, bansAt]

/-- An address that was let through is unbanned afterwards. -/
theorem unbanned_of_checkBan {l l' : IpRateLimiter} {address : Ipv4Addr} {now : Instant}
    (h : l.checkBan address now = (false, l')) : l'.Unbanned address := by
  unfold IpRateLimiter.checkBan at h
  cases hs : l.states address with
  | none =>
      simp only [hs, Prod.mk.injEq, true_and] at h
      simp [Unbanned, ← h, hs]
  | some state =>
      simp only [hs] at h
      split at h
      · simp at h
      · obtain rfl := (Prod.mk.inj h).2
        simp [Unbanned]

theorem checkBan_unbanned {l : IpRateLimiter} {a b : Ipv4Addr} (h : l.Unbanned b) (now : Instant) :
    (l.checkBan a now).2.Unbanned b := by
  unfold IpRateLimiter.checkBan
  cases hs : l.states a with
  | none => exact h
  | some state =>
      dsimp only
      split
      · exact h
      · by_cases hab : b = a
        · simp [Unbanned, hab]
        · simpa [Unbanned, Function.update_of_ne hab] using h

/-- What `record_attempt` answers and what it does to the bans: the address is
banned after `BannedNow`, unbanned after `Allowed`, and no other address
becomes banned. -/
theorem recordAttempt_unbanned {l l' : IpRateLimiter} {a : Ipv4Addr} {now : Instant}
    {decision : RateLimitDecision} (h : l.recordAttempt a now = some (decision, l')) :
    (∀ b, l.Unbanned b → (decision = .bannedNow → b ≠ a) → l'.Unbanned b) ∧
    (decision = .allowed → l'.Unbanned a) := by
  unfold recordAttempt at h
  rcases hc : l.checkBan a now with ⟨banned, l₁⟩
  have hkeep : ∀ b, l.Unbanned b → l₁.Unbanned b := fun b hb => by
    simpa [hc] using checkBan_unbanned (a := a) hb now
  cases banned with
  | true =>
      simp only [hc, Option.some.injEq, Prod.mk.injEq] at h
      obtain ⟨rfl, rfl⟩ := h
      exact ⟨fun b hb _ => hkeep b hb, nofun⟩
  | false =>
      have ha : l₁.Unbanned a := unbanned_of_checkBan hc
      simp only [hc] at h
      split at h
      · obtain ⟨deadline, -, heq⟩ := Option.map_eq_some_iff.mp h
        obtain ⟨rfl, rfl⟩ := Prod.mk.inj heq
        refine ⟨fun b hb hne => ?_, nofun⟩
        simpa [Unbanned, Function.update_of_ne (hne rfl)] using hkeep b hb
      · obtain ⟨rfl, rfl⟩ := Prod.mk.inj (Option.some.inj h)
        have hafter : ((l₁.states a).getD ⟨[], none⟩).bannedUntil = none := by
          cases hs : l₁.states a with
          | none => rfl
          | some state => simpa [Unbanned, hs] using ha
        refine ⟨fun b hb _ => ?_, fun _ => by simpa [Unbanned] using hafter⟩
        by_cases hab : b = a
        · simpa [Unbanned, hab] using hafter
        · simpa [Unbanned, Function.update_of_ne hab] using hkeep b hb

theorem purge_unbanned {l : IpRateLimiter} {a : Ipv4Addr} (h : l.Unbanned a) (now : Instant) :
    (l.purge now).Unbanned a := by
  unfold Unbanned purge
  cases hs : l.states a with
  | none => simp [hs]
  | some state =>
      have hnone : state.bannedUntil = none := by simpa [Unbanned, hs] using h
      simp only [hs]
      split
      · exact hnone
      · rfl

end IpRateLimiter

end AutobricksVpn
