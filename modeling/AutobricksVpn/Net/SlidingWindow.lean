/-
# `AutobricksVpn.Net.SlidingWindow` — the rate limiter answers by the rule

`IpRateLimiter` forgets what is over whenever it comes across it, in three
places and under three conditions.  Its answers are those of the rule over the
whole log (`Lib.SlidingWindow`), for calls in the order of time: what it holds
for an address agrees with the log about everything that still counts, now and
later (`Agrees`), and every call keeps that (`call_agrees`).

The rule bans for any time; the limiter panics where the end of a ban is no point
of the clock (`Nameable`), and gives the answers before that.
-/
import AutobricksVpn.Lib.SlidingWindow
import AutobricksVpn.Net.RateLimiter
import Mathlib.Data.List.TakeWhile

namespace AutobricksVpn

open SlidingWindow

/-! ## Calls -/

inductive LimiterCall where
  | recordAttempt (address : Ipv4Addr)
  | checkBan (address : Ipv4Addr)
  | purge

inductive LimiterResult where
  | decision (decision : RateLimitDecision)
  | banned (banned : Bool)
  | purged
  deriving DecidableEq

/-- Whether the call is about the address. -/
def LimiterCall.about (address : Ipv4Addr) : LimiterCall → Bool
  | .recordAttempt a => a == address
  | .checkBan a => a == address
  | .purge => false

/-- A call, its time and its result. -/
structure LimiterAnswer where
  time : Instant
  call : LimiterCall
  result : LimiterResult

/-- One call, unless it panics. -/
def IpRateLimiter.call (l : IpRateLimiter) (now : Instant) :
    LimiterCall → Option (LimiterResult × IpRateLimiter)
  | .recordAttempt address =>
      (l.recordAttempt address now).map fun r => (.decision r.1, r.2)
  | .checkBan address =>
      let r := l.checkBan address now
      some (.banned r.1, r.2)
  | .purge => some (.purged, l.purge now)

/-- The calls one after the other: the answers, and what is left of the limiter
if no call panicked. -/
def IpRateLimiter.answers :
    IpRateLimiter → List (Instant × LimiterCall) → List LimiterAnswer × Option IpRateLimiter
  | l, [] => ([], some l)
  | l, (now, call) :: calls =>
      match l.call now call with
      | none => ([], none)
      | some (result, l) =>
          let rest := IpRateLimiter.answers l calls
          (⟨now, call, result⟩ :: rest.1, rest.2)

/-! ## The rule -/

def decisionOf : Verdict → RateLimitDecision
  | .allowed => .allowed
  | .bannedNow => .bannedNow
  | .banned => .banned

def rule (p : Policy) (log : Log Ipv4Addr) (now : Instant) :
    LimiterCall → LimiterResult × Log Ipv4Addr
  | .recordAttempt address =>
      let v := verdict p log address now
      (.decision (decisionOf v), ⟨address, now, v⟩ :: log)
  | .checkBan address => (.banned (isBanned p log address now), log)
  | .purge => (.purged, log)

def ruleAnswers (p : Policy) :
    Log Ipv4Addr → List (Instant × LimiterCall) → List LimiterAnswer × Log Ipv4Addr
  | log, [] => ([], log)
  | log, (now, call) :: calls =>
      let first := rule p log now call
      let rest := ruleAnswers p first.2 calls
      (⟨now, call, first.1⟩ :: rest.1, rest.2)

/-- If the answer is a ban, the clock has the point at which it ends. -/
def Nameable (p : Policy) (x : LimiterAnswer) : Prop :=
  x.result = .decision .bannedNow → x.time + p.ban ≤ INSTANT_MAX

instance (p : Policy) (x : LimiterAnswer) : Decidable (Nameable p x) :=
  inferInstanceAs (Decidable (_ → _))

/-- The calls about one address are answered as if there were no others. -/
theorem ruleAnswers_filter (p : Policy) (address : Ipv4Addr) :
    ∀ (calls : List (Instant × LimiterCall)) (log log' : Log Ipv4Addr),
      log.filter (fun x => x.key = address) = log'.filter (fun x => x.key = address) →
      (ruleAnswers p log calls).1.filter (fun x => x.call.about address) =
        (ruleAnswers p log' (calls.filter fun c => c.2.about address)).1 := by
  intro calls
  induction calls with
  | nil => exact fun _ _ _ => rfl
  | cons c calls ih =>
      obtain ⟨now, call⟩ := c
      intro log log' hlog
      have hverdict : ∀ now, verdict p log address now = verdict p log' address now := fun now => by
        rw [← verdict_filter, hlog, verdict_filter]
      have hbanned : ∀ now, isBanned p log address now = isBanned p log' address now := fun now => by
        rw [← isBanned_filter, hlog, isBanned_filter]
      by_cases habout : call.about address = true
      · rw [List.filter_cons, if_pos habout]
        dsimp only [ruleAnswers]
        rw [List.filter_cons, if_pos habout]
        cases call with
        | recordAttempt a =>
            obtain rfl : a = address := eq_of_beq habout
            dsimp only [rule]
            rw [hverdict now, ih _ (⟨a, now, verdict p log' a now⟩ :: log')]
            rw [List.filter_cons, List.filter_cons, hlog]
        | checkBan a =>
            obtain rfl : a = address := eq_of_beq habout
            dsimp only [rule]
            rw [hbanned now, ih _ log' hlog]
        | purge => cases habout
      · rw [List.filter_cons, if_neg habout]
        dsimp only [ruleAnswers]
        rw [List.filter_cons, if_neg habout]
        refine ih _ log' ?_
        cases call with
        | recordAttempt a =>
            have hne : ¬ decide (a = address) = true := fun h =>
              habout (beq_iff_eq.mpr (of_decide_eq_true h))
            dsimp only [rule]
            rw [List.filter_cons, if_neg hne]
            exact hlog
        | checkBan | purge => exact hlog

/-! ## What is held for an address -/

namespace IpRateLimiter

/-- The attempts on record. -/
def kept (l : IpRateLimiter) (address : Ipv4Addr) : List Instant :=
  ((l.states address).map IpAttemptState.attempts).getD []

/-- The end of the ban on record. -/
def ban (l : IpRateLimiter) (address : Ipv4Addr) : Option Instant :=
  (l.states address).bind IpAttemptState.bannedUntil

/-- The settings are those of the policy. -/
structure Follows (l : IpRateLimiter) (p : Policy) : Prop where
  limit : l.limit = max p.limit 1
  window : l.window = p.window
  banDuration : l.banDuration = p.ban

end IpRateLimiter

open IpRateLimiter

/-- Attempts and ban tell from `now` on what the log tells about the address. -/
structure AgreesAt (p : Policy) (log : Log Ipv4Addr) (now : Instant) (address : Ipv4Addr)
    (attempts : List Instant) (ban : Option Instant) : Prop where
  banned : ∀ later, now ≤ later → bansAt later ban = isBanned p log address later
  recent : ∀ later, now ≤ later →
    recent p later attempts = (recent p later (since address log)).reverse
  sorted : attempts.Pairwise (· ≤ ·)
  past : ∀ time ∈ attempts, time ≤ now

structure Agrees (p : Policy) (log : Log Ipv4Addr) (now : Instant) (l : IpRateLimiter) : Prop where
  follows : l.Follows p
  each : ∀ address, AgreesAt p log now address (l.kept address) (l.ban address)

section Agreement

variable {p : Policy} {log : Log Ipv4Addr} {now now' : Instant} {address : Ipv4Addr}
  {attempts : List Instant} {deadline : Option Instant} {x : Attempt Ipv4Addr} {l l' : IpRateLimiter}

theorem fresh_eq_recent (p : Policy) :
    attempts.Pairwise (· ≤ ·) → fresh p.window now attempts = recent p now attempts :=
  dropWhile_eq_recent

namespace AgreesAt

theorem later (hle : now ≤ now') :
    AgreesAt p log now address attempts deadline → AgreesAt p log now' address attempts deadline := by
  intro h
  exact ⟨fun t ht => h.banned t (Nat.le_trans hle ht), fun t ht => h.recent t (Nat.le_trans hle ht),
    h.sorted, fun t ht => Nat.le_trans (h.past t ht) hle⟩

/-- Old attempts may be forgotten. -/
theorem fresh :
    AgreesAt p log now address attempts deadline →
    AgreesAt p log now address (fresh p.window now attempts) deadline := by
  intro h
  rw [fresh_eq_recent p h.sorted]
  refine ⟨h.banned, fun t ht => ?_, h.sorted.sublist List.filter_sublist, fun t ht => ?_⟩
  · rw [recent_recent attempts ht]
    exact h.recent t ht
  · exact h.past t (List.mem_filter.mp ht).1

/-- A ban that is over may be forgotten. -/
theorem lift :
    AgreesAt p log now address attempts deadline → bansAt now deadline = false →
    AgreesAt p log now address attempts none := by
  intro h hover
  refine ⟨fun t ht => ?_, h.recent, h.sorted, h.past⟩
  have hnow : isBanned p log address now = false := (h.banned now (Nat.le_refl _)).symm.trans hover
  exact (eq_false_of_ne_true fun hb => Bool.false_ne_true (hnow.symm.trans (isBanned_mono ht hb))).symm

/-- What is logged for another address changes nothing. -/
theorem other (hne : x.key ≠ address) :
    AgreesAt p log now address attempts deadline →
    AgreesAt p (x :: log) now address attempts deadline := by
  intro h
  have hban : lastBan address (x :: log) = lastBan address log := if_neg fun hx => hne hx.1
  have hsince : since address (x :: log) = since address log := if_neg hne
  refine ⟨fun t ht => ?_, fun t ht => ?_, h.sorted, h.past⟩
  · rw [isBanned, hban]
    exact h.banned t ht
  · rw [hsince]
    exact h.recent t ht

theorem refused :
    AgreesAt p log now address attempts deadline →
    AgreesAt p (⟨address, now, .banned⟩ :: log) now address attempts deadline := by
  intro h
  have hban : lastBan address (⟨address, now, .banned⟩ :: log) = lastBan address log :=
    if_neg fun hx => by cases hx.2
  have hsince : since address (⟨address, now, .banned⟩ :: log) = since address log := if_pos rfl
  refine ⟨fun t ht => ?_, fun t ht => ?_, h.sorted, h.past⟩
  · rw [isBanned, hban]
    exact h.banned t ht
  · rw [hsince]
    exact h.recent t ht

theorem allowed :
    AgreesAt p log now address attempts deadline →
    AgreesAt p (⟨address, now, .allowed⟩ :: log) now address (attempts ++ [now]) deadline := by
  intro h
  have hban : lastBan address (⟨address, now, .allowed⟩ :: log) = lastBan address log :=
    if_neg fun hx => by cases hx.2
  have hsince : since address (⟨address, now, .allowed⟩ :: log) = now :: since address log := if_pos rfl
  refine ⟨fun t ht => ?_, fun t ht => ?_, ?_, ?_⟩
  · rw [isBanned, hban]
    exact h.banned t ht
  · have hrecent := h.recent t ht
    unfold SlidingWindow.recent at hrecent ⊢
    rw [hsince, List.filter_append, hrecent]
    by_cases hyoung : t - now < p.window
    · simp [hyoung]
    · simp [hyoung]
  · exact List.pairwise_append.mpr ⟨h.sorted, List.pairwise_singleton _ _, fun t ht u hu =>
      List.mem_singleton.mp hu ▸ h.past t ht⟩
  · intro t ht
    rcases List.mem_append.mp ht with ht | ht
    · exact h.past t ht
    · exact Nat.le_of_eq (List.mem_singleton.mp ht)

theorem bannedNow :
    AgreesAt p (⟨address, now, .bannedNow⟩ :: log) now address [] (some (now + p.ban)) := by
  have hban : lastBan address (⟨address, now, .bannedNow⟩ :: log) = some now := if_pos ⟨rfl, rfl⟩
  have hsince : since address (⟨address, now, .bannedNow⟩ :: log) = [] := if_pos rfl
  refine ⟨fun t _ => ?_, fun t _ => ?_, List.Pairwise.nil, fun t ht => absurd ht List.not_mem_nil⟩
  · rw [isBanned, hban]
    rfl
  · rw [hsince]
    rfl

end AgreesAt

/-! ## What one call does -/

theorem kept_of_some {state : IpAttemptState} :
    l.states address = some state → l.kept address = state.attempts := by
  intro h
  rw [kept, h]
  rfl

theorem ban_of_some {state : IpAttemptState} :
    l.states address = some state → l.ban address = state.bannedUntil := by
  intro h
  rw [IpRateLimiter.ban, h]
  rfl

/-- What is on record for the address that was written last. -/
theorem kept_update (states : Ipv4Addr → Option IpAttemptState) (address : Ipv4Addr)
    (state : IpAttemptState) (limit : Nat) (window banDuration : Duration) :
    kept ⟨Function.update states address (some state), limit, window, banDuration⟩ address =
        state.attempts ∧
      IpRateLimiter.ban ⟨Function.update states address (some state), limit, window, banDuration⟩
        address = state.bannedUntil :=
  ⟨kept_of_some (Function.update_self _ _ _), ban_of_some (Function.update_self _ _ _)⟩

/-- What a call leaves of an address whose ban is over. -/
structure Refreshed (l l' : IpRateLimiter) (address : Ipv4Addr) (now : Instant) : Prop where
  kept : l'.kept address = fresh l.window now (l.kept address)
  ban : l'.ban address = none
  others : ∀ other, other ≠ address → l'.states other = l.states other
  limit : l'.limit = l.limit
  window : l'.window = l.window
  banDuration : l'.banDuration = l.banDuration

theorem checkBan_cases (l : IpRateLimiter) (address : Ipv4Addr) (now : Instant) :
    (bansAt now (l.ban address) = true ∧ l.checkBan address now = (true, l)) ∨
    (bansAt now (l.ban address) = false ∧ (l.checkBan address now).1 = false ∧
      Refreshed l (l.checkBan address now).2 address now) := by
  unfold IpRateLimiter.checkBan
  cases hs : l.states address with
  | none =>
      have hban : l.ban address = none := by rw [IpRateLimiter.ban, hs]; rfl
      have hkept : l.kept address = [] := by rw [kept, hs]; rfl
      refine .inr ⟨by rw [hban]; rfl, rfl, ?_, hban, fun _ _ => rfl, rfl, rfl, rfl⟩
      dsimp only
      rw [hkept]
      rfl
  | some state =>
      dsimp only
      rw [ban_of_some hs]
      by_cases hb : bansAt now state.bannedUntil = true
      · exact .inl ⟨hb, if_pos hb⟩
      · rw [if_neg hb]
        refine .inr ⟨eq_false_of_ne_true hb, rfl, ?_, (kept_update _ _ _ _ _ _).2,
          fun other hne => Function.update_of_ne hne _ _, rfl, rfl, rfl⟩
        rw [kept_of_some hs]
        exact (kept_update _ _ _ _ _ _).1

/-- What `record_attempt` does once the ban is over. -/
theorem recordAttempt_cases {l : IpRateLimiter} {address : Ipv4Addr} {now : Instant} :
    (l.checkBan address now).1 = false → Refreshed l (l.checkBan address now).2 address now →
    (l.limit ≤ (fresh l.window now (l.kept address)).length + 1 ∧
      INSTANT_MAX < now + l.banDuration ∧ l.recordAttempt address now = none) ∨
    ∃ decision l', l.recordAttempt address now = some (decision, l') ∧
      (∀ other, other ≠ address → l'.states other = l.states other) ∧
      l'.limit = l.limit ∧ l'.window = l.window ∧ l'.banDuration = l.banDuration ∧
      if l.limit ≤ (fresh l.window now (l.kept address)).length + 1 then
        decision = .bannedNow ∧ now + l.banDuration ≤ INSTANT_MAX ∧
          l'.kept address = [] ∧ l'.ban address = some (now + l.banDuration)
      else
        decision = .allowed ∧
          l'.kept address = fresh l.window now (l.kept address) ++ [now] ∧ l'.ban address = none := by
  intro hfalse h
  unfold recordAttempt
  rcases hc : l.checkBan address now with ⟨banned, l₁⟩
  rw [hc] at hfalse h
  obtain rfl : banned = false := hfalse
  have hattempts : (((l₁.states address).getD { attempts := [], bannedUntil := none }).attempts) =
      fresh l.window now (l.kept address) := by
    rw [← h.kept, kept]
    cases l₁.states address <;> rfl
  have hbanned : ((l₁.states address).getD { attempts := [], bannedUntil := none }).bannedUntil =
      none := by
    have hban : (l₁.states address).bind IpAttemptState.bannedUntil = none := h.ban
    cases hs : l₁.states address with
    | none => rfl
    | some state =>
        rw [hs] at hban
        exact hban
  dsimp only
  rw [hattempts, hbanned, List.length_append, List.length_singleton, h.limit, h.banDuration]
  by_cases hlimit : l.limit ≤ (fresh l.window now (l.kept address)).length + 1
  · simp only [if_pos hlimit, instantAdd]
    by_cases hmax : now + l.banDuration ≤ INSTANT_MAX
    · rw [if_pos hmax]
      refine .inr ⟨_, _, rfl, fun other hne => ?_, rfl, h.window, rfl, rfl, hmax,
        kept_update _ _ _ _ _ _⟩
      exact (Function.update_of_ne hne _ _).trans (h.others other hne)
    · rw [if_neg hmax]
      exact .inl ⟨hlimit, Nat.not_le.mp hmax, rfl⟩
  · simp only [if_neg hlimit]
    refine .inr ⟨_, _, rfl, fun other hne => ?_, rfl, h.window, rfl, rfl,
      kept_update _ _ _ _ _ _⟩
    exact (Function.update_of_ne hne _ _).trans (h.others other hne)

/-- What a purge leaves of an address. -/
theorem purge_cases (l : IpRateLimiter) (address : Ipv4Addr) (now : Instant) :
    (l.purge now).kept address = fresh l.window now (l.kept address) ∧
    ((l.purge now).ban address = l.ban address ∨
      bansAt now (l.ban address) = false ∧ (l.purge now).ban address = none) := by
  unfold kept IpRateLimiter.ban IpRateLimiter.purge
  cases hs : l.states address with
  | none =>
      dsimp only
      rw [hs]
      exact ⟨rfl, .inl rfl⟩
  | some state =>
      dsimp only
      rw [hs]
      dsimp only
      split
      · exact ⟨rfl, .inl rfl⟩
      · rename_i h
        obtain ⟨hb, hempty⟩ := Bool.or_eq_false_iff.mp (eq_false_of_ne_true h)
        have hnil := List.isEmpty_iff.mp (Bool.not_eq_eq_eq_not.mp hempty)
        exact ⟨hnil.symm, .inr ⟨hb, rfl⟩⟩

theorem purge_retained {l : IpRateLimiter} {address : Ipv4Addr} {now : Instant} :
    (l.purge now).states address ≠ none →
    bansAt now (l.ban address) = true ∨ fresh l.window now (l.kept address) ≠ [] := by
  intro h
  unfold IpRateLimiter.purge at h
  unfold kept IpRateLimiter.ban
  cases hs : l.states address with
  | none =>
      simp only [hs] at h
      exact absurd rfl h
  | some state =>
      simp only [hs] at h
      split at h
      · rename_i hretained
        refine (Bool.or_eq_true_iff.mp hretained).imp id fun hne hnil => ?_
        have hempty : (fresh l.window now state.attempts).isEmpty = true := List.isEmpty_iff.mpr hnil
        rw [hempty] at hne
        cases hne
      · exact absurd rfl h

theorem Agrees.later (hle : now ≤ now') : Agrees p log now l → Agrees p log now' l :=
  fun h => ⟨h.follows, fun a => (h.each a).later hle⟩

/-- An address that no call has touched agrees as before. -/
theorem agreesAt_of_states {a : Ipv4Addr} (hs : l'.states a = l.states a) :
    AgreesAt p log now a (l.kept a) (l.ban a) → AgreesAt p log now a (l'.kept a) (l'.ban a) := by
  intro h
  have hkept : l'.kept a = l.kept a := by rw [kept, hs]; rfl
  have hban : l'.ban a = l.ban a := by rw [IpRateLimiter.ban, hs]; rfl
  rw [hkept, hban]
  exact h

theorem checkBan_agrees (h : Agrees p log now l) (address : Ipv4Addr) :
    (l.checkBan address now).1 = isBanned p log address now ∧
      Agrees p log now (l.checkBan address now).2 := by
  have hbanned := (h.each address).banned now (Nat.le_refl _)
  rcases checkBan_cases l address now with ⟨hb, heq⟩ | ⟨hb, hfalse, hr⟩
  · rw [heq]
    exact ⟨hb.symm.trans hbanned, h⟩
  · refine ⟨hfalse.trans (hb.symm.trans hbanned), ⟨?_, ?_, ?_⟩, fun a => ?_⟩
    · exact hr.limit.trans h.follows.limit
    · exact hr.window.trans h.follows.window
    · exact hr.banDuration.trans h.follows.banDuration
    · by_cases ha : a = address
      · subst ha
        rw [hr.kept, hr.ban, h.follows.window]
        exact ((h.each a).lift hb).fresh
      · exact agreesAt_of_states (hr.others a ha) (h.each a)

/-- An attempt is answered by the rule, unless the rule bans to beyond the clock. -/
theorem recordAttempt_agrees (h : Agrees p log now l) (address : Ipv4Addr) :
    (verdict p log address now = .bannedNow ∧ INSTANT_MAX < now + p.ban ∧
      l.recordAttempt address now = none) ∨
    ∃ l', l.recordAttempt address now = some (decisionOf (verdict p log address now), l') ∧
      (verdict p log address now = .bannedNow → now + p.ban ≤ INSTANT_MAX) ∧
      Agrees p (⟨address, now, verdict p log address now⟩ :: log) now l' := by
  have hbanned := (h.each address).banned now (Nat.le_refl _)
  rcases checkBan_cases l address now with ⟨hb, heq⟩ | ⟨hb, hfalse, hr⟩
  · have hverdict : verdict p log address now = .banned := if_pos (hbanned.symm.trans hb)
    have hrecord : l.recordAttempt address now = some (.banned, l) := by rw [recordAttempt, heq]
    rw [hrecord, hverdict]
    refine .inr ⟨l, rfl, nofun, h.follows, fun a => ?_⟩
    by_cases ha : address = a
    · subst ha
      exact (h.each address).refused
    · exact (h.each a).other ha
  · have hnot : isBanned p log address now = false := hbanned.symm.trans hb
    have hat := ((h.each address).lift hb).fresh
    have hcount : (fresh l.window now (l.kept address)).length =
        (recent p now (since address log)).length := by
      have hrecent := (h.each address).recent now (Nat.le_refl _)
      rw [h.follows.window, fresh_eq_recent p (h.each address).sorted, hrecent, List.length_reverse]
    have hverdict : verdict p log address now =
        if l.limit ≤ (fresh l.window now (l.kept address)).length + 1 then .bannedNow else .allowed := by
      rw [verdict, hnot, h.follows.limit, hcount]
      rfl
    rcases recordAttempt_cases hfalse hr with
      ⟨hfull, hmax, hnone⟩ | ⟨decision, l', hrecord, hothers, hlimit, hwindow, hduration, hafter⟩
    · rw [h.follows.banDuration] at hmax
      exact .inl ⟨hverdict.trans (if_pos hfull), hmax, hnone⟩
    rw [hrecord, hverdict]
    have hfollows : l'.Follows p :=
      ⟨hlimit.trans h.follows.limit, hwindow.trans h.follows.window,
        hduration.trans h.follows.banDuration⟩
    refine .inr ⟨l', ?_⟩
    by_cases hfull : l.limit ≤ (fresh l.window now (l.kept address)).length + 1
    · rw [if_pos hfull] at hafter
      obtain ⟨rfl, hmax, hkept, hban⟩ := hafter
      rw [h.follows.banDuration] at hmax hban
      rw [if_pos hfull]
      refine ⟨rfl, fun _ => hmax, hfollows, fun a => ?_⟩
      by_cases ha : address = a
      · subst ha
        rw [hkept, hban]
        exact AgreesAt.bannedNow
      · exact agreesAt_of_states (hothers a (Ne.symm ha)) ((h.each a).other ha)
    · rw [if_neg hfull] at hafter
      obtain ⟨rfl, hkept, hban⟩ := hafter
      rw [if_neg hfull]
      refine ⟨rfl, nofun, hfollows, fun a => ?_⟩
      by_cases ha : address = a
      · subst ha
        rw [hkept, hban, h.follows.window]
        exact hat.allowed
      · exact agreesAt_of_states (hothers a (Ne.symm ha)) ((h.each a).other ha)

theorem purge_agrees (h : Agrees p log now l) : Agrees p log now (l.purge now) := by
  refine ⟨⟨h.follows.limit, h.follows.window, h.follows.banDuration⟩, fun a => ?_⟩
  obtain ⟨hkept, hban | ⟨hb, hnone⟩⟩ := purge_cases l a now
  · rw [hkept, hban, h.follows.window]
    exact (h.each a).fresh
  · rw [hkept, hnone, h.follows.window]
    exact ((h.each a).lift hb).fresh

/-- One call is answered by the rule, and what is held agrees with the log again;
or it panics, where the rule bans to beyond the clock. -/
theorem call_agrees (h : Agrees p log now l) (hle : now ≤ now') (call : LimiterCall) :
    (l.call now' call = none ∧ ¬ Nameable p ⟨now', call, (rule p log now' call).1⟩) ∨
    ∃ l', l.call now' call = some ((rule p log now' call).1, l') ∧
      Nameable p ⟨now', call, (rule p log now' call).1⟩ ∧
      Agrees p (rule p log now' call).2 now' l' := by
  have h := h.later hle
  cases call with
  | recordAttempt address =>
      unfold IpRateLimiter.call rule Nameable
      dsimp only
      rcases recordAttempt_agrees h address with ⟨hv, hmax, hnone⟩ | ⟨l', hrecord, hmax, hagrees⟩
      · rw [hnone, hv]
        exact .inl ⟨rfl, fun hle => absurd (hle rfl) (Nat.not_le.mpr hmax)⟩
      · rw [hrecord]
        refine .inr ⟨l', rfl, fun hban => hmax ?_, hagrees⟩
        cases hv : verdict p log address now' with
        | bannedNow => rfl
        | allowed | banned =>
            rw [hv] at hban
            cases hban
  | checkBan address =>
      obtain ⟨hresult, hagrees⟩ := checkBan_agrees h address
      refine .inr ⟨_, ?_, nofun, hagrees⟩
      rw [IpRateLimiter.call, hresult]
      rfl
  | purge => exact .inr ⟨_, rfl, nofun, purge_agrees h⟩

end Agreement

/-! ## Runs -/

theorem agrees_new (p : Policy) :
    Agrees p [] 0 (IpRateLimiter.new p.limit p.window p.ban) :=
  ⟨⟨rfl, rfl, rfl⟩, fun _ => ⟨fun _ _ => rfl, fun _ _ => rfl, List.Pairwise.nil,
    fun _ h => absurd h List.not_mem_nil⟩⟩

/-- Calls in the order of time are answered by the rule, up to the first ban that
the clock has no end for. -/
theorem answers_agree {p : Policy} :
    ∀ {calls : List (Instant × LimiterCall)} {log : Log Ipv4Addr} {now : Instant} {l : IpRateLimiter},
      Agrees p log now l → (now :: calls.map Prod.fst).Pairwise (· ≤ ·) →
      (l.answers calls).1 = (ruleAnswers p log calls).1.takeWhile (fun x => Nameable p x) ∧
        ((l.answers calls).2 = none ↔ ∃ x ∈ (ruleAnswers p log calls).1, ¬ Nameable p x) ∧
        ∀ l' ∈ (l.answers calls).2, ∀ later, (∀ time ∈ now :: calls.map Prod.fst, time ≤ later) →
          Agrees p (ruleAnswers p log calls).2 later l' := by
  intro calls
  induction calls with
  | nil =>
      intro log now l h _
      refine ⟨rfl, ⟨nofun, fun ⟨x, hx, _⟩ => absurd hx List.not_mem_nil⟩, ?_⟩
      rintro l' ⟨⟩ later hlater
      exact h.later (hlater now List.mem_cons_self)
  | cons c calls ih =>
      obtain ⟨t, call⟩ := c
      intro log now l h hsorted
      obtain ⟨hnow, hrest⟩ := List.pairwise_cons.mp hsorted
      dsimp only [IpRateLimiter.answers, ruleAnswers]
      rcases call_agrees h (hnow t List.mem_cons_self) call with
        ⟨hcall, hnot⟩ | ⟨l', hcall, hnameable, hagrees⟩
      · rw [hcall, List.takeWhile_cons_of_neg (by simpa using hnot)]
        exact ⟨rfl, ⟨fun _ => ⟨_, List.mem_cons_self, hnot⟩, fun _ => rfl⟩, nofun⟩
      · obtain ⟨hanswers, hpanic, hend⟩ := ih hagrees hrest
        rw [hcall, List.takeWhile_cons_of_pos (by simpa using hnameable)]
        refine ⟨congrArg _ hanswers, hpanic.trans ?_, fun l'' hl'' later hlater =>
          hend l'' hl'' later fun time htime => hlater time (List.mem_cons_of_mem _ htime)⟩
        constructor
        · exact fun ⟨x, hx, hnot⟩ => ⟨x, List.mem_cons_of_mem _ hx, hnot⟩
        · rintro ⟨x, hx, hnot⟩
          rcases List.mem_cons.mp hx with rfl | hx
          · exact absurd hnameable hnot
          · exact ⟨x, hx, hnot⟩

/-- **The limiter answers by the rule.**  Calls in the order of time get the
answers that the rule gives over the whole log, up to the first ban whose end is
no point of the clock, at which the limiter panics.  If there is none, all are
answered; the calls about one address get the answers they would get alone; and a
purge leaves no address without a ban that is on or an attempt younger than the
window. -/
theorem rateLimiter_refines (p : Policy) (calls : List (Instant × LimiterCall)) :
    (calls.map Prod.fst).Pairwise (· ≤ ·) →
    ((IpRateLimiter.new p.limit p.window p.ban).answers calls).1 =
        (ruleAnswers p [] calls).1.takeWhile (fun x => Nameable p x) ∧
    (((IpRateLimiter.new p.limit p.window p.ban).answers calls).2 = none ↔
      ∃ x ∈ (ruleAnswers p [] calls).1, ¬ Nameable p x) ∧
    ((∀ x ∈ (ruleAnswers p [] calls).1, Nameable p x) →
      ((IpRateLimiter.new p.limit p.window p.ban).answers calls).1 = (ruleAnswers p [] calls).1 ∧
      (∀ address,
        ((IpRateLimiter.new p.limit p.window p.ban).answers calls).1.filter
            (fun x => x.call.about address) =
          ((IpRateLimiter.new p.limit p.window p.ban).answers
            (calls.filter fun c => c.2.about address)).1) ∧
      ∃ l, ((IpRateLimiter.new p.limit p.window p.ban).answers calls).2 = some l ∧
        ∀ now, (∀ time ∈ calls.map Prod.fst, time ≤ now) → ∀ address,
          (l.purge now).states address ≠ none →
          isBanned p (ruleAnswers p [] calls).2 address now = true ∨
            ∃ time ∈ since address (ruleAnswers p [] calls).2, now - time < p.window) := by
  intro hsorted
  have hrun : ∀ calls : List (Instant × LimiterCall), (calls.map Prod.fst).Pairwise (· ≤ ·) → _ :=
    fun calls hsorted => answers_agree (agrees_new p)
      (List.pairwise_cons.mpr ⟨fun time _ => Nat.zero_le time, hsorted⟩)
  have hall : ∀ {answers : List LimiterAnswer}, (∀ x ∈ answers, Nameable p x) →
      answers.takeWhile (fun x => Nameable p x) = answers := fun h =>
    List.takeWhile_eq_self_iff.mpr fun x hx => decide_eq_true (h x hx)
  obtain ⟨hanswers, hpanic, hend⟩ := hrun calls hsorted
  refine ⟨hanswers, hpanic, fun hnameable => ?_⟩
  rw [hanswers, hall hnameable]
  refine ⟨rfl, fun address => ?_, ?_⟩
  · have hfilter : ((calls.filter fun c => c.2.about address).map Prod.fst).Pairwise (· ≤ ·) :=
      hsorted.sublist (List.filter_sublist.map _)
    have halone := ruleAnswers_filter p address calls [] [] rfl
    rw [(hrun _ hfilter).1, ← halone, hall]
    exact fun x hx => hnameable x (List.mem_filter.mp hx).1
  · obtain ⟨l, hl⟩ := Option.ne_none_iff_exists'.mp fun hnone =>
      have ⟨x, hx, hnot⟩ := hpanic.mp hnone
      hnot (hnameable x hx)
    refine ⟨l, hl, fun now hnow address hretained => ?_⟩
    have hagrees := hend l hl now fun time htime => by
      rcases List.mem_cons.mp htime with rfl | htime
      · exact Nat.zero_le _
      · exact hnow time htime
    have hat := hagrees.each address
    refine (purge_retained hretained).imp (fun hb => ?_) fun hne => ?_
    · exact (hat.banned now (Nat.le_refl _)).symm.trans hb
    · rw [hagrees.follows.window, fresh_eq_recent p hat.sorted, hat.recent now (Nat.le_refl _)] at hne
      obtain ⟨time, htime⟩ := List.exists_mem_of_ne_nil _ hne
      obtain ⟨hsince, hyoung⟩ := List.mem_filter.mp (List.mem_reverse.mp htime)
      exact ⟨time, hsince, of_decide_eq_true hyoung⟩

/-- The second attempt within the window bans; the ban ends on its deadline. -/
def banAndAfter (address : Ipv4Addr) : List (Instant × LimiterCall) :=
  [(0, .recordAttempt address), (59, .recordAttempt address), (60, .purge),
    (658, .recordAttempt address), (659, .checkBan address), (659, .recordAttempt address)]

theorem rateLimiter_refines_ban :
    ((IpRateLimiter.new 2 60 600).answers (banAndAfter 7)).1.map LimiterAnswer.result =
        [.decision .allowed, .decision .bannedNow, .purged, .decision .banned, .banned false,
          .decision .allowed] ∧
      ((IpRateLimiter.new 2 60 600).answers
          ((30, .recordAttempt 9) :: (banAndAfter 7).drop 2)).1.filter (fun x => x.call.about 9) =
        ((IpRateLimiter.new 2 60 600).answers [(30, .recordAttempt 9)]).1 := by
  refine ⟨?_, ?_⟩
  · rw [((rateLimiter_refines ⟨2, 60, 600⟩ (banAndAfter 7) (by decide)).2.2 (by decide +kernel)).1]
    decide +kernel
  · exact ((rateLimiter_refines ⟨2, 60, 600⟩ ((30, .recordAttempt 9) :: (banAndAfter 7).drop 2)
      (by decide)).2.2 (by decide +kernel)).2.1 9

/-- A limiter that bans for `Duration::MAX` answers no attempt that it is to ban. -/
theorem longest_ban_panics :
    ((IpRateLimiter.new 1 60 Duration.MAX).answers [(0, .recordAttempt 7)]).1 = [] ∧
      ((IpRateLimiter.new 1 60 Duration.MAX).answers [(0, .recordAttempt 7)]).2.isNone = true ∧
      (ruleAnswers ⟨1, 60, Duration.MAX⟩ [] [(0, .recordAttempt 7)]).1.map LimiterAnswer.result =
        [.decision .bannedNow] := by
  decide +kernel

end AutobricksVpn
