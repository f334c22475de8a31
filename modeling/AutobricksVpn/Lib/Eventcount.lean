/-
# `AutobricksVpn.Lib.Eventcount` — a consumer that sleeps on a counter

A counter and a condition variable stand between several threads that enqueue
work and one that consumes it.  A producer enqueues, increments the counter and
then wakes the consumer, in three steps; a `Call` is what it has yet to do of
them.  The consumer reads the counter, looks at its queues, and goes to sleep
if the counter is still at the value it has read:

    observe    look    look  …  look    sleep
       |         |       |        |       |
     count      none    none     none   count the same

It may look at the queues one after the other, and what it has seen empty may
have been filled again when it goes to sleep.  That is no loss: either the
producer has incremented the counter since, or it has still to do so, and wakes
the consumer (`Sound.asleep`).  The counter wraps around, so this needs fewer
than `m` increments between the reading and the sleep.

Queues are known by their keys, and a producer may also drop the work it has
enqueued (`Move.retract`), in which case it notifies nobody.
-/
import Mathlib.Logic.Function.Basic
import Mathlib.Logic.Relation

namespace Eventcount

variable {ι κ : Type*}

/-! ## States -/

/-- What a thread has yet to do of a notification: to increment the counter, or
to wake the consumer.  The key is that of the work it has enqueued before. -/
inductive Call (κ : Type*) where
  | idle
  | enqueued (key : κ)
  | counted (key : Option κ)

def Call.isIdle : Call κ → Bool
  | idle => true
  | enqueued _ | counted _ => false

/-- The thread has enqueued work and not finished the notification. -/
def Call.Owes (key : κ) (call : Call κ) : Prop :=
  call = .enqueued key ∨ call = .counted (some key)

/-- Where the consumer is: it has no reading of the counter; it has one, and has
seen some of the queues empty since; or it sleeps. -/
inductive Phase (κ : Type*) where
  | working
  | observed (count : Nat) (seen : κ → Prop)
  | asleep (count : Nat)

namespace Phase

def reading : Phase κ → Option Nat
  | working => none
  | observed count _ => some count
  | asleep count => some count

/-- A queue that was empty some time after the reading. -/
def Seen : Phase κ → κ → Prop
  | working, _ => False
  | observed _ seen, key => seen key
  | asleep _, _ => True

def IsAsleep : Phase κ → Prop
  | asleep _ => True
  | working | observed _ _ => False

/-- The condition variable was notified. -/
def woken : Phase κ → Phase κ
  | asleep count => observed count fun _ => True
  | phase => phase

@[simp] theorem reading_woken (phase : Phase κ) : phase.woken.reading = phase.reading := by
  cases phase <;> rfl

@[simp] theorem seen_woken (phase : Phase κ) : phase.woken.Seen = phase.Seen := by
  cases phase <;> rfl

@[simp] theorem not_isAsleep_woken (phase : Phase κ) : ¬ phase.woken.IsAsleep := by
  cases phase <;> exact id

end Phase

structure State (ι κ : Type*) where
  count : Nat
  phase : Phase κ
  call : ι → Call κ
  pending : κ → Prop

/-! ## Moves -/

variable [DecidableEq ι]

/-- `m` is where the counter wraps around. -/
inductive Move (m : Nat) (s : State ι κ) : State ι κ → Prop
  /-- Work is taken out, or the consumer itself enqueues where it has yet to look. -/
  | work {pending : κ → Prop} :
      (∀ key, pending key → s.pending key ∨ ¬ s.phase.Seen key) →
      Move m s { s with pending := pending }
  | enqueue {pending : κ → Prop} {i : ι} {key : κ} :
      s.call i = .idle → (∀ key', pending key' → s.pending key' ∨ key' = key) →
      Move m s { s with
        pending := pending, call := Function.update s.call i (.enqueued key) }
  | retract {pending : κ → Prop} {i : ι} {key : κ} :
      s.call i = .enqueued key → (∀ key', pending key' → s.pending key' ∧ key' ≠ key) →
      Move m s { s with pending := pending, call := Function.update s.call i .idle }
  | increment {i : ι} {key : Option κ} :
      (s.call i = .idle ∧ key = none ∨ ∃ k, s.call i = .enqueued k ∧ key = some k) →
      Move m s { s with
        count := s.count + 1, call := Function.update s.call i (.counted key) }
  | wake {i : ι} {key : Option κ} :
      s.call i = .counted key →
      Move m s { s with phase := s.phase.woken, call := Function.update s.call i .idle }
  | observe :
      Move m s { s with phase := .observed s.count fun _ => False }
  | look {count : Nat} {seen seen' : κ → Prop} :
      s.phase = .observed count seen → (∀ key, seen' key → seen key ∨ ¬ s.pending key) →
      Move m s { s with phase := .observed count seen' }
  | sleep {count : Nat} {seen : κ → Prop} :
      s.phase = .observed count seen → (∀ key, seen key) → s.count % m = count % m →
      s.count - count < m → Move m s { s with phase := .asleep count }
  /-- The consumer wakes up although nobody has notified it. -/
  | rouse : Move m s { s with phase := s.phase.woken }
  | leave : Move m s { s with phase := .working }

/-! ## No wake-up is lost -/

/-- While the counter is at the value the consumer has read, what is pending in
a queue it has seen empty was enqueued by a producer that has yet to increment
the counter; and while it sleeps, by one that has yet to wake it. -/
structure Sound (s : State ι κ) : Prop where
  reading : ∀ count, s.phase.reading = some count → count ≤ s.count
  fresh : ∀ count, s.phase.reading = some count → s.count = count →
    ∀ key, s.phase.Seen key → s.pending key → ∃ i, s.call i = .enqueued key
  asleep : s.phase.IsAsleep → ∀ key, s.pending key → ∃ i, (s.call i).Owes key

section Sound

variable {m : Nat} {s s' : State ι κ}

/-- Who owes an increment is not the thread whose call changes. -/
theorem enqueued_update {i : ι} {call : Call κ} {key : κ} :
    (∃ j, s.call j = .enqueued key) → s.call i ≠ .enqueued key →
    ∃ j, Function.update s.call i call j = .enqueued key := by
  rintro ⟨j, hj⟩ hne
  refine ⟨j, ?_⟩
  rw [Function.update_of_ne, hj]
  rintro rfl
  exact hne hj

theorem owes_update {i : ι} {call : Call κ} {key : κ} :
    (∃ j, (s.call j).Owes key) → ((s.call i).Owes key → call.Owes key) →
    ∃ j, (Function.update s.call i call j).Owes key := by
  rintro ⟨j, hj⟩ hkeep
  by_cases hij : j = i
  · subst hij
    exact ⟨j, by rw [Function.update_self]; exact hkeep hj⟩
  · exact ⟨j, by rw [Function.update_of_ne hij]; exact hj⟩

omit [DecidableEq ι] in
theorem not_owes_idle {key : κ} : ¬ (Call.idle : Call κ).Owes key := by
  rintro (h | h) <;> cases h

theorem Sound.enqueue {pending : κ → Prop} {i : ι} {key : κ} (h : Sound s) :
    s.call i = .idle → (∀ key', pending key' → s.pending key' ∨ key' = key) →
    Sound { s with pending := pending, call := Function.update s.call i (.enqueued key) } := by
  intro hidle hpending
  have hself : Function.update s.call i (.enqueued key) i = .enqueued key :=
    Function.update_self i _ _
  refine ⟨h.reading, fun count hc heq k hseen hk => ?_, fun hasleep k hk => ?_⟩
  · rcases hpending k hk with hk | rfl
    · exact enqueued_update (h.fresh count hc heq k hseen hk) (by rw [hidle]; simp)
    · exact ⟨i, hself⟩
  · rcases hpending k hk with hk | rfl
    · exact owes_update (h.asleep hasleep k hk) fun ho => absurd (hidle ▸ ho) not_owes_idle
    · exact ⟨i, .inl hself⟩

theorem Sound.retract {pending : κ → Prop} {i : ι} {key : κ} (h : Sound s) :
    s.call i = .enqueued key → (∀ key', pending key' → s.pending key' ∧ key' ≠ key) →
    Sound { s with pending := pending, call := Function.update s.call i .idle } := by
  intro hcall hpending
  have hother : ∀ {k}, k ≠ key → ¬ (s.call i).Owes k := by
    rintro k hne (ho | ho)
    · exact hne (Call.enqueued.inj (ho.symm.trans hcall))
    · rw [hcall] at ho
      cases ho
  refine ⟨h.reading, fun count hc heq k hseen hk => ?_, fun hasleep k hk => ?_⟩
  · obtain ⟨hk, hne⟩ := hpending k hk
    exact enqueued_update (h.fresh count hc heq k hseen hk) fun ho => hother hne (.inl ho)
  · obtain ⟨hk, hne⟩ := hpending k hk
    exact owes_update (h.asleep hasleep k hk) fun ho => absurd ho (hother hne)

/-- After the increment no reading is fresh any more. -/
theorem Sound.increment {i : ι} {key : Option κ} (h : Sound s) :
    (s.call i = .idle ∧ key = none ∨ ∃ k, s.call i = .enqueued k ∧ key = some k) →
    Sound { s with count := s.count + 1, call := Function.update s.call i (.counted key) } := by
  intro hcall
  refine ⟨fun count hc => Nat.le_succ_of_le (h.reading count hc),
    fun count hc heq => ?_, fun hasleep k hk => ?_⟩
  · exact absurd (h.reading count hc) (by rw [← heq]; exact Nat.not_succ_le_self _)
  · refine owes_update (h.asleep hasleep k hk) fun ho => ?_
    rcases hcall with ⟨hidle, -⟩ | ⟨k', hk', rfl⟩
    · exact absurd (hidle ▸ ho) not_owes_idle
    · rcases ho with ho | ho
      · rw [Call.enqueued.inj (hk'.symm.trans ho)]
        exact .inr rfl
      · rw [hk'] at ho
        cases ho

theorem Sound.wake {i : ι} {key : Option κ} (h : Sound s) :
    s.call i = .counted key →
    Sound { s with phase := s.phase.woken, call := Function.update s.call i .idle } := by
  intro hcall
  refine ⟨fun count hc => h.reading count (by simpa using hc), fun count hc heq k hseen hk => ?_,
    fun hasleep => absurd hasleep (s.phase.not_isAsleep_woken)⟩
  have henqueued := h.fresh count (by simpa using hc) heq k (by simpa using hseen) hk
  exact enqueued_update henqueued (by rw [hcall]; simp)

omit [DecidableEq ι] in
/-- The consumer goes to sleep: the reading is fresh, so it will be woken. -/
theorem Sound.sleep {count : Nat} {seen : κ → Prop} (h : Sound s) :
    s.phase = .observed count seen → (∀ key, seen key) → s.count % m = count % m →
    s.count - count < m → Sound { s with phase := .asleep count } := by
  intro hphase hseen hmod hfew
  have hle : count ≤ s.count := h.reading count (by rw [hphase]; rfl)
  have heq : s.count = count := by
    have hzero : (s.count - count) % m = 0 := Nat.sub_mod_eq_zero_of_mod_eq hmod
    rw [Nat.mod_eq_of_lt hfew] at hzero
    omega
  have hpending : ∀ key, s.pending key → ∃ i, s.call i = .enqueued key := fun key hkey =>
    h.fresh count (by rw [hphase]; rfl) heq key (by rw [hphase]; exact hseen key) hkey
  refine ⟨fun c hc => ?_, fun _ _ _ key _ hkey => hpending key hkey,
    fun _ key hkey => (hpending key hkey).imp fun _ hi => .inl hi⟩
  rw [← Option.some.inj (show some count = some c from hc)]
  exact hle

/-- Every move keeps it. -/
theorem Move.sound : Move m s s' → Sound s → Sound s' := by
  intro hm h
  cases hm with
  | work hpending =>
      refine ⟨h.reading, fun count hc heq key hseen hkey => ?_, fun hasleep key hkey => ?_⟩
      · exact h.fresh count hc heq key hseen ((hpending key hkey).resolve_right fun hn => hn hseen)
      · refine h.asleep hasleep key ((hpending key hkey).resolve_right fun hn => hn ?_)
        cases hphase : s.phase with
        | asleep => exact trivial
        | working => rw [hphase] at hasleep; exact hasleep.elim
        | observed => rw [hphase] at hasleep; exact hasleep.elim
  | enqueue hidle hpending => exact h.enqueue hidle hpending
  | retract hcall hpending => exact h.retract hcall hpending
  | increment hcall => exact h.increment hcall
  | wake hcall => exact h.wake hcall
  | observe =>
      refine ⟨fun count hc => ?_, fun _ _ _ _ hseen => hseen.elim, fun hasleep => hasleep.elim⟩
      exact Nat.le_of_eq (Option.some.inj hc).symm
  | @look count seen seen' hphase hseen =>
      refine ⟨fun c hc => h.reading c (by rw [hphase]; exact hc),
        fun c hc heq key hkey hp => ?_, fun hasleep => hasleep.elim⟩
      have hold := (hseen key hkey).resolve_right fun hn => hn hp
      exact h.fresh c (by rw [hphase]; exact hc) heq key (by rw [hphase]; exact hold) hp
  | sleep hphase hseen hmod hfew => exact h.sleep hphase hseen hmod hfew
  | rouse =>
      exact ⟨fun count hc => h.reading count (by simpa using hc),
        fun count hc heq key hseen hp => h.fresh count (by simpa using hc) heq key
          (by simpa using hseen) hp,
        fun hasleep => absurd hasleep (s.phase.not_isAsleep_woken)⟩
  | leave =>
      refine ⟨fun count hc => ?_, fun _ _ _ _ hseen => hseen.elim, fun hasleep => hasleep.elim⟩
      cases hc

/-! ## Sequences of moves -/

/-- Nothing gets pending that the consumer has seen empty, and nobody notifies it. -/
theorem moves_work :
    s'.count = s.count → s'.phase = s.phase → s'.call = s.call →
    (∀ key, s'.pending key → s.pending key ∨ ¬ s.phase.Seen key) →
    Relation.ReflTransGen (Move m) s s' := by
  intro hcount hphase hcall hpending
  obtain ⟨count, phase, call, pending⟩ := s'
  obtain rfl : count = s.count := hcount
  obtain rfl : phase = s.phase := hphase
  obtain rfl : call = s.call := hcall
  exact .single (.work hpending)

/-- Nothing gets pending, and a producer goes on to the increment. -/
theorem moves_increment {i : ι} {key : Option κ} :
    s'.count = s.count + 1 → s'.phase = s.phase →
    s'.call = Function.update s.call i (.counted key) → (∀ k, s'.pending k → s.pending k) →
    (s.call i = .idle ∧ key = none ∨ ∃ k, s.call i = .enqueued k ∧ key = some k) →
    Relation.ReflTransGen (Move m) s s' := by
  intro hcount hphase hcall hpending hmay
  obtain ⟨count, phase, call, pending⟩ := s'
  obtain rfl : count = s.count + 1 := hcount
  obtain rfl : phase = s.phase := hphase
  obtain rfl : call = Function.update s.call i (.counted key) := hcall
  have hwork : Move m s { s with pending := pending } := .work fun k hk => .inl (hpending k hk)
  exact .tail (.single hwork) (.increment hmay)

/-- A producer enqueues and increments in one section. -/
theorem moves_push {i : ι} {key : κ} :
    s'.count = s.count + 1 → s'.phase = s.phase →
    s'.call = Function.update s.call i (.counted (some key)) →
    (∀ k, s'.pending k → s.pending k ∨ k = key) → s.call i = .idle →
    Relation.ReflTransGen (Move m) s s' := by
  intro hcount hphase hcall hpending hidle
  have henqueue : Move m s { s with
      pending := s'.pending, call := Function.update s.call i (.enqueued key) } :=
    .enqueue hidle hpending
  refine .trans (.single henqueue) ?_
  have hself : Function.update s.call i (.enqueued key) i = .enqueued key :=
    Function.update_self i _ _
  refine moves_increment hcount hphase ?_ (fun _ => id) (.inr ⟨key, hself, rfl⟩)
  rw [hcall, Function.update_idem]

/-- The consumer goes on with the reading it has. -/
theorem moves_look {count : Nat} {seen seen' : κ → Prop} :
    s'.count = s.count → s'.call = s.call → s'.pending = s.pending →
    s.phase = .observed count seen → s'.phase = .observed count seen' →
    (∀ key, seen' key → seen key ∨ ¬ s.pending key) → Relation.ReflTransGen (Move m) s s' := by
  intro hcount hcall hpending hphase hphase' hseen
  obtain ⟨_, phase, call, pending⟩ := s'
  obtain rfl : _ = s.count := hcount
  obtain rfl : call = s.call := hcall
  obtain rfl : pending = s.pending := hpending
  obtain rfl : phase = .observed count seen' := hphase'
  exact .single (.look hphase hseen)

/-- The consumer forgets its reading. -/
theorem moves_leave :
    s'.count = s.count → s'.call = s.call → s'.pending = s.pending → s'.phase = .working →
    Relation.ReflTransGen (Move m) s s' := by
  intro hcount hcall hpending hphase
  obtain ⟨count, phase, call, pending⟩ := s'
  obtain rfl : count = s.count := hcount
  obtain rfl : call = s.call := hcall
  obtain rfl : pending = s.pending := hpending
  obtain rfl : phase = .working := hphase
  exact .single .leave

theorem sound_of_moves : Relation.ReflTransGen (Move m) s s' → Sound s → Sound s' := by
  intro hm h
  induction hm with
  | refl => exact h
  | tail _ hmove ih => exact hmove.sound ih

end Sound

end Eventcount
