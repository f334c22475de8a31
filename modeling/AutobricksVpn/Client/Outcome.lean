/-
# `AutobricksVpn.Client.Outcome` — how a connection comes to its end

`run_connection` has one flag for all its threads, and a channel for the error
that explains why the flag was cleared.  Nothing is closed and nobody ends but
for a reason: the flag was cleared by a worker that reports an error, or by the
main thread, or the user has interrupted the client (`run_undisturbed`).  When
the main thread is done every worker has ended and every queue is closed, and
the result is an error that was reported, the silence of the server, or none
(`run_returns`).

A worker clears the flag before it sends its error.  The main thread may see the
one and leave before it could receive the other, so `Ok(())` does not say that
nothing has failed.
-/
import AutobricksVpn.Client.Workers

namespace AutobricksVpn

namespace ClientTunnel

/-! ## The cleanup -/

/-- The main thread has done this. -/
def State.Done (s : State) : Cleanup → Prop
  | .store => s.shared.active = false
  | .close name => (s.shared.queues name).queue.closed = true
  | .notify => True
  | .join thread => s.phase thread = .ended
  | .stopEncrypt => s.shared.encryptStop = true

/-- The main thread has cleared `active`. -/
def MainPc.Stored : MainPc → Prop
  | .cleanup _ rest => Cleanup.store ∉ rest
  | _ => False

theorem mem_cleanup (op : Cleanup) : op ∈ cleanup := by
  cases op with
  | close name => cases name <;> decide
  | join thread => cases thread <;> decide
  | store | notify | stopEncrypt => decide

theorem store_not_mem {op : Cleanup} {rest : List Cleanup} :
    op :: rest <:+ cleanup → Cleanup.store ∉ rest := by
  intro h
  have htail : Cleanup.store ∉ cleanup.tail := by decide
  rcases List.suffix_cons_iff.mp h with heq | hsuffix
  · rw [(List.cons.inj heq).2]
    exact htail
  · exact fun hmem => htail (hsuffix.subset (List.mem_cons_of_mem _ hmem))

theorem store_not_mem_cons {op : Cleanup} {rest : List Cleanup} (hop : op ≠ .store) :
    op :: rest <:+ cleanup → Cleanup.store ∉ op :: rest := by
  intro h hmem
  rcases List.mem_cons.mp hmem with heq | hrest
  · exact hop heq.symm
  · exact store_not_mem h hrest

theorem not_stored_start {result : Except IoError Unit} :
    ¬ (MainPc.cleanup result cleanup).Stored := by
  intro hstored
  exact hstored (mem_cleanup .store)

theorem not_loops_of_stored {pc : MainPc} : pc.Stored → ¬ pc.Loops := by
  cases pc <;> exact fun hstored hloops => by first | exact hstored | exact hloops

theorem ended_iff {s : State} {thread : Thread} :
    s.ended thread = true ↔ s.phase thread = .ended := by
  cases thread with
  | udpRead => cases h : s.udpRead <;> simp [State.ended, State.phase, UdpReadPc.phase, h]
  | tunRead => cases h : s.tunRead <;> simp [State.ended, State.phase, TunReadPc.phase, h]
  | decrypt => cases h : s.decrypt.pc <;> simp [State.ended, State.phase, DecryptPc.phase, h]
  | tunWrite => cases h : s.tunWrite <;> simp [State.ended, State.phase, TunWritePc.phase, h]
  | encrypt => cases h : s.encrypt <;> simp [State.ended, State.phase, EncryptPc.phase, h]
  | udpWrite => cases h : s.udpWrite <;> simp [State.ended, State.phase, UdpWritePc.phase, h]

/-- What one action of the cleanup does. -/
theorem cleanupStep_done {s : State} {op : Cleanup} {sh : Shared} {m : Main} {evs : List Event} :
    cleanupStep s.ended s.shared op = some (sh, evs) →
    State.Done { s with shared := sh, main := m } op := by
  cases op with
  | store =>
      intro h
      obtain ⟨rfl, -⟩ := Prod.mk.inj (Option.some.inj h)
      rfl
  | close name =>
      intro h
      simp only [cleanupStep] at h
      split at h
      · cases h
      · rename_i hcall
        obtain ⟨rfl, -⟩ := Prod.mk.inj (Option.some.inj h)
        show (Shared.queues _ name).queue.closed = true
        rw [(QueueRun.step_frame (call_self hcall)).2.2]
        exact Bool.or_true _
  | notify => exact fun _ => trivial
  | join thread =>
      intro h
      simp only [cleanupStep] at h
      split at h
      · rename_i hended
        exact ended_iff.mp hended
      · cases h
  | stopEncrypt =>
      intro h
      obtain ⟨rfl, -⟩ := Prod.mk.inj (Option.some.inj h)
      rfl

/-! ## What stays -/

section Stays

variable {ended : Thread → Bool} {sh sh' : Shared} {s s' : State} {role : Role}
  {evs : List Event} {op : Cleanup}

theorem cleanupStep_active :
    cleanupStep ended sh op = some (sh', evs) → sh.active = false → sh'.active = false := by
  fun_cases cleanupStep ended sh op
  all_goals rintro ⟨⟩
  case case1 => exact fun _ => rfl
  case case3 hcall =>
      obtain ⟨queue, -, rfl⟩ := call_some hcall
      exact id
  all_goals exact id

theorem cleanupStep_encryptStop :
    cleanupStep ended sh op = some (sh', evs) → sh.encryptStop = true → sh'.encryptStop = true := by
  fun_cases cleanupStep ended sh op
  all_goals rintro ⟨⟩
  case case3 hcall =>
      obtain ⟨queue, -, rfl⟩ := call_some hcall
      exact id
  case case7 => exact fun _ => rfl
  all_goals exact id

theorem Effect.active {thread : Thread} {phase phase' : Phase}
    (h : Effect thread sh phase sh' phase' evs) : sh.active = false → sh'.active = false := by
  cases h with
  | work hquiet | quit hquiet | leave hquiet => exact fun h => hquiet.active.trans h
  | fail | send => exact id
  | store => exact fun _ => rfl
  | close hcall =>
      obtain ⟨queue, -, rfl⟩ := call_some hcall
      exact id

theorem MainEffect.active {pc pc' : MainPc} (h : MainEffect ended sh pc sh' pc' evs) :
    sh.active = false → sh'.active = false := by
  cases h with
  | work _ _ hquiet | leave _ hquiet => exact fun h => hquiet.active.trans h
  | receive => exact id
  | cleanup hstep => exact cleanupStep_active hstep

theorem MainEffect.running {pc pc' : MainPc} (h : MainEffect ended sh pc sh' pc' evs) :
    sh'.running = sh.running := by
  cases h with
  | work _ _ hquiet | leave _ hquiet => exact hquiet.running
  | receive => rfl
  | cleanup hstep => exact (cleanupStep_frame hstep).running

theorem MainEffect.encryptStop {pc pc' : MainPc} (h : MainEffect ended sh pc sh' pc' evs) :
    sh.encryptStop = true → sh'.encryptStop = true := by
  cases h with
  | work _ _ hquiet | leave _ hquiet => exact fun h => hquiet.encryptStop.trans h
  | receive => exact id
  | cleanup hstep => exact cleanupStep_encryptStop hstep

theorem StepEffect.active (h : StepEffect s role s' evs) :
    s.shared.active = false → s'.shared.active = false := by
  cases h with
  | tick | interrupt => exact id
  | dtlsSend hcall => exact fun h => (call_quiet hcall rfl rfl).active.trans h
  | worker heffect => exact heffect.active
  | main heffect => exact heffect.active

theorem StepEffect.running (h : StepEffect s role s' evs) :
    s.shared.running = false → s'.shared.running = false := by
  cases h with
  | tick => exact id
  | interrupt => exact fun _ => rfl
  | dtlsSend hcall => exact fun h => (call_quiet hcall rfl rfl).running.trans h
  | worker heffect => exact fun h => heffect.frame.running.trans h
  | main heffect => exact fun h => heffect.running.trans h

theorem StepEffect.encryptStop (h : StepEffect s role s' evs) :
    s.shared.encryptStop = true → s'.shared.encryptStop = true := by
  cases h with
  | tick | interrupt => exact id
  | dtlsSend hcall => exact fun h => (call_quiet hcall rfl rfl).encryptStop.trans h
  | worker heffect => exact fun h => heffect.frame.encryptStop.trans h
  | main heffect => exact heffect.encryptStop

theorem continues_false_iff {sh : Shared} :
    sh.continues = false ↔ sh.running = false ∨ sh.active = false :=
  Bool.and_eq_false_iff

theorem StepEffect.continues (h : StepEffect s role s' evs) :
    s.shared.continues = false → s'.shared.continues = false := by
  intro hs
  rcases continues_false_iff.mp hs with hrunning | hactive
  · exact continues_false_iff.mpr (.inl (h.running hrunning))
  · exact continues_false_iff.mpr (.inr (h.active hactive))

theorem QueueStep.closed {name : QueueName} {q q' : QueueRun.Shared name.Item}
    {evs : List (QueueRun.Event name.Item)} :
    QueueStep role name q q' evs → q.queue.closed = true → q'.queue.closed = true := by
  rintro (⟨rfl, -⟩ | ⟨a, -, hstep⟩) hclosed
  · exact hclosed
  · rw [(QueueRun.step_frame hstep).2.2, hclosed, Bool.true_or]

theorem StepEffect.stays_ended (h : StepEffect s role s' evs) {thread : Thread} :
    s.phase thread = .ended → s'.phase thread = .ended := by
  cases h with
  | tick | interrupt | dtlsSend | main => exact id
  | @worker _ _ thread' heffect hother hmain =>
      intro hended
      by_cases hthread : thread = thread'
      · subst hthread
        rw [hended] at heffect
        cases heffect
      · rw [hother thread hthread, hended]

theorem StepEffect.done (h : StepEffect s role s' evs) : s.Done op → s'.Done op := by
  cases op with
  | store => exact h.active
  | close name => exact (h.carries.queue name).closed
  | notify => exact id
  | join thread => exact h.stays_ended
  | stopEncrypt => exact h.encryptStop

end Stays

/-! ## The invariants -/

/-- What is still to do of the cleanup is the end of it, and the rest is done. -/
def State.Cleaned (s : State) : Prop :=
  ∀ result rest, s.main.pc = .cleanup result rest →
    ∃ before, before ++ rest = cleanup ∧ ∀ op ∈ before, s.Done op

theorem State.Cleaned.suffix {s : State} (h : s.Cleaned) {result : Except IoError Unit}
    {rest : List Cleanup} (hpc : s.main.pc = .cleanup result rest) : rest <:+ cleanup := by
  obtain ⟨before, hbefore, -⟩ := h result rest hpc
  exact ⟨before, hbefore⟩

/-- Everything is done in the end. -/
theorem State.Cleaned.done {s : State} (h : s.Cleaned) {result : Except IoError Unit}
    (hpc : s.main.pc = .cleanup result []) (op : Cleanup) : s.Done op := by
  obtain ⟨before, hbefore, hdone⟩ := h result [] hpc
  rw [List.append_nil] at hbefore
  exact hdone op (hbefore ▸ mem_cleanup op)

/-- Signs that the connection is coming to its end. -/
inductive State.Winding (s : State) : Prop
  | closed {name : QueueName} : (s.shared.queues name).queue.closed = true → Winding s
  | stop : s.shared.encryptStop = true → Winding s
  | sending {thread : Thread} {error : IoError} : s.phase thread = .sending error → Winding s
  | closing {thread : Thread} : s.phase thread = .closing → Winding s
  | stored : s.main.pc.Stored → Winding s

section Invariants

variable {role : Role} {s s' : State} {evs log : List Event}

theorem StepEffect.cleaned (h : StepEffect s role s' evs) : s.Cleaned → s'.Cleaned := by
  intro hs
  have hkeep : s'.main.pc = s.main.pc → s'.Cleaned := by
    intro hmain result rest hpc
    obtain ⟨before, hbefore, hdone⟩ := hs result rest (hmain.symm.trans hpc)
    exact ⟨before, hbefore, fun op hop => h.done (hdone op hop)⟩
  have hdone : ∀ op, s.Done op → s'.Done op := fun _ => h.done
  cases h with
  | tick | interrupt | dtlsSend => exact hkeep rfl
  | worker _ _ hmain => exact hkeep (congrArg Main.pc hmain)
  | @main sh m _ heffect =>
      intro result rest (hpc : m.pc = _)
      rw [hpc] at heffect
      generalize hbefore : s.main.pc = before at heffect
      cases heffect with
      | work _ hloops => exact hloops.elim
      | leave | receive => exact ⟨[], rfl, fun op hop => absurd hop List.not_mem_nil⟩
      | @cleanup _ op _ _ _ hstep =>
          obtain ⟨before, hcleanup, hdone'⟩ := hs result (op :: rest) hbefore
          refine ⟨before ++ [op], by rw [← hcleanup, List.append_assoc]; rfl, fun op' hop' => ?_⟩
          rcases List.mem_append.mp hop' with hop' | hop'
          · exact hdone op' (hdone' op' hop')
          · rw [List.mem_singleton.mp hop']
            exact cleanupStep_done hstep

theorem State.Winding.of_step (h : s'.Winding)
    (hclosed : ∀ name, (s'.shared.queues name).queue.closed = (s.shared.queues name).queue.closed)
    (hstop : s'.shared.encryptStop = s.shared.encryptStop)
    (hphase : ∀ thread, s'.phase thread = s.phase thread ∨
      (∀ error, s'.phase thread ≠ .sending error) ∧ s'.phase thread ≠ .closing)
    (hstored : s'.main.pc.Stored → s.main.pc.Stored) : s.Winding := by
  cases h with
  | closed h => exact .closed ((hclosed _).symm.trans h)
  | stop h => exact .stop (hstop.symm.trans h)
  | sending h =>
      rcases hphase _ with heq | ⟨hne, -⟩
      · exact .sending (heq.symm.trans h)
      · exact absurd h (hne _)
  | closing h =>
      rcases hphase _ with heq | ⟨-, hne⟩
      · exact .closing (heq.symm.trans h)
      · exact absurd h hne
  | stored h => exact .stored (hstored h)

/-- Nothing winds the connection up before the flag was cleared. -/
theorem StepEffect.winding (h : StepEffect s role s' evs) :
    s.Cleaned → (s.Winding → s.shared.active = false) → s'.Winding → s'.shared.active = false := by
  intro hcleaned hs hwinding
  by_cases hactive : s.shared.active = false
  · exact h.active hactive
  have hnot : ¬ s.Winding := fun hwinding => hactive (hs hwinding)
  cases h with
  | tick | interrupt =>
      refine (hnot ?_).elim
      exact hwinding.of_step (fun _ => rfl) rfl (fun _ => .inl rfl) id
  | dtlsSend hcall =>
      have hquiet : Quiet .wolfSsl s.shared _ _ := call_quiet hcall rfl rfl
      refine (hnot ?_).elim
      exact hwinding.of_step hquiet.closed hquiet.encryptStop (fun _ => .inl rfl) id
  | @worker _ _ thread heffect hother hmain =>
      have hphase : (∀ error, s'.phase thread ≠ .sending error) ∧ s'.phase thread ≠ .closing →
          ∀ t, s'.phase t = s.phase t ∨
            (∀ error, s'.phase t ≠ .sending error) ∧ s'.phase t ≠ .closing := by
        intro hthread t
        by_cases heq : t = thread
        · subst heq
          exact .inr hthread
        · exact .inl (hother t heq)
      have hstored : s'.main.pc.Stored → s.main.pc.Stored := by rw [hmain]; exact id
      have hquietly : Quiet (.worker thread) s.shared s'.shared evs →
          (∀ error, s'.phase thread ≠ .sending error) ∧ s'.phase thread ≠ .closing →
          s'.shared.active = false := fun hquiet hthread =>
        (hnot (hwinding.of_step hquiet.closed hquiet.encryptStop (hphase hthread) hstored)).elim
      generalize hbefore : s.phase thread = before at heffect
      generalize hafter : s'.phase thread = after at heffect hquietly
      generalize s'.shared = sh' at heffect hquietly
      cases heffect with
      | work hquiet | leave hquiet => exact hquietly hquiet (by simp)
      | quit hquiet _ hleft => rcases hleft with rfl | rfl <;> exact hquietly hquiet (by simp)
      | fail => exact hquietly (.refl _ _) (by simp)
      | store => rfl
      | send => exact absurd (.sending hbefore) hnot
      | close => exact absurd (.closing hbefore) hnot
  | @main sh m _ heffect =>
      generalize hbefore : s.main.pc = before at heffect
      generalize hafter : m.pc = after at heffect
      cases heffect with
      | work _ hloops hquiet =>
          refine (hnot ?_).elim
          refine hwinding.of_step hquiet.closed hquiet.encryptStop (fun _ => .inl rfl) ?_
          exact fun hstored => (not_loops_of_stored (hafter ▸ hstored) hloops).elim
      | leave _ hquiet =>
          refine (hnot ?_).elim
          refine hwinding.of_step hquiet.closed hquiet.encryptStop (fun _ => .inl rfl) ?_
          exact fun hstored => (not_stored_start (hafter ▸ hstored)).elim
      | receive =>
          refine (hnot ?_).elim
          refine hwinding.of_step (fun _ => rfl) rfl (fun _ => .inl rfl) ?_
          exact fun hstored => (not_stored_start (hafter ▸ hstored)).elim
      | @cleanup _ op _ _ _ hstep =>
          have hsuffix := hcleaned.suffix hbefore
          by_cases hop : op = .store
          · subst hop
            exact cleanupStep_done hstep
          · refine absurd (.stored ?_) hnot
            rw [hbefore]
            exact store_not_mem_cons hop hsuffix

/-- Before the flag was cleared there is no reason to end. -/
theorem continues_of_stops (hs : s.Winding → s.shared.active = false) :
    s.shared.Stops → s.shared.continues = false := by
  rintro (hcontinues | hstop | ⟨name, hclosed⟩)
  · exact hcontinues
  · exact continues_false_iff.mpr (.inr (hs (.stop hstop)))
  · exact continues_false_iff.mpr (.inr (hs (.closed hclosed)))

/-- A worker leaves its loop only when the flags say so. -/
theorem StepEffect.quits (h : StepEffect s role s' evs)
    (hwinding : s.Winding → s.shared.active = false) {t : Thread}
    (hs : s.phase t = .leaving ∨ s.phase t = .ended → s.shared.continues = false) :
    s'.phase t = .leaving ∨ s'.phase t = .ended → s'.shared.continues = false := by
  intro ht
  refine h.continues ?_
  cases h with
  | tick | interrupt | dtlsSend | main => exact hs ht
  | @worker _ _ thread heffect hother hmain =>
      by_cases hthread : t = thread
      · subst hthread
        generalize hbefore : s.phase t = before at heffect
        generalize s'.phase t = after at heffect ht
        generalize s'.shared = sh' at heffect
        cases heffect with
        | work | fail | store => rcases ht with ht | ht <;> cases ht
        | quit _ hstops => exact continues_of_stops hwinding hstops
        | send => exact continues_false_iff.mpr (.inr (hwinding (.sending hbefore)))
        | close => exact continues_false_iff.mpr (.inr (hwinding (.closing hbefore)))
        | leave => exact hs (.inl hbefore)
      · rw [hother t hthread] at ht
        exact hs ht

theorem StepEffect.stored (h : StepEffect s role s' evs) :
    s.main.pc.Stored → s'.main.pc.Stored := by
  intro hstored
  cases h with
  | tick | interrupt | dtlsSend => exact hstored
  | worker _ _ hmain => rw [hmain]; exact hstored
  | @main sh m _ heffect =>
      generalize s.main.pc = before at heffect hstored
      generalize m.pc = after at heffect
      cases heffect with
      | work hloops | leave hloops => exact (not_loops_of_stored hstored hloops).elim
      | receive => exact hstored.elim
      | cleanup =>
          exact fun hmem => hstored (List.mem_cons_of_mem _ hmem)

/-- Some worker has cleared the flag and is about to send its error. -/
def State.Sending (s : State) : Prop := ∃ thread error, s.phase thread = .sending error

theorem StepEffect.sending (h : StepEffect s role s' evs) :
    s.Sending → s'.Sending ∨ failures evs ≠ [] := by
  rintro ⟨t, error, ht⟩
  cases h with
  | tick | interrupt | dtlsSend | main => exact .inl ⟨t, error, ht⟩
  | @worker _ _ thread heffect hother hmain =>
      by_cases hthread : t = thread
      · subst hthread
        rw [ht] at heffect
        generalize s'.phase t = after at heffect
        generalize s'.shared = sh' at heffect
        cases heffect with
        | send => exact .inr (List.cons_ne_nil _ _)
      · exact .inl ⟨t, error, (hother t hthread).trans ht⟩

/-- As long as no error was sent: nobody closes a queue but the main thread, and
the flag was cleared by it or by a worker that is about to send its error. -/
structure State.Unheard (s : State) : Prop where
  closing : ∀ thread, s.phase thread ≠ .closing
  closed : ∀ name, (s.shared.queues name).queue.closed = true → s.main.pc.Stored
  inactive : s.shared.active = false → s.main.pc.Stored ∨ s.Sending

theorem State.Unheard.of_step (h : s.Unheard) (hstep : StepEffect s role s' evs)
    (hevs : failures evs = [])
    (hclosed : ∀ name, (s'.shared.queues name).queue.closed = (s.shared.queues name).queue.closed)
    (hactive : s'.shared.active = s.shared.active)
    (hphase : ∀ thread, s'.phase thread = .closing → s.phase thread = .closing) : s'.Unheard where
  closing thread hthread := h.closing thread (hphase thread hthread)
  closed name hname := hstep.stored (h.closed name ((hclosed name).symm.trans hname))
  inactive hinactive := by
    rcases h.inactive (hactive.symm.trans hinactive) with hstored | hsending
    · exact .inl (hstep.stored hstored)
    · exact .inr ((hstep.sending hsending).resolve_right (not_not_intro hevs))

theorem StepEffect.unheard (h : StepEffect s role s' evs) (hevs : failures evs = []) :
    s.Cleaned → s.Unheard → s'.Unheard := by
  intro hcleaned hs
  have hstep := h
  cases h with
  | tick | interrupt => exact hs.of_step hstep hevs (fun _ => rfl) rfl fun _ => id
  | dtlsSend hcall =>
      have hquiet : Quiet .wolfSsl s.shared _ _ := call_quiet hcall rfl rfl
      exact hs.of_step hstep hevs hquiet.closed hquiet.active fun _ => id
  | @worker _ _ thread heffect hother hmain =>
      have hphase : s'.phase thread ≠ .closing →
          ∀ t, s'.phase t = .closing → s.phase t = .closing := by
        intro hthread t ht
        by_cases heq : t = thread
        · exact absurd (heq ▸ ht) hthread
        · exact (hother t heq).symm.trans ht
      generalize hbefore : s.phase thread = before at heffect
      generalize hafter : s'.phase thread = after at heffect hphase
      generalize hsh : s'.shared = sh' at heffect
      cases heffect with
      | work hquiet | leave hquiet =>
          rw [← hsh] at hquiet
          exact hs.of_step hstep hevs hquiet.closed hquiet.active (hphase (by simp))
      | quit hquiet _ hleft =>
          rw [← hsh] at hquiet
          refine hs.of_step hstep hevs hquiet.closed hquiet.active (hphase ?_)
          rcases hleft with rfl | rfl <;> simp
      | fail =>
          exact hs.of_step hstep hevs (fun _ => by rw [hsh]) (by rw [hsh]) (hphase (by simp))
      | store =>
          exact
            { closing := fun t ht => hs.closing t (hphase (by simp) t ht)
              closed := fun name hname => hstep.stored (hs.closed name (by rw [hsh] at hname; exact hname))
              inactive := fun _ => .inr ⟨thread, _, hafter⟩ }
      | send => exact absurd hevs (List.cons_ne_nil _ _)
      | close => exact absurd hbefore (hs.closing thread)
  | @main sh m _ heffect =>
      generalize hbefore : s.main.pc = before at heffect
      generalize hafter : m.pc = after at heffect
      cases heffect with
      | work _ _ hquiet | leave _ hquiet =>
          exact hs.of_step hstep hevs hquiet.closed hquiet.active fun _ => id
      | receive => exact hs.of_step hstep hevs (fun _ => rfl) rfl fun _ => id
      | cleanup =>
          have hstored : m.pc.Stored := by
            rw [hafter]
            exact store_not_mem (hcleaned.suffix hbefore)
          exact ⟨hs.closing, fun _ _ => hstored, fun _ => .inl hstored⟩

/-- The channel holds the errors sent, but for the one that the main thread has
received. -/
def State.Channel (log : List Event) (s : State) : Prop :=
  failures log = s.shared.errors ∨
    ∃ error rest, s.main.pc = .cleanup (.error error) rest ∧
      failures log = error :: s.shared.errors

theorem StepEffect.channel (h : StepEffect s role s' evs) :
    s.Channel log → s'.Channel (log ++ evs) := by
  intro hs
  have hkeep : s'.main.pc = s.main.pc → s'.shared.errors = s.shared.errors ++ failures evs →
      s'.Channel (log ++ evs) := by
    intro hmain herrors
    rw [State.Channel, failures_append, herrors, hmain]
    rcases hs with hlog | ⟨error, rest, hpc, hlog⟩
    · exact .inl (by rw [hlog])
    · exact .inr ⟨error, rest, hpc, by rw [hlog]; rfl⟩
  have hquietly : ∀ role, Quiet role s.shared s'.shared evs →
      s'.shared.errors = s.shared.errors ++ failures evs := fun role hquiet => by
    rw [hquiet.failures, List.append_nil, hquiet.errors]
  cases h with
  | tick | interrupt => exact hkeep rfl (List.append_nil _).symm
  | dtlsSend hcall => exact hkeep rfl (hquietly .wolfSsl (call_quiet hcall rfl rfl))
  | @worker _ _ thread heffect hother hmain =>
      refine hkeep (congrArg Main.pc hmain) ?_
      generalize s.phase thread = before at heffect
      generalize s'.phase thread = after at heffect
      generalize s'.shared = sh' at heffect hquietly
      cases heffect with
      | work hquiet | quit hquiet | leave hquiet => exact hquietly _ hquiet
      | fail | store => exact (List.append_nil _).symm
      | send => rfl
      | close hcall =>
          obtain ⟨queue, -, rfl⟩ := call_some hcall
          rw [failures_map, List.append_nil]
  | @main sh m _ heffect =>
      have hfresh : s.main.pc.Loops → failures log = s.shared.errors := by
        intro hloops
        rcases hs with hlog | ⟨error, rest, hpc, -⟩
        · exact hlog
        · rw [hpc] at hloops
          exact hloops.elim
      generalize hbefore : s.main.pc = before at heffect hfresh
      generalize hafter : m.pc = after at heffect
      rw [State.Channel, failures_append]
      cases heffect with
      | work hloops _ hquiet | leave hloops hquiet =>
          exact .inl (by rw [hquiet.failures, hquiet.errors, hfresh hloops, List.append_nil])
      | receive herrors =>
          refine .inr ⟨_, cleanup, hafter, ?_⟩
          rw [hfresh trivial, herrors]
          exact List.append_nil _
      | cleanup hstep =>
          have hframe := cleanupStep_frame hstep
          rw [hframe.failures, List.append_nil, hframe.errors]
          rcases hs with hlog | ⟨error, rest, hpc, hlog⟩
          · exact .inl hlog
          · rw [hbefore] at hpc
            obtain ⟨rfl, -⟩ := MainPc.cleanup.inj hpc
            exact .inr ⟨error, _, hafter, hlog⟩

/-- What the result of the loop stands for. -/
def State.Verdict (log : List Event) (s : State) : Except IoError Unit → Prop
  | .ok () => s.shared.running = false ∨ s.Sending ∨ failures log ≠ []
  | .error error =>
      error = notResponding ∨ (failures log).head? = some error ∨
        error = rawTxClosed ∧ failures log ≠ []

theorem StepEffect.verdict_stays (h : StepEffect s role s' evs) {result : Except IoError Unit} :
    s.Verdict log result → s'.Verdict (log ++ evs) result := by
  have hgrows : failures log ≠ [] → failures (log ++ evs) ≠ [] := by
    rw [failures_append]
    exact fun hne => List.append_ne_nil_of_left_ne_nil hne _
  cases result with
  | ok _ =>
      rintro (hrunning | hsending | hne)
      · exact .inl (h.running hrunning)
      · rcases h.sending hsending with hsending | hne
        · exact .inr (.inl hsending)
        · refine .inr (.inr ?_)
          rw [failures_append]
          exact List.append_ne_nil_of_right_ne_nil _ hne
      · exact .inr (.inr (hgrows hne))
  | error error =>
      rintro (hsilent | hhead | ⟨hrefused, hne⟩)
      · exact .inl hsilent
      · refine .inr (.inl ?_)
        rw [failures_append, List.head?_append, hhead]
        rfl
      · exact .inr (.inr ⟨hrefused, hgrows hne⟩)

/-- The loop is left for a reason. -/
theorem verdict_of_reason {result : Except IoError Unit} (hloops : s.main.pc.Loops)
    (hs : failures log = [] → s.Unheard) : Reason s.shared result → s.Verdict log result := by
  have hstored : ¬ s.main.pc.Stored := fun hstored => not_loops_of_stored hstored hloops
  intro hreason
  cases hreason with
  | stopped hcontinues =>
      rcases continues_false_iff.mp hcontinues with hrunning | hactive
      · exact .inl hrunning
      · by_cases hlog : failures log = []
        · exact .inr (.inl (((hs hlog).inactive hactive).resolve_left hstored))
        · exact .inr (.inr hlog)
  | silent => exact .inl rfl
  | refused hclosed => exact .inr (.inr ⟨rfl, fun hlog => hstored ((hs hlog).closed _ hclosed)⟩)

/-- Everything that holds in every state. -/
structure State.Sound (log : List Event) (s : State) : Prop where
  cleaned : s.Cleaned
  winding : s.Winding → s.shared.active = false
  quits : ∀ thread, s.phase thread = .leaving ∨ s.phase thread = .ended →
    s.shared.continues = false
  unheard : failures log = [] → s.Unheard
  channel : s.Channel log
  verdict : ∀ result rest, s.main.pc = .cleanup result rest → s.Verdict log result

theorem StepEffect.verdict (h : StepEffect s role s' evs) (hs : s.Sound log) :
    ∀ result rest, s'.main.pc = .cleanup result rest → s'.Verdict (log ++ evs) result := by
  intro result rest hpc
  refine h.verdict_stays ?_
  cases h with
  | tick | interrupt | dtlsSend => exact hs.verdict result rest hpc
  | worker _ _ hmain => exact hs.verdict result rest ((congrArg Main.pc hmain).symm.trans hpc)
  | @main sh m _ heffect =>
      have hpc : m.pc = .cleanup result rest := hpc
      rw [hpc] at heffect
      generalize hbefore : s.main.pc = before at heffect
      cases heffect with
      | work _ hloops => exact hloops.elim
      | leave hloops _ hreason => exact verdict_of_reason (hbefore ▸ hloops) hs.unheard hreason
      | receive herrors =>
          refine .inr (.inl ?_)
          rcases hs.channel with hlog | ⟨error, rest, hcleanup, -⟩
          · rw [hlog, herrors]
            rfl
          · rw [hcleanup] at hbefore
            cases hbefore
      | cleanup => exact hs.verdict result _ hbefore

theorem StepEffect.sound (h : StepEffect s role s' evs) (hs : s.Sound log) :
    s'.Sound (log ++ evs) where
  cleaned := h.cleaned hs.cleaned
  winding := h.winding hs.cleaned hs.winding
  quits thread := h.quits hs.winding (hs.quits thread)
  unheard hlog := by
    rw [failures_append, List.append_eq_nil_iff] at hlog
    exact h.unheard hlog.2 hs.cleaned (hs.unheard hlog.1)
  channel := h.channel hs.channel
  verdict := h.verdict hs

end Invariants

/-! ## Runs -/

section Runs

variable {configured : Duration} {running : Bool} {now : Instant} {G : State → Act → Prop}
  {as : List Act} {log : List Event} {s : State}

theorem start_phase (running : Bool) (now : Instant) (thread : Thread) :
    (State.start running now).phase thread = .working := by
  cases thread <;> rfl

theorem start_sound (running : Bool) (now : Instant) : (State.start running now).Sound [] where
  cleaned result rest hpc := by cases hpc
  winding h := by
    cases h with
    | closed h => cases h
    | stop h => cases h
    | sending h => rw [start_phase] at h; cases h
    | closing h => rw [start_phase] at h; cases h
    | stored h => exact h.elim
  quits thread h := by
    rw [start_phase] at h
    rcases h with h | h <;> cases h
  unheard _ :=
    { closing := fun thread h => by rw [start_phase] at h; cases h
      closed := fun _ h => by cases h
      inactive := fun h => by cases h }
  channel := .inl rfl
  verdict result rest hpc := by cases hpc

theorem run_sound (h : (machine configured running now).Run G as log s) : s.Sound log :=
  h.invariant (fun log s => s.Sound log) (start_sound running now)
    fun hs _ hstep => (step_effect hstep).sound hs

/-- `Ok(())` tells of an interrupt, or of a worker's error; no error was received. -/
theorem stopped_or_failed (h : (machine configured running now).Run G as log s)
    (hpc : s.main.pc = .cleanup (.ok ()) []) :
    s.shared.errors = failures log ∧ (s.shared.running = false ∨ failures log ≠ []) := by
  have hs := run_sound h
  constructor
  · rcases hs.channel with hlog | ⟨error, rest, hcleanup, -⟩
    · exact hlog.symm
    · rw [hcleanup] at hpc
      cases hpc
  · refine (hs.verdict (.ok ()) [] hpc).imp_right fun hfailed => hfailed.resolve_left ?_
    rintro ⟨thread, error, hsending⟩
    exact Phase.noConfusion (hsending.symm.trans (hs.cleaned.done hpc (.join thread)))

/-- When `run_connection` returns, every worker has ended and every queue is
closed.  An error it returns is the first that a worker has sent, or the silence
of the server, or the closed queue that a worker has left behind with an error of
its own.  It returns `Ok(())` after an interrupt, and also when a worker has
failed whose error nobody has received. -/
theorem run_returns (h : (machine configured running now).Run G as log s)
    {result : Except IoError Unit} (hpc : s.main.pc = .cleanup result []) :
    (∀ thread, s.phase thread = .ended) ∧
      (∀ name, (s.shared.queues name).queue.closed = true) ∧
      (result = .ok () → s.shared.errors = failures log ∧
        (s.shared.running = false ∨ failures log ≠ [])) ∧
      ∀ error, result = .error error →
        error = notResponding ∨ (failures log).head? = some error ∨
          error = rawTxClosed ∧ failures log ≠ [] := by
  have hs := run_sound h
  have hdone : ∀ op, s.Done op := hs.cleaned.done hpc
  have hverdict := hs.verdict result [] hpc
  refine ⟨fun thread => hdone (.join thread), fun name => hdone (.close name), ?_, ?_⟩
  · rintro rfl
    exact stopped_or_failed h hpc
  · rintro error rfl
    exact hverdict

/-- `udp_read` clears the flag, and the main thread has seen it before the error
is sent. -/
def racedActs : List Act :=
  [.udpRead .go, .udpRead (.poll .ready),
    .udpRead (.recv (.error (IoError.new .other "Connection refused"))), .udpRead .go, .main,
    .udpRead .go, .udpRead .go, .tunRead .go, .decrypt .go, .tunWrite .go, .udpWrite .go, .main,
    .main, .main, .main, .main, .main, .main, .main, .main, .encrypt .go, .main, .main, .main,
    .main, .main]

def raced : State × List Event :=
  (machine (Duration.fromSecs 25) true 0).outcome (fun _ _ => true) racedActs

theorem run_returns_raced :
    raced.1.shared.running = true ∧ raced.1.shared.errors = failures raced.2 ∧
      failures raced.2 = [IoError.new .other "Connection refused"] := by
  have hrun : (machine (Duration.fromSecs 25) true 0).Run Machine.Free racedActs raced.2 raced.1 :=
    Machine.run_outcome (fun _ _ _ => trivial) (by decide +kernel)
  have hpc : raced.1.main.pc = .cleanup (.ok ()) [] := rfl
  exact ⟨by decide +kernel, ((run_returns hrun hpc).2.2.1 rfl).1, by decide +kernel⟩

end Runs

end ClientTunnel

end AutobricksVpn
