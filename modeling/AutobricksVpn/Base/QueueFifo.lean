/-
# `AutobricksVpn.Base.QueueFifo` — order, bound and closing of the shared queue

For every capacity, every interleaving of the calls of `QueueRun` and every
state reached:

    |items| ≤ c
    delivered <+ accepted,  and stamps increase along accepted
    closed  ⟹  items = [],  every push is refused with its item, and from here
               on at most the outstanding reservation is delivered

The invariant is one line, `delivered ++ contents <+ accepted`: an item that is
reserved, restored or overtaken by pushes keeps its place between what was
delivered before it and what is queued behind it.
-/
import AutobricksVpn.Base.QueueRun

namespace AutobricksVpn.QueueRun

variable {α : Type}

/-! ## One call keeps the order -/

/-- Deliveries come off the front of what is in flight, acceptances join at
the back, and whatever leaves in between leaves no trace. -/
theorem step_contents {s s' : Shared α} {evs : List (Event α)} {a : Act α}
    (h : step s a = some (s', evs)) :
    (delivered evs ++ s'.contents).Sublist (s.contents ++ accepted evs) := by
  cases step_effect h with
  | quiet _ hc => rw [hc]; exact List.sublist_append_left _ _
  | refuse x _ _ hc => rw [hc]; exact List.sublist_append_left _ _
  | arrive x _ _ _ _ hc => rw [hc]; exact List.Sublist.refl _
  | overflow x old rest _ _ _ _ hf hi hi' =>
      show (([] : List (Nat × α)) ++ s'.contents).Sublist (s.contents ++ [x])
      simp only [Shared.contents, hf, hi, hi', List.nil_append, List.append_assoc]
      exact ((List.sublist_cons_self old rest).append_right [x]).append_left _
  | deliver x _ hc => rw [hc]; exact List.sublist_append_left _ _
  | shut _ hf hi =>
      simp only [delivered_map_discarded, accepted_map_discarded, Shared.contents, hf, hi,
        List.nil_append, List.append_nil]
      exact List.sublist_append_left _ _
  | lose x _ _ hc' => rw [hc']; exact List.nil_sublist _
  | evict x _ _ hc =>
      show (([] : List (Nat × α)) ++ s'.contents).Sublist (s.contents ++ [])
      rw [hc, List.nil_append, List.append_nil]
      exact List.sublist_append_left _ _

/-- A newly accepted item carries the next stamp. -/
theorem step_stamps {s s' : Shared α} {evs : List (Event α)} {a : Act α}
    (h : step s a = some (s', evs)) :
    accepted evs = [] ∨ ∃ x, accepted evs = [x] ∧ x.1 = s.pushes ∧ s'.pushes = s.pushes + 1 := by
  cases step_effect h with
  | arrive x _ _ hx hp _ => exact .inr ⟨x, rfl, hx, hp⟩
  | overflow x old rest _ _ hx hp _ _ _ => exact .inr ⟨x, rfl, hx, hp⟩
  | shut _ _ _ => exact .inl (accepted_map_discarded _)
  | quiet _ _ | refuse _ _ _ _ | deliver _ _ _ | lose _ _ _ _ | evict _ _ _ _ => exact .inl rfl

/-- A closed queue accepts nothing. -/
theorem step_closed {s s' : Shared α} {evs : List (Event α)} {a : Act α}
    (h : step s a = some (s', evs)) (hc : s.queue.closed = true) : accepted evs = [] := by
  cases step_effect h with
  | arrive x _ hopen _ _ _ => exact absurd (hopen.symm.trans hc) Bool.false_ne_true
  | overflow x old rest _ hopen _ _ _ _ _ => exact absurd (hopen.symm.trans hc) Bool.false_ne_true
  | shut _ _ _ => exact accepted_map_discarded _
  | quiet _ _ | refuse _ _ _ _ | deliver _ _ _ | lose _ _ _ _ | evict _ _ _ _ => rfl

/-- A closed queue that nobody has an item of stays so. -/
theorem step_over {s s' : Shared α} {evs : List (Event α)} {a : Act α}
    (h : step s a = some (s', evs)) (hc : s.queue.closed = true) (hf : s.front = none) :
    s'.queue.closed = true ∧ s'.front = none := by
  refine ⟨by rw [(step_frame h).2.2, hc]; rfl, ?_⟩
  have hnil : s.contents = [] := by rw [Shared.contents, hf, s.queue.drained hc]; rfl
  have hsub := step_contents h
  rw [step_closed h hc, hnil, List.append_nil] at hsub
  have hnil' := (List.append_eq_nil_iff.mp (List.sublist_nil.mp hsub)).2
  simpa [Shared.contents] using (List.append_eq_nil_iff.mp hnil').1

/-! ## Whole runs -/

/-- The invariant: what was delivered, then what is in flight, in acceptance
order; stamps increase and lie below the count of calls. -/
structure InOrder (tr : List (Event α)) (s : Shared α) : Prop where
  order : (delivered tr ++ s.contents).Sublist (accepted tr)
  stamps : (accepted tr).Pairwise fun x y => x.1 < y.1
  below : ∀ x ∈ accepted tr, x.1 < s.pushes

theorem InOrder.step {tr evs : List (Event α)} {s s' : Shared α} {a : Act α}
    (hi : InOrder tr s) (h : step s a = some (s', evs)) : InOrder (tr ++ evs) s' := by
  have hle := (step_frame h).2.1
  refine ⟨?_, ?_, ?_⟩
  · have h₁ := (step_contents h).append_left (delivered tr)
    have h₂ := hi.order.append_right (accepted evs)
    simp only [← List.append_assoc] at h₁
    rw [delivered_append, accepted_append]
    exact h₁.trans h₂
  · rw [accepted_append, List.pairwise_append]
    refine ⟨hi.stamps, ?_, fun x hx y hy => ?_⟩
    · rcases step_stamps h with hs | ⟨x, hs, -, -⟩ <;> rw [hs]
      · exact List.Pairwise.nil
      · exact List.pairwise_singleton _ _
    · rcases step_stamps h with hs | ⟨z, hs, hz, -⟩ <;> rw [hs] at hy
      · exact absurd hy List.not_mem_nil
      · rw [List.mem_singleton.mp hy, hz]
        exact hi.below x hx
  · intro x hx
    rw [accepted_append, List.mem_append] at hx
    rcases hx with hx | hx
    · exact Nat.lt_of_lt_of_le (hi.below x hx) hle
    · rcases step_stamps h with hs | ⟨z, hs, hz, hp⟩ <;> rw [hs] at hx
      · exact absurd hx List.not_mem_nil
      · rw [List.mem_singleton.mp hx, hz, hp]
        exact Nat.lt_succ_self _

/-- Runs that start anywhere keep the capacity and the closing, and a run that
starts closed accepts nothing and delivers out of what is in flight. -/
theorem run_from_closed {s : Shared α} {as : List (Act α)} {tr : List (Event α)} {s' : Shared α}
    (hc : s.queue.closed = true)
    (h : Machine.Run { init := s, step := step } Machine.Free as tr s') :
    s'.queue.closed = true ∧ accepted tr = [] ∧
      (delivered tr ++ s'.contents).Sublist s.contents := by
  refine Machine.Run.invariant (M := { init := s, step := step })
    (fun tr s' => s'.queue.closed = true ∧ accepted tr = [] ∧
      (delivered tr ++ s'.contents).Sublist s.contents) ⟨hc, rfl, List.Sublist.refl _⟩ ?_ h
  intro tr s₁ a s₂ evs ⟨hc₁, hacc, hsub⟩ _ hstep
  have hnone := step_closed hstep hc₁
  refine ⟨by rw [(step_frame hstep).2.2, hc₁, Bool.true_or], by rw [accepted_append, hacc, hnone]; rfl, ?_⟩
  have h₁ := (step_contents hstep).append_left (delivered tr)
  rw [hnone, List.append_nil] at h₁
  rw [delivered_append, List.append_assoc]
  exact h₁.trans hsub

theorem run_inOrder {q : Queue (Nat × α)} {as : List (Act α)} {tr : List (Event α)}
    {s : Shared α} {G : Shared α → Act α → Prop} (hq : q.items = [])
    (h : (machine q).Run G as tr s) : InOrder tr s := by
  refine Machine.Run.invariant InOrder ⟨?_, List.Pairwise.nil, fun x hx => absurd hx List.not_mem_nil⟩
    (fun hi _ hs => hi.step hs) h
  show q.items.Sublist []
  rw [hq]

theorem run_capacity {q : Queue (Nat × α)} {as : List (Act α)} {tr : List (Event α)}
    {s : Shared α} {G : Shared α → Act α → Prop} (h : (machine q).Run G as tr s) :
    s.queue.capacity = q.capacity :=
  Machine.Run.invariant (fun _ s => s.queue.capacity = q.capacity) rfl
    (fun hi _ hs => (step_frame hs).1.trans hi) h

/-- **The shared queue is a bounded FIFO.**  In every state of every
interleaving at most `c` items are queued; what the consumer got is a
subsequence of what `push` accepted, along which stamps increase, so nothing
is delivered twice or overtaken; and once closed the queue is empty, refuses
every push with its item, and delivers nothing more than the reservation that
is still out. -/
theorem queue_fifo_bounded_closed {c : Nat} {q : Queue (Nat × α)} (hq : Queue.new c = .ok q)
    {as : List (Act α)} {tr : List (Event α)} {s : Shared α}
    (h : (machine q).Run Machine.Free as tr s) :
    s.queue.items.length ≤ c ∧
    (delivered tr).Sublist (accepted tr) ∧
    (accepted tr).Pairwise (fun x y => x.1 < y.1) ∧
    (delivered tr).Pairwise (fun x y => x.1 < y.1) ∧
    (s.queue.closed = true →
      s.queue.items = [] ∧
      (∀ x, s.queue.push x = .error ⟨x⟩) ∧
      ∀ (bs : List (Act α)) (tr' : List (Event α)) (s' : Shared α),
        Machine.Run { init := s, step := step } Machine.Free bs tr' s' →
          s'.queue.closed = true ∧ s'.queue.items = [] ∧ accepted tr' = [] ∧
          (delivered tr').Sublist (s.front.toList.map QueueFront.item)) := by
  obtain ⟨hcap, hnil, -, -⟩ := Queue.new_ok hq
  have hin := run_inOrder hnil h
  have hsub : (delivered tr).Sublist (accepted tr) :=
    (List.sublist_append_left _ _).trans hin.order
  refine ⟨?_, hsub, hin.stamps, hin.stamps.sublist hsub, fun hc => ⟨s.queue.drained hc, ?_, ?_⟩⟩
  · rw [← hcap, ← run_capacity h]
    exact s.queue.bounded
  · intro x
    rcases Queue.push_cases s.queue x with ⟨-, hp⟩ | ⟨_, _, _, ho, -⟩ | ⟨_, ho, -⟩
    · exact hp
    · exact absurd (ho.symm.trans hc) Bool.false_ne_true
    · exact absurd (ho.symm.trans hc) Bool.false_ne_true
  · intro bs tr' s' h'
    obtain ⟨hc', hacc, hdel⟩ := run_from_closed hc h'
    refine ⟨hc', s'.queue.drained hc', hacc, ?_⟩
    have := (List.sublist_append_left (delivered tr') s'.contents).trans hdel
    simpa [Shared.contents, s.queue.drained hc] using this

/-- The theorem on a run in which a reservation is restored behind two pushes,
committed, and the queue closed: capacity 2, payloads 10, 20, 30. -/
theorem queue_fifo_bounded_closed_restored :
    ∃ (tr : List (Event Nat)) (s : Shared Nat),
      (machine (Queue.fresh 2 Nat.two_pos)).exec (fun _ _ => true)
        [.push 10, .push 20, .peek, .push 30, .restore, .peek, .commit, .close] = some (s, tr) ∧
      delivered tr = [(0, 10)] ∧ s.queue.closed = true ∧
      s.queue.items.length ≤ 2 ∧ (delivered tr).Sublist (accepted tr) := by
  refine ⟨_, _, rfl, rfl, rfl, ?_⟩
  have hrun : (machine (Queue.fresh 2 Nat.two_pos)).Run Machine.Free
      [.push 10, .push 20, .peek, .push 30, .restore, .peek, .commit, .close] _ _ :=
    Machine.run_of_exec (g := fun _ _ => true) (fun _ _ _ => trivial) rfl
  have h := queue_fifo_bounded_closed (c := 2) rfl hrun
  exact ⟨h.1, h.2.1⟩

end AutobricksVpn.QueueRun
