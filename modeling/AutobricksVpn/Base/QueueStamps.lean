/-
# `AutobricksVpn.Base.QueueStamps` — the stamps of a queue count its pushes

The stamp of an item is the position of the `push` that brought it among all the
pushes of a run, refused ones included.  What a consumer gets is therefore
`Stamped` in what the producers have handed in.  A queue without reservations also
counts: while it is open, its items are those handed in that were neither taken nor
returned (`step_counted`).
-/
import AutobricksVpn.Base.QueueFifo
import AutobricksVpn.Lib.Stamped

namespace AutobricksVpn.QueueRun

variable {α : Type}

def pushedOf : Event α → Option α
  | .accepted x => some x.2
  | .refused x => some x.2
  | _ => none

/-- The payloads handed to `push`. -/
def pushed (tr : List (Event α)) : List α := tr.filterMap pushedOf

theorem pushed_append (tr tr' : List (Event α)) : pushed (tr ++ tr') = pushed tr ++ pushed tr' :=
  List.filterMap_append

theorem pushed_map_discarded (l : List (Nat × α)) : pushed (l.map Event.discarded) = [] := by
  rw [pushed, List.filterMap_map, List.filterMap_eq_nil_iff]
  intro x _
  rfl

/-- A `push` hands in its item, and gives it the next stamp if it is accepted;
no other call hands in anything. -/
theorem step_pushed {s s' : Shared α} {evs : List (Event α)} {a : Act α}
    (h : step s a = some (s', evs)) :
    (∃ x, a = .push x ∧ pushed evs = [x] ∧ s'.pushes = s.pushes + 1 ∧
        (accepted evs = [(s.pushes, x)] ∨ accepted evs = [])) ∨
      (∀ x, a ≠ .push x) ∧ pushed evs = [] ∧ s'.pushes = s.pushes ∧ accepted evs = [] := by
  cases a with
  | push x =>
      refine .inl ⟨x, rfl, ?_⟩
      rcases Queue.push_cases s.queue (s.pushes, x) with
        ⟨-, hp⟩ | ⟨old, rest, queue, -, -, -, hp, -⟩ | ⟨queue, -, -, hp, -⟩ <;>
        simp only [step, hp, Option.some.injEq, Prod.mk.injEq] at h <;> obtain ⟨rfl, rfl⟩ := h
      · exact ⟨rfl, rfl, .inr rfl⟩
      · exact ⟨rfl, rfl, .inl rfl⟩
      · exact ⟨rfl, rfl, .inl rfl⟩
  | notifyChange =>
      obtain ⟨rfl, rfl⟩ := Prod.mk.inj (Option.some.inj h)
      exact .inr ⟨fun _ => by simp, rfl, rfl, rfl⟩
  | close =>
      obtain ⟨rfl, rfl⟩ := Prod.mk.inj (Option.some.inj h)
      exact .inr ⟨fun _ => by simp, pushed_map_discarded _, rfl, accepted_map_discarded _⟩
  | tryPop | pop | popTimeout =>
      obtain ⟨-, ⟨rfl, rfl⟩ | ⟨x, rest, -, rfl, rfl⟩⟩ := step_take (by simp) h <;>
        exact .inr ⟨fun _ => by simp, rfl, rfl, rfl⟩
  | peek | tryPeek =>
      obtain ⟨-, rfl, rfl | ⟨x, rest, -, rfl⟩⟩ := step_reserve (by simp) h <;>
        exact .inr ⟨fun _ => by simp, rfl, rfl, rfl⟩
  | commit =>
      simp only [step] at h
      split at h
      · obtain ⟨rfl, rfl⟩ := Prod.mk.inj (Option.some.inj h)
        exact .inr ⟨fun _ => by simp, rfl, rfl, rfl⟩
      · cases h
  | restore =>
      simp only [step] at h
      split at h
      · obtain ⟨rfl, rfl⟩ := Prod.mk.inj (Option.some.inj h)
        exact .inr ⟨fun _ => by simp, pushed_map_discarded _, rfl, accepted_map_discarded _⟩
      · cases h

/-- What was accepted has its stamps from what was handed in. -/
theorem run_stamped {q : Queue (Nat × α)} {as : List (Act α)} {tr : List (Event α)} {s : Shared α}
    {G : Shared α → Act α → Prop} (h : (machine q).Run G as tr s) :
    (pushed tr).length = s.pushes ∧ Stamped (pushed tr) (accepted tr) := by
  refine h.invariant (fun tr s => (pushed tr).length = s.pushes ∧ Stamped (pushed tr) (accepted tr))
    ⟨rfl, .nil _⟩ ?_
  rintro tr s a s' evs ⟨hlength, hstamped⟩ - hs
  rw [pushed_append, accepted_append, List.length_append]
  rcases step_pushed hs with ⟨x, -, hpushed, hpushes, haccepted⟩ | ⟨-, hpushed, hpushes, haccepted⟩
  · rw [hpushed, hpushes, hlength]
    refine ⟨rfl, ?_⟩
    rcases haccepted with haccepted | haccepted
    · rw [haccepted, ← hlength]
      exact hstamped.concat x
    · rw [haccepted, List.append_nil]
      exact hstamped.grow _
  · rw [hpushed, hpushes, haccepted, List.append_nil, List.append_nil]
    exact ⟨hlength, hstamped⟩

/-- What the consumer got, and what is in flight. -/
theorem run_delivered {q : Queue (Nat × α)} {as : List (Act α)} {tr : List (Event α)} {s : Shared α}
    {G : Shared α → Act α → Prop} (hq : q.items = []) (h : (machine q).Run G as tr s) :
    Stamped (pushed tr) (delivered tr ++ s.contents) :=
  (run_stamped h).2.sublist (run_inOrder hq h).order

/-! ## Without reservations -/

/-- A call that knows nothing of reservations, and does not wait. -/
def Act.Plain : Act α → Prop
  | .push _ | .tryPop | .notifyChange | .close => True
  | .pop | .popTimeout | .peek | .tryPeek | .commit | .restore => False

theorem step_counted {s s' : Shared α} {evs : List (Event α)} {a : Act α} (hplain : a.Plain)
    (h : step s a = some (s', evs)) (hopen : s'.queue.closed = false) :
    s.queue.closed = false ∧ s.queue.items.length + (pushed evs).length =
      (delivered evs).length + (returned evs).length + s'.queue.items.length := by
  have hclosed := (step_frame h).2.2
  rw [hopen] at hclosed
  obtain ⟨hs, ha⟩ := Bool.or_eq_false_iff.mp hclosed.symm
  refine ⟨hs, ?_⟩
  cases a with
  | push x =>
      rcases Queue.push_cases s.queue (s.pushes, x) with
        ⟨hc, -⟩ | ⟨old, rest, queue, -, -, hi, hp, hi', -⟩ | ⟨queue, -, -, hp, hi', -⟩
      · exact absurd (hs.symm.trans hc) (by decide)
      · simp only [step, hp, Option.some.injEq, Prod.mk.injEq] at h
        obtain ⟨rfl, rfl⟩ := h
        show s.queue.items.length + 1 = 0 + 1 + queue.items.length
        rw [hi, hi', List.length_cons, List.length_append, List.length_singleton, Nat.zero_add,
          Nat.add_comm]
      · simp only [step, hp, Option.some.injEq, Prod.mk.injEq] at h
        obtain ⟨rfl, rfl⟩ := h
        show s.queue.items.length + 1 = 0 + 0 + queue.items.length
        rw [hi', List.length_append, List.length_singleton, Nat.add_zero, Nat.zero_add]
  | close => cases ha
  | notifyChange =>
      obtain ⟨rfl, rfl⟩ := Prod.mk.inj (Option.some.inj h)
      exact (Nat.zero_add _).symm
  | tryPop =>
      obtain ⟨-, ⟨rfl, rfl⟩ | ⟨x, rest, hi, rfl, rfl⟩⟩ := step_take (.inl rfl) h
      · exact (Nat.zero_add _).symm
      · show s.queue.items.length + 0 = 1 + 0 + s.queue.items.tail.length
        rw [hi, List.length_cons, List.tail_cons, Nat.add_zero, Nat.add_comm]
  | pop | popTimeout | peek | tryPeek | commit | restore => exact hplain.elim

end AutobricksVpn.QueueRun
