/-
# `AutobricksVpn.Base.QueueOverflow` — what a full queue gives up, and to whom

`Queue::push` documents its overflow: the oldest item goes, and it is returned
"for drop accounting".  Over a run of an open queue that would mean

    accepted ~ delivered ++ returned ++ contents           (`Conserved`)

and that whatever leaves undelivered is older than everything still queued and
is handed to some `push` (`DropsOldest`).  `Drop for QueueFront` breaks both:
a restore that finds the queue refilled removes the newest item and hands it
to nobody (`restore_on_full_loses_newest`).

That is the only way to break them.  Along a run whose restores have all found
room both hold, and the next call keeps them exactly if it is not such a
restore (`overflow_accounted_iff`).
-/
import AutobricksVpn.Base.QueueFifo

namespace AutobricksVpn.QueueRun

variable {α : Type}

/-- An item in flight that a call makes disappear without delivering it is
returned by `push` and is older than everything left in the queue. -/
def DropsOldest (s s' : Shared α) (evs : List (Event α)) : Prop :=
  ∀ x ∈ s.contents ++ accepted evs, x ∉ s'.contents → x ∉ delivered evs →
    x ∈ returned evs ∧ ∀ y ∈ s'.queue.items, x.1 < y.1

/-- Accepted items are delivered, returned by a push, or still in flight. -/
def Conserved (tr : List (Event α)) (s : Shared α) : Prop :=
  (accepted tr).Perm (delivered tr ++ returned tr ++ s.contents)

/-- The steps of a queue that nobody closes and whose restores find room. -/
def OpenAndFits (s : Shared α) (a : Act α) : Prop :=
  a ≠ .close ∧ RestoreFits s a

/-! ## One call -/

/-- Nothing is lost sight of: what was in flight or joins is delivered,
returned, discarded or still in flight. -/
theorem step_balance {s s' : Shared α} {evs : List (Event α)} {a : Act α}
    (h : step s a = some (s', evs)) :
    (s.contents ++ accepted evs).Perm
      (delivered evs ++ returned evs ++ discarded evs ++ s'.contents) := by
  cases step_effect h with
  | quiet _ hc => rw [hc]; exact List.Perm.of_eq (List.append_nil _)
  | refuse x _ _ hc => rw [hc]; exact List.Perm.of_eq (List.append_nil _)
  | arrive x _ _ _ _ hc => rw [hc]; exact List.Perm.refl _
  | overflow x old rest _ _ _ _ hf hi hi' =>
      show (s.contents ++ [x]).Perm (old :: s'.contents)
      simp only [Shared.contents, hf, hi, hi', List.append_assoc, List.cons_append]
      exact List.perm_middle
  | deliver x _ hc => rw [hc]; exact List.Perm.of_eq (List.append_nil _)
  | shut _ hf hi =>
      simp only [delivered_map_discarded, returned_map_discarded, discarded_map_discarded,
        accepted_map_discarded, Shared.contents, hf, hi, List.nil_append, List.append_nil]
      exact List.perm_append_comm
  | lose x _ hc hc' => rw [hc, hc']; exact List.Perm.refl _
  | evict x _ _ hc =>
      show (s.contents ++ []).Perm (x :: s'.contents)
      rw [hc, List.append_nil]
      exact List.perm_append_singleton _ _

/-- On an open queue only a restore into a full queue discards, and it
discards the newest item in flight. -/
theorem step_discarded {s s' : Shared α} {evs : List (Event α)} {a : Act α}
    (h : step s a = some (s', evs)) (hopen : s.queue.closed = false) (ha : a ≠ .close) :
    (RestoreFits s a ∧ discarded evs = []) ∨
    (¬ RestoreFits s a ∧ ∃ x, evs = [.discarded x] ∧ s.contents = s'.contents ++ [x]) := by
  cases step_effect h with
  | lose x hc _ _ => exact absurd (hopen.symm.trans hc) Bool.false_ne_true
  | shut hc _ _ => exact absurd hc ha
  | evict x hfit _ hc => exact .inr ⟨hfit, x, rfl, hc⟩
  | quiet hfit _ | refuse _ hfit _ _ | deliver _ hfit _ => exact .inl ⟨hfit, rfl⟩
  | arrive _ hfit _ _ _ _ | overflow _ _ _ hfit _ _ _ _ _ _ => exact .inl ⟨hfit, rfl⟩

/-- A fitting call drops at most the oldest item, and returns it. -/
theorem step_dropsOldest {tr evs : List (Event α)} {s s' : Shared α} {a : Act α}
    (hin : InOrder tr s) (h : step s a = some (s', evs)) (hopen : s.queue.closed = false)
    (ha : a ≠ .close) (hfit : RestoreFits s a) : DropsOldest s s' evs := by
  intro y hy hleft hundelivered
  cases step_effect h with
  | quiet _ hc | refuse _ _ _ hc =>
      rw [hc] at hleft
      exact absurd (by simpa [accepted, acceptedOf] using hy) hleft
  | arrive x _ _ _ _ hc => exact absurd (hc ▸ hy) hleft
  | deliver x _ hc =>
      rw [hc] at hy
      rcases List.mem_append.mp hy with hy | hy
      · rcases List.mem_cons.mp hy with rfl | hy
        · exact absurd List.mem_cons_self hundelivered
        · exact absurd hy hleft
      · exact absurd hy List.not_mem_nil
  | shut hc _ _ => exact absurd hc ha
  | lose x hc _ _ => exact absurd (hopen.symm.trans hc) Bool.false_ne_true
  | evict x hnot _ _ => exact absurd hfit hnot
  | overflow x old rest _ _ hx _ hf hi hi' =>
      have hsorted : (s.contents).Pairwise fun u v => u.1 < v.1 :=
        hin.stamps.sublist ((List.sublist_append_right _ _).trans hin.order)
      have hbelow : ∀ z ∈ s.contents, z.1 < s.pushes := fun z hz =>
        hin.below z (hin.order.subset (List.mem_append_right _ hz))
      -- The item that left can only be the old head of the queue.
      have hold : y = old := by
        simp only [Shared.contents, hf, hi'] at hleft
        simp only [Shared.contents, hi, show accepted [Event.accepted x, .returned old] = [x] from rfl,
          List.mem_append, List.mem_cons, List.not_mem_nil, or_false] at hy hleft
        tauto
      subst hold
      refine ⟨List.mem_cons_self, fun z hz => ?_⟩
      rw [hi', List.mem_append, List.mem_singleton] at hz
      rcases hz with hz | rfl
      · have htail : (y :: rest).Pairwise fun u v => u.1 < v.1 :=
          hsorted.sublist (by rw [Shared.contents, hi]; exact List.sublist_append_right _ _)
        exact List.rel_of_pairwise_cons htail hz
      · rw [hx]
        exact hbelow y (by simp [Shared.contents, hi])

/-! ## Whole runs of an open queue -/

theorem run_open {q : Queue (Nat × α)} {as : List (Act α)} {tr : List (Event α)} {s : Shared α}
    (hq : q.closed = false) (h : (machine q).Run OpenAndFits as tr s) : s.queue.closed = false := by
  refine Machine.Run.invariant (fun _ s => s.queue.closed = false) hq ?_ h
  intro tr s a s' evs hopen hG hs
  have hcloses : a.closes = false := by
    cases a <;> first | rfl | exact absurd rfl hG.1
  rw [(step_frame hs).2.2, hopen, hcloses]
  rfl

/-- Conservation with the discarded items counted, over any run. -/
theorem run_balance {q : Queue (Nat × α)} {as : List (Act α)} {tr : List (Event α)}
    {s : Shared α} {G : Shared α → Act α → Prop} (hq : q.items = [])
    (h : (machine q).Run G as tr s) :
    (accepted tr).Perm (delivered tr ++ returned tr ++ discarded tr ++ s.contents) := by
  refine Machine.Run.invariant (fun tr s =>
    (accepted tr).Perm (delivered tr ++ returned tr ++ discarded tr ++ s.contents)) ?_ ?_ h
  · show List.Perm [] q.items
    rw [hq]
  · intro tr s a s' evs ih _ hs
    have hbal := step_balance hs
    simp only [accepted_append, delivered_append, returned_append, discarded_append]
    calc (accepted tr ++ accepted evs).Perm
          ((delivered tr ++ returned tr ++ discarded tr ++ s.contents) ++ accepted evs) :=
            ih.append_right _
      _ = (delivered tr ++ returned tr ++ discarded tr) ++ (s.contents ++ accepted evs) := by
            simp only [List.append_assoc]
      List.Perm _ ((delivered tr ++ returned tr ++ discarded tr) ++
            (delivered evs ++ returned evs ++ discarded evs ++ s'.contents)) :=
            hbal.append_left _
      List.Perm _ _ := by
            classical
            rw [List.perm_iff_count]
            intro z
            simp only [List.count_append]
            omega

/-- No two items in flight are the same item. -/
theorem contents_nodup {tr : List (Event α)} {s : Shared α} (hin : InOrder tr s) :
    s.contents.Nodup := by
  have hsorted := hin.stamps.sublist ((List.sublist_append_right _ _).trans hin.order)
  refine hsorted.imp fun {x y} (hlt : x.1 < y.1) heq => ?_
  rw [heq] at hlt
  exact Nat.lt_irrefl _ hlt

/-- A restore into a full queue hands its victim to nobody. -/
theorem not_dropsOldest_of_evict {tr : List (Event α)} {s s' : Shared α} {x : Nat × α}
    (hin : InOrder tr s) (hc : s.contents = s'.contents ++ [x]) :
    ¬ DropsOldest s s' [.discarded x] := by
  intro hdrops
  have hnodup : (s'.contents ++ [x]).Nodup := hc ▸ contents_nodup hin
  have hgone : x ∉ s'.contents := fun hx =>
    (List.nodup_append.mp hnodup).2.2 x hx x (List.mem_singleton_self x) rfl
  have hmem : x ∈ s.contents ++ accepted [Event.discarded x] := by
    rw [hc]
    exact List.mem_append_left _ (List.mem_append_right _ (List.mem_singleton_self x))
  exact List.not_mem_nil (hdrops x hmem hgone List.not_mem_nil).1

/-- Along a run whose restores find room nothing is discarded. -/
theorem run_discarded {q : Queue (Nat × α)} {as : List (Act α)} {tr : List (Event α)}
    {s : Shared α} (hq : q.closed = false) (h : (machine q).Run OpenAndFits as tr s) :
    discarded tr = [] := by
  refine Machine.Run.invariant₂ (fun _ s => s.queue.closed = false) (fun tr _ => discarded tr = [])
    (run_open hq) rfl ?_ h
  intro tr s a s' evs hopen ih hG hs
  rcases step_discarded hs hopen hG.1 with ⟨-, hnone⟩ | ⟨hfull, -⟩
  · rw [discarded_append, ih, hnone]
    rfl
  · exact absurd hG.2 hfull

theorem run_conserved {q : Queue (Nat × α)} {as : List (Act α)} {tr : List (Event α)}
    {s : Shared α} (hq : q.items = []) (hopen : q.closed = false)
    (h : (machine q).Run OpenAndFits as tr s) : Conserved tr s := by
  have := run_balance hq h
  rwa [run_discarded hopen h, List.append_nil] at this

/-- **Overflow drops the oldest and accounts for it, exactly while restores
find room.**  Along every run of an open queue whose restores find room, what
was accepted is what was delivered, returned by pushes or is in flight, item by
item and so also in number; and the next call of the run drops at most the
oldest item and keeps the account if and only if it is not a restore into a
full queue. -/
theorem overflow_accounted_iff {c : Nat} {q : Queue (Nat × α)} (hq : Queue.new c = .ok q)
    {as : List (Act α)} {tr : List (Event α)} {s : Shared α}
    (h : (machine q).Run OpenAndFits as tr s) :
    Conserved tr s ∧
    (accepted tr).length = (delivered tr).length + (returned tr).length + s.contents.length ∧
    ∀ (a : Act α) (s' : Shared α) (evs : List (Event α)), a ≠ .close →
      step s a = some (s', evs) →
        ((DropsOldest s s' evs ∧ Conserved (tr ++ evs) s') ↔ RestoreFits s a) := by
  obtain ⟨-, hnil, hclosed, -⟩ := Queue.new_ok hq
  have hin := run_inOrder hnil h
  have hopen := run_open hclosed h
  have hcons := run_conserved hnil hclosed h
  refine ⟨hcons, ?_, fun a s' evs ha hs => ⟨fun hboth => ?_, fun hfit => ?_⟩⟩
  · rw [hcons.length_eq, List.length_append, List.length_append]
  · rcases step_discarded hs hopen ha with ⟨hfit, -⟩ | ⟨-, x, rfl, hc⟩
    · exact hfit
    · exact absurd hboth.1 (not_dropsOldest_of_evict hin hc)
  · exact ⟨step_dropsOldest hin hs hopen ha hfit,
      run_conserved hnil hclosed (h.next ⟨ha, hfit⟩ hs)⟩

/-- The runs of an open queue, decidably, for computing examples. -/
def openAndFits (s : Shared α) : Act α → Bool
  | .close => false
  | .restore => decide (s.queue.items.length < s.queue.capacity)
  | _ => true

theorem openAndFits_sound (s : Shared α) (a : Act α) (h : openAndFits s a = true) :
    OpenAndFits s a := by
  cases a with
  | close => exact nomatch h
  | restore => exact ⟨nofun, fun _ => of_decide_eq_true h⟩
  | _ => exact ⟨nofun, nofun⟩

/-- The theorem on a full queue of capacity 1 that overflows once: the push
returns the older item and is accounted for. -/
theorem overflow_accounted_push :
    ∃ (tr evs : List (Event Nat)) (s s' : Shared Nat),
      (machine (Queue.fresh 1 Nat.one_pos)).exec openAndFits [.push 10] = some (s, tr) ∧
      step s (.push 20) = some (s', evs) ∧ returned evs = [(0, 10)] ∧
      DropsOldest s s' evs ∧ Conserved (tr ++ evs) s' := by
  refine ⟨_, _, _, _, rfl, rfl, rfl, ?_⟩
  have hrun : (machine (Queue.fresh 1 Nat.one_pos)).Run OpenAndFits [Act.push (10 : Nat)] _ _ :=
    Machine.run_of_exec openAndFits_sound rfl
  have h := overflow_accounted_iff (c := 1) rfl hrun
  exact (h.2.2 (.push 20) _ _ nofun rfl).mpr nofun

/-- Capacity 1, payloads 10 and 20: 10 is reserved, 20 fills the queue, and the
restore of 10 removes 20.  The older item is the one left queued, nobody is
handed 20, and the account is one short. -/
theorem restore_on_full_loses_newest :
    ∃ (tr evs : List (Event Nat)) (s s' : Shared Nat),
      (machine (Queue.fresh 1 Nat.one_pos)).exec openAndFits
        [.push 10, .peek, .push 20] = some (s, tr) ∧
      step s .restore = some (s', evs) ∧ s'.queue.closed = false ∧
      s'.queue.items = [(0, 10)] ∧ returned (tr ++ evs) = [] ∧ delivered (tr ++ evs) = [] ∧
      ¬ DropsOldest s s' evs ∧ ¬ Conserved (tr ++ evs) s' := by
  refine ⟨_, _, _, _, rfl, rfl, rfl, rfl, rfl, rfl, fun h => ?_, fun h => ?_⟩
  · exact List.not_mem_nil (h (1, 20) (by decide) (by decide) (by decide)).1
  · exact absurd h.length_eq (by decide)

end AutobricksVpn.QueueRun
