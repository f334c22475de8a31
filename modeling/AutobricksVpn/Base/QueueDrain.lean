/-
# `AutobricksVpn.Base.QueueDrain` — emptying a queue through its reservation

The consumers of a `Queue<T>` that may be refused share one loop: reserve the
oldest item, throw it away when it is stale, otherwise offer it to a writer and
let the answer decide what becomes of the reservation (`Fate`).

    sent       the removal is committed, the loop goes on
    discard    the removal is committed, the loop goes on
    abandon r  the removal is committed, the loop ends with r
    refuse r   the item goes back to the front, the loop ends with r

The loop writes down its turns.  `drainQueue_conforms` says what one call does
with a queue, `Ends.removed` what it takes out.
-/
import AutobricksVpn.Base.Queue

namespace AutobricksVpn.QueueDrain

/-- What the answer of a writer means for the reservation. -/
inductive Fate (ρ : Type) where
  | sent
  | discard
  | abandon (result : ρ)
  | refuse (result : ρ)

/-- One turn of the loop: the item reserved, the clock as it was read, and the
fate of the item; `none` when it was stale and not offered. -/
structure Turn (ι τ ρ : Type) where
  item : ι
  now : τ
  fate : Option (Fate ρ)

namespace Turn

variable {ι τ ρ : Type}

/-- The loop goes on after this turn. -/
def passes (t : Turn ι τ ρ) : Bool :=
  match t.fate with
  | none => true
  | some .sent => true
  | some .discard => true
  | some (.abandon _) => false
  | some (.refuse _) => false

def isSent (t : Turn ι τ ρ) : Bool :=
  match t.fate with
  | some .sent => true
  | _ => false

/-- The item went back to the queue. -/
def isRefused (t : Turn ι τ ρ) : Bool :=
  match t.fate with
  | some (.refuse _) => true
  | _ => false

theorem isRefused_of_passes {t : Turn ι τ ρ} : t.passes = true → t.isRefused = false := by
  intro h
  unfold isRefused
  split
  · rename_i hv
    rw [passes, hv] at h
    exact absurd h Bool.false_ne_true
  · rfl

theorem isRefused_of_isSent {t : Turn ι τ ρ} : t.isSent = true → t.isRefused = false := by
  intro h
  unfold isRefused
  split
  · rename_i hv
    rw [isSent, hv] at h
    exact absurd h Bool.false_ne_true
  · rfl

end Turn

/-- What a call leaves: the queue, its turns, the writer, its answer. -/
structure Report (ι τ ρ σ : Type) where
  queue : Queue ι
  turns : List (Turn ι τ ρ)
  writer : σ
  result : ρ

/-- The items reported as sent. -/
def Report.sent {ι τ ρ σ : Type} (d : Report ι τ ρ σ) : List ι :=
  (d.turns.filter (·.isSent)).map (·.item)

/-- Another turn before those of the call. -/
def Report.after {ι τ ρ σ : Type} (t : Turn ι τ ρ) (d : Report ι τ ρ σ) : Report ι τ ρ σ :=
  { d with turns := t :: d.turns }

section Loop

variable {ι τ ρ σ : Type} (stale : τ → ι → Bool) (attempt : ι → σ → σ × Fate ρ) (finished : ρ)

/-- The loop, with the readings of the clock still to come and `none` when the
turns do not suffice. -/
def drainQueue : Nat → (Nat → τ) → σ → Queue ι → Option (Report ι τ ρ σ)
  | 0, _, _, _ => none
  | turns + 1, clock, w, queue =>
      match queue.tryPeek with
      | .error _ => some ⟨queue, [], w, finished⟩
      | .ok (front, left) =>
          if stale (clock 0) front.value then
            (drainQueue turns (fun i => clock (i + 1)) w left).map
              (.after ⟨front.value, clock 0, none⟩)
          else
            match attempt front.value w with
            | (w, .sent) =>
                (drainQueue turns (fun i => clock (i + 1)) w left).map
                  (.after ⟨front.value, clock 0, some .sent⟩)
            | (w, .discard) =>
                (drainQueue turns (fun i => clock (i + 1)) w left).map
                  (.after ⟨front.value, clock 0, some .discard⟩)
            | (w, .abandon result) =>
                some ⟨left, [⟨front.value, clock 0, some (.abandon result)⟩], w, result⟩
            | (w, .refuse result) =>
                some ⟨front.drop left, [⟨front.value, clock 0, some (.refuse result)⟩], w, result⟩

/-! ## One call -/

/-- How a call ends, with what it leaves in the queue: the queue is empty, or
the last turn was the first not to pass. -/
inductive Ends (q : Queue ι) (d : Report ι τ ρ σ) : Prop
  | exhausted : (∀ t ∈ d.turns, t.passes = true) → d.result = finished →
      q.items = d.turns.map (·.item) → d.queue.items = [] → Ends q d
  | abandoned {passed : List (Turn ι τ ρ)} {x : ι} {now : τ} {result : ρ} :
      (∀ t ∈ passed, t.passes = true) → d.turns = passed ++ [⟨x, now, some (.abandon result)⟩] →
      d.result = result → q.items = passed.map (·.item) ++ x :: d.queue.items → Ends q d
  | refused {passed : List (Turn ι τ ρ)} {x : ι} {now : τ} {result : ρ} {rest : List ι} :
      (∀ t ∈ passed, t.passes = true) → d.turns = passed ++ [⟨x, now, some (.refuse result)⟩] →
      d.result = result → q.items = passed.map (·.item) ++ x :: rest →
      d.queue.items = x :: rest → Ends q d

/-- The writer was shown the items that were offered, in this order and nothing
else, the fates are its answers, and `w'` is what it was left as. -/
def Answers (w' : σ) : σ → List (Turn ι τ ρ) → Prop
  | w, [] => w' = w
  | w, ⟨_, _, none⟩ :: turns => Answers w' w turns
  | w, ⟨x, _, some v⟩ :: turns => (attempt x w).2 = v ∧ Answers w' (attempt x w).1 turns

/-- A call looks at the items from the front on, reading the clock once for
each, offers an item exactly if it is not stale at that reading, and ends in
one of the three ways. -/
structure Conforms (clock : Nat → τ) (w : σ) (q : Queue ι) (d : Report ι τ ρ σ) : Prop where
  fifo : d.turns.map (·.item) <+: q.items
  readings : d.turns.map (·.now) = (List.range d.turns.length).map clock
  offered : ∀ t ∈ d.turns, t.fate.isSome = !stale t.now t.item
  answers : Answers attempt d.writer w d.turns
  ends : Ends finished q d
  closed : d.queue.closed = q.closed
  capacity : d.queue.capacity = q.capacity

variable {stale attempt finished}

theorem Ends.after {q : Queue ι} {t : Turn ι τ ρ} {rest : List ι} {d : Report ι τ ρ σ} :
    t.passes = true → q.items = t.item :: rest →
    Ends finished q.dropFront d → Ends finished q (d.after t) := by
  intro ht hq hd
  have hleft : q.dropFront.items = rest := by rw [Queue.dropFront_items, hq]; rfl
  have hall : ∀ {l : List (Turn ι τ ρ)}, (∀ u ∈ l, u.passes = true) →
      ∀ u ∈ t :: l, u.passes = true := by
    intro l hl u hu
    rcases List.mem_cons.mp hu with rfl | hu
    · exact ht
    · exact hl u hu
  cases hd with
  | exhausted hp hr hi he =>
      refine .exhausted (hall hp) hr ?_ he
      rw [hq, ← hleft, hi]
      rfl
  | @abandoned passed x now result hp hturns hr hi =>
      have hturns' := congrArg (t :: ·) hturns
      refine .abandoned (hall hp) hturns' hr ?_
      rw [hq, ← hleft, hi]
      rfl
  | @refused passed x now result rest' hp hturns hr hi he =>
      have hturns' := congrArg (t :: ·) hturns
      refine .refused (hall hp) hturns' hr ?_ he
      rw [hq, ← hleft, hi]
      rfl

/-- A turn that passes in front of a call on the rest of the queue. -/
theorem Conforms.after {clock : Nat → τ} {w w' : σ} {q : Queue ι} {rest : List ι}
    {t : Turn ι τ ρ} {d : Report ι τ ρ σ} :
    q.items = t.item :: rest → t.now = clock 0 → t.passes = true →
    t.fate.isSome = !stale t.now t.item →
    (Answers attempt d.writer w' d.turns → Answers attempt d.writer w (t :: d.turns)) →
    Conforms stale attempt finished (fun i => clock (i + 1)) w' q.dropFront d →
    Conforms stale attempt finished clock w q (d.after t) := by
  intro hq hnow hpass hoffered hanswers hd
  have hleft : q.dropFront.items = rest := by rw [Queue.dropFront_items, hq]; rfl
  refine ⟨?_, ?_, ?_, hanswers hd.answers, hd.ends.after hpass hq, hd.closed, hd.capacity⟩
  · have hfifo := hd.fifo
    rw [hleft] at hfifo
    rw [hq]
    exact List.cons_prefix_cons.mpr ⟨rfl, hfifo⟩
  · have hreadings := hd.readings
    simp only [Report.after, List.map_cons, List.length_cons, List.range_succ_eq_map, hnow,
      hreadings, List.map_map]
    rfl
  · intro u hu
    rcases List.mem_cons.mp hu with rfl | hu
    · exact hoffered
    · exact hd.offered u hu

/-- A call that ends at its first turn. -/
theorem Conforms.last {clock : Nat → τ} {w w' : σ} {q q' : Queue ι} {x : ι} {rest : List ι}
    {v : Fate ρ} {result : ρ} :
    q.items = x :: rest → stale (clock 0) x = false → attempt x w = (w', v) →
    Ends finished q ⟨q', [⟨x, clock 0, some v⟩], w', result⟩ →
    q'.closed = q.closed → q'.capacity = q.capacity →
    Conforms stale attempt finished clock w q ⟨q', [⟨x, clock 0, some v⟩], w', result⟩ := by
  intro hq hfresh hattempt hends hclosed hcapacity
  have hanswer : Answers attempt w' w [(⟨x, clock 0, some v⟩ : Turn ι τ ρ)] := by
    refine ⟨by rw [hattempt], ?_⟩
    rw [hattempt]
    rfl
  refine ⟨?_, rfl, ?_, hanswer, hends, hclosed, hcapacity⟩
  · rw [hq]
    exact List.cons_prefix_cons.mpr ⟨rfl, List.nil_prefix⟩
  · intro t ht
    obtain rfl := List.mem_singleton.mp ht
    exact (congrArg Bool.not hfresh).symm

/-- **Every call returns.**  As many turns as there are items, and one more to
find the queue empty, are enough. -/
theorem drainQueue_conforms :
    ∀ (turns : Nat) (clock : Nat → τ) (w : σ) (q : Queue ι), q.items.length < turns →
      ∃ d, drainQueue stale attempt finished turns clock w q = some d ∧
        Conforms stale attempt finished clock w q d := by
  intro turns
  induction turns with
  | zero => intro clock w q h; exact absurd h (Nat.not_lt_zero _)
  | succ turns ih =>
      intro clock w q h
      rcases q.tryPop_cases with ⟨x, rest, hq, hpop⟩ | ⟨hq, -, hpop⟩ | ⟨hq, -, hpop⟩
      · have hpeek : q.tryPeek = .ok (⟨x⟩, q.dropFront) := by rw [Queue.tryPeek, hpop]
        have hlen : q.dropFront.items.length < turns := by
          rw [hq] at h
          rw [Queue.dropFront_items, hq]
          exact Nat.lt_of_succ_lt_succ h
        cases hstale : stale (clock 0) x with
        | true =>
            obtain ⟨d, hd, hconf⟩ := ih (fun i => clock (i + 1)) w q.dropFront hlen
            refine ⟨d.after ⟨x, clock 0, none⟩, ?_, hconf.after hq rfl rfl ?_ id⟩
            · rw [drainQueue, hpeek]
              simp only [QueueFront.value, hstale, if_true, hd, Option.map_some]
            · exact (congrArg Bool.not hstale).symm
        | false =>
            -- One offer, and one case for each fate of the item.
            cases hattempt : attempt x w with
            | mk w' v =>
                have hanswer : ∀ (d : Report ι τ ρ σ), Answers attempt d.writer w' d.turns →
                    Answers attempt d.writer w (⟨x, clock 0, some v⟩ :: d.turns) := by
                  intro d hd
                  refine ⟨by rw [hattempt], ?_⟩
                  rw [hattempt]
                  exact hd
                cases v with
                | sent =>
                    obtain ⟨d, hd, hconf⟩ := ih (fun i => clock (i + 1)) w' q.dropFront hlen
                    refine ⟨d.after ⟨x, clock 0, some .sent⟩, ?_, hconf.after hq rfl rfl ?_ (hanswer d)⟩
                    · rw [drainQueue, hpeek]
                      simp only [QueueFront.value, hstale, hattempt, hd, Option.map_some,
                        Bool.false_eq_true, if_false]
                    · exact (congrArg Bool.not hstale).symm
                | discard =>
                    obtain ⟨d, hd, hconf⟩ := ih (fun i => clock (i + 1)) w' q.dropFront hlen
                    refine ⟨d.after ⟨x, clock 0, some .discard⟩, ?_, hconf.after hq rfl rfl ?_ (hanswer d)⟩
                    · rw [drainQueue, hpeek]
                      simp only [QueueFront.value, hstale, hattempt, hd, Option.map_some,
                        Bool.false_eq_true, if_false]
                    · exact (congrArg Bool.not hstale).symm
                | abandon result =>
                    refine ⟨⟨q.dropFront, [⟨x, clock 0, some (.abandon result)⟩], w', result⟩,
                      ?_, ?_⟩
                    · rw [drainQueue, hpeek]
                      simp only [QueueFront.value, hstale, hattempt, Bool.false_eq_true, if_false]
                    · refine .last hq hstale hattempt ?_ rfl rfl
                      refine .abandoned (fun t ht => absurd ht List.not_mem_nil) rfl rfl ?_
                      rw [hq, Queue.dropFront_items, hq]
                      rfl
                | refuse result =>
                    refine ⟨⟨q, [⟨x, clock 0, some (.refuse result)⟩], w', result⟩, ?_, ?_⟩
                    · rw [drainQueue, hpeek]
                      simp only [QueueFront.value, hstale, hattempt, Bool.false_eq_true, if_false,
                        QueueFront.drop_dropFront hq]
                    · refine .last hq hstale hattempt ?_ rfl rfl
                      exact .refused (fun t ht => absurd ht List.not_mem_nil) rfl rfl hq hq
      all_goals
        have hpeek : ∃ e, q.tryPeek = .error e := by rw [Queue.tryPeek, hpop]; exact ⟨_, rfl⟩
        obtain ⟨e, hpeek⟩ := hpeek
        refine ⟨⟨q, [], w, finished⟩, by rw [drainQueue, hpeek], ?_⟩
        refine ⟨List.nil_prefix, rfl, ?_, rfl, .exhausted ?_ rfl hq hq, rfl, rfl⟩
        · exact fun t ht => absurd ht List.not_mem_nil
        · exact fun t ht => absurd ht List.not_mem_nil

/-! ## What a call removes -/

theorem Answers.fate_mem {w' : σ} {turns : List (Turn ι τ ρ)} :
    ∀ {w : σ}, Answers attempt w' w turns →
      ∀ t ∈ turns, ∀ v, t.fate = some v → ∃ u, (attempt t.item u).2 = v := by
  induction turns with
  | nil => intro w _ t ht; exact absurd ht List.not_mem_nil
  | cons t₀ turns ih =>
      intro w h t ht v hv
      obtain ⟨x, now, fate⟩ := t₀
      cases fate with
      | none =>
          rcases List.mem_cons.mp ht with rfl | ht
          · cases hv
          · exact @ih w h t ht v hv
      | some v₀ =>
          obtain ⟨hanswer, hrest⟩ := h
          rcases List.mem_cons.mp ht with rfl | ht
          · exact ⟨w, hanswer.trans (Option.some.inj hv)⟩
          · exact ih hrest t ht v hv

theorem filter_passed {passed : List (Turn ι τ ρ)} :
    (∀ t ∈ passed, t.passes = true) → passed.filter (!·.isRefused) = passed := by
  intro h
  refine List.filter_eq_self.mpr fun t ht => ?_
  rw [Turn.isRefused_of_passes (h t ht)]
  rfl

/-- Every item looked at is gone but the one that was refused; the rest keeps
its order. -/
theorem Ends.removed {q : Queue ι} {d : Report ι τ ρ σ} (h : Ends finished q d) :
    q.items = (d.turns.filter (!·.isRefused)).map (·.item) ++ d.queue.items := by
  cases h with
  | exhausted hp _ hi he => rw [filter_passed hp, hi, he, List.append_nil]
  | abandoned hp hturns _ hi =>
      rw [hturns, List.filter_append, filter_passed hp, hi, List.map_append, List.append_assoc]
      rfl
  | refused hp hturns _ hi he =>
      rw [hturns, List.filter_append, filter_passed hp, hi, List.map_append, List.append_assoc, he]
      rfl

/-- What is sent comes off the front, in order, before what stays. -/
theorem Ends.sent_sublist {q : Queue ι} {d : Report ι τ ρ σ} (h : Ends finished q d) :
    (d.sent ++ d.queue.items).Sublist q.items := by
  rw [h.removed]
  refine List.Sublist.append_right ?_ _
  refine List.Sublist.map _ (List.monotone_filter_right d.turns fun t ht => ?_)
  rw [Turn.isRefused_of_isSent ht]
  rfl

end Loop

end AutobricksVpn.QueueDrain
