/-
# `AutobricksVpn.Base.Queue` — the bounded queue between worker threads

`Queue<T>` of `src/base/queue.rs`, one function per method.  Every method holds
the state mutex for its whole body, so a method is one atomic step and is
modelled by a pure function from the state it finds to the state it leaves.
The condition variable only decides when a blocked caller looks again; a
blocking method that would go back to waiting answers `none` here.

The three facts that every method keeps are fields of the structure: the
capacity is positive (`Queue::new` rejects zero), at most `capacity` items are
queued, and a closed queue is empty.
-/
import Mathlib.Data.List.Basic

namespace AutobricksVpn

/-- `Queue<T>` together with the `State<T>` behind its mutex. -/
structure Queue (α : Type) where
  capacity : Nat
  items : List α
  closed : Bool
  generation : UInt64
  capacity_pos : 0 < capacity
  bounded : items.length ≤ capacity
  drained : closed = true → items = []
  deriving DecidableEq

/-- `QueueFront`: an item taken out of the queue but not yet committed. -/
structure QueueFront (α : Type) where
  item : α
  deriving DecidableEq

structure InvalidCapacity where
  deriving DecidableEq

/-- `PushError`: the refused item, handed back. -/
structure PushError (α : Type) where
  item : α
  deriving DecidableEq

inductive TryPopError where
  | empty
  | closed
  deriving DecidableEq

namespace Queue

variable {α : Type}

/-- The queue `Queue::new` makes of a positive capacity. -/
def fresh (capacity : Nat) (h : 0 < capacity) : Queue α :=
  { capacity := capacity, items := [], closed := false, generation := 0,
    capacity_pos := h, bounded := Nat.zero_le _, drained := fun _ => rfl }

def new (capacity : Nat) : Except InvalidCapacity (Queue α) :=
  if h : 0 < capacity then .ok (fresh capacity h) else .error {}

def len (q : Queue α) : Nat := q.items.length

def isEmpty (q : Queue α) : Bool := q.len == 0

def isClosed (q : Queue α) : Bool := q.closed

/-- `generation.wrapping_add(1)`; the items are untouched. -/
def notifyChange (q : Queue α) : Queue α := { q with generation := q.generation + 1 }

/-- The queue without its oldest item. -/
def dropFront (q : Queue α) : Queue α :=
  { q with
    items := q.items.tail
    bounded := by have := q.bounded; rw [List.length_tail]; omega
    drained := fun h => by rw [q.drained h]; rfl }

/-- An open queue with other contents. -/
def withItems (q : Queue α) (items : List α) (hopen : q.closed = false)
    (hb : items.length ≤ q.capacity) : Queue α :=
  { q with
    items := items
    bounded := hb
    drained := fun h => absurd (hopen.symm.trans h) Bool.false_ne_true }

theorem length_tail_append_le (q : Queue α) (item : α) :
    (q.items.tail ++ [item]).length ≤ q.capacity := by
  have := q.capacity_pos
  have := q.bounded
  rw [List.length_append, List.length_tail, List.length_singleton]
  omega

theorem length_append_le {q : Queue α} (hf : q.items.length ≠ q.capacity) (item : α) :
    (q.items ++ [item]).length ≤ q.capacity := by
  have := q.bounded
  rw [List.length_append, List.length_singleton]
  omega

/-- `push`: a full queue gives up its oldest item, which is returned. -/
def push (q : Queue α) (item : α) : Except (PushError α) (Queue α × Option α) :=
  if hc : q.closed = false then
    if hf : q.items.length = q.capacity then
      .ok ((q.withItems (q.items.tail ++ [item]) hc (q.length_tail_append_le item)).notifyChange,
        q.items.head?)
    else
      .ok ((q.withItems (q.items ++ [item]) hc (length_append_le hf item)).notifyChange, none)
  else .error ⟨item⟩

/-- `pop`: `none` while the caller keeps waiting. -/
def pop (q : Queue α) : Option (Option α × Queue α) :=
  if q.items.isEmpty && !q.closed then none
  else if q.closed then some (none, q)
  else some (q.items.head?, q.dropFront)

/-- `pop_timeout` when it stops waiting, for whichever reason. -/
def popTimeout (q : Queue α) : Option α × Queue α :=
  if q.closed then (none, q) else (q.items.head?, q.dropFront)

/-- `peek`: `none` while the caller keeps waiting. -/
def peek (q : Queue α) : Option (Option (QueueFront α) × Queue α) :=
  match q.pop with
  | none => none
  | some (item, q') => some (item.map QueueFront.mk, q')

def tryPop (q : Queue α) : Except TryPopError (α × Queue α) :=
  match q.items with
  | item :: _ => .ok (item, q.dropFront)
  | [] => if q.closed then .error .closed else .error .empty

def tryPeek (q : Queue α) : Except TryPopError (QueueFront α × Queue α) :=
  match q.tryPop with
  | .ok (item, q') => .ok (⟨item⟩, q')
  | .error e => .error e

/-- `close`: pending items are discarded, once. -/
def close (q : Queue α) : Queue α :=
  if q.closed then q
  else
    { q with
      items := []
      closed := true
      generation := q.generation + 1
      bounded := Nat.zero_le _
      drained := fun _ => rfl }

/-- `wait_for_change`: `none` while the caller keeps waiting. -/
def waitForChange (q : Queue α) (observed : UInt64) : Option Bool :=
  if q.generation == observed && !q.closed then none else some (!q.closed)

end Queue

namespace QueueFront

variable {α : Type}

def value (front : QueueFront α) : α := front.item

/-- `QueueFront::pop`: the removal is committed and the queue is not touched. -/
def pop (front : QueueFront α) : α := front.item

theorem length_cons_dropLast_le (front : QueueFront α) (q : Queue α) :
    (front.item :: q.items.dropLast).length ≤ q.capacity := by
  have := q.capacity_pos
  have := q.bounded
  rw [List.length_cons, List.length_dropLast]
  omega

theorem length_cons_le (front : QueueFront α) {q : Queue α}
    (hf : q.items.length ≠ q.capacity) : (front.item :: q.items).length ≤ q.capacity := by
  have := q.bounded
  rw [List.length_cons]
  omega

/-- `Drop for QueueFront`: the item goes back to the front.  When producers
have refilled the queue meanwhile, the newest item makes room for it. -/
def drop (front : QueueFront α) (q : Queue α) : Queue α :=
  if hc : q.closed = false then
    if hf : q.items.length = q.capacity then
      q.withItems (front.item :: q.items.dropLast) hc (front.length_cons_dropLast_le q)
    else q.withItems (front.item :: q.items) hc (front.length_cons_le hf)
  else q

end QueueFront

/-! ## What each method leaves behind -/

namespace Queue

variable {α : Type}

@[simp] theorem dropFront_items (q : Queue α) : q.dropFront.items = q.items.tail := rfl
@[simp] theorem dropFront_closed (q : Queue α) : q.dropFront.closed = q.closed := rfl
@[simp] theorem dropFront_capacity (q : Queue α) : q.dropFront.capacity = q.capacity := rfl
@[simp] theorem withItems_items (q : Queue α) (items : List α) (ho hb) :
    (q.withItems items ho hb).items = items := rfl
@[simp] theorem withItems_closed (q : Queue α) (items : List α) (ho hb) :
    (q.withItems items ho hb).closed = q.closed := rfl
@[simp] theorem withItems_capacity (q : Queue α) (items : List α) (ho hb) :
    (q.withItems items ho hb).capacity = q.capacity := rfl
@[simp] theorem notifyChange_items (q : Queue α) : q.notifyChange.items = q.items := rfl
@[simp] theorem notifyChange_closed (q : Queue α) : q.notifyChange.closed = q.closed := rfl
@[simp] theorem notifyChange_capacity (q : Queue α) : q.notifyChange.capacity = q.capacity := rfl

theorem new_ok {c : Nat} {q : Queue α} (h : Queue.new c = .ok q) :
    q.capacity = c ∧ q.items = [] ∧ q.closed = false ∧ 0 < c := by
  unfold Queue.new at h
  split at h
  · rename_i hc
    cases h
    exact ⟨rfl, rfl, rfl, hc⟩
  · exact nomatch h

/-- Every outcome of `push`: refused when closed, room made when full,
otherwise appended. -/
theorem push_cases (q : Queue α) (x : α) :
    (q.closed = true ∧ q.push x = .error ⟨x⟩) ∨
    (∃ old rest q', q.closed = false ∧ q.items.length = q.capacity ∧ q.items = old :: rest ∧
      q.push x = .ok (q', some old) ∧ q'.items = rest ++ [x] ∧ q'.closed = false ∧
      q'.capacity = q.capacity) ∨
    (∃ q', q.closed = false ∧ q.items.length < q.capacity ∧
      q.push x = .ok (q', none) ∧ q'.items = q.items ++ [x] ∧ q'.closed = false ∧
      q'.capacity = q.capacity) := by
  by_cases hc : q.closed = false
  · by_cases hf : q.items.length = q.capacity
    · obtain ⟨old, rest, hi⟩ : ∃ old rest, q.items = old :: rest :=
        List.exists_cons_of_length_pos (by rw [hf]; exact q.capacity_pos)
      refine .inr (.inl ⟨old, rest, (q.withItems (q.items.tail ++ [x]) hc
        (q.length_tail_append_le x)).notifyChange, hc, hf, hi, ?_, ?_, hc, rfl⟩)
      · unfold push
        rw [dif_pos hc, dif_pos hf, show q.items.head? = some old by rw [hi]; rfl]
      · simp [hi]
    · refine .inr (.inr ⟨(q.withItems (q.items ++ [x]) hc
        (length_append_le hf x)).notifyChange, hc, Nat.lt_of_le_of_ne q.bounded hf, ?_, rfl, hc, rfl⟩)
      unfold push
      rw [dif_pos hc, dif_neg hf]
  · exact .inl ⟨by simpa using hc, by unfold push; rw [dif_neg hc]⟩

theorem close_items (q : Queue α) : q.close.items = [] := by
  unfold close
  split
  · rename_i h; exact q.drained h
  · rfl

theorem close_closed (q : Queue α) : q.close.closed = true := by
  unfold close
  split
  · rename_i h; exact h
  · rfl

theorem close_capacity (q : Queue α) : q.close.capacity = q.capacity := by
  unfold close; split <;> rfl

/-- Every outcome of `try_pop`. -/
theorem tryPop_cases (q : Queue α) :
    (∃ x rest, q.items = x :: rest ∧ q.tryPop = .ok (x, q.dropFront)) ∨
    (q.items = [] ∧ q.closed = true ∧ q.tryPop = .error .closed) ∨
    (q.items = [] ∧ q.closed = false ∧ q.tryPop = .error .empty) := by
  unfold tryPop
  cases hi : q.items with
  | nil => cases hc : q.closed <;> simp
  | cons x rest => exact .inl ⟨x, rest, rfl, rfl⟩

/-- Every outcome of `pop`. -/
theorem pop_cases (q : Queue α) :
    (q.items = [] ∧ q.closed = false ∧ q.pop = none) ∨
    (q.closed = true ∧ q.pop = some (none, q)) ∨
    (∃ x rest, q.items = x :: rest ∧ q.closed = false ∧ q.pop = some (some x, q.dropFront)) := by
  unfold pop
  cases hc : q.closed with
  | true => simp
  | false => cases hi : q.items <;> simp

/-- Every outcome of `pop_timeout`: nothing, or the oldest item of an open queue. -/
theorem popTimeout_cases (q : Queue α) :
    (q.closed = true ∧ q.popTimeout = (none, q)) ∨
    (q.items = [] ∧ q.closed = false ∧ q.popTimeout = (none, q)) ∨
    (∃ x rest, q.items = x :: rest ∧ q.closed = false ∧ q.popTimeout = (some x, q.dropFront)) := by
  unfold popTimeout
  cases hc : q.closed with
  | true => simp
  | false =>
      cases hi : q.items with
      | nil =>
          refine .inr (.inl ⟨rfl, rfl, ?_⟩)
          cases q
          simp_all [dropFront]
      | cons x rest => exact .inr (.inr ⟨x, rest, rfl, rfl, by simp⟩)

end Queue

namespace QueueFront

variable {α : Type}

/-- Every outcome of dropping a reservation. -/
theorem drop_cases (front : QueueFront α) (q : Queue α) :
    (q.closed = true ∧ front.drop q = q) ∨
    (∃ init last, q.closed = false ∧ q.items.length = q.capacity ∧ q.items = init ++ [last] ∧
      (front.drop q).items = front.item :: init ∧ (front.drop q).closed = false) ∨
    (q.closed = false ∧ q.items.length < q.capacity ∧
      (front.drop q).items = front.item :: q.items ∧ (front.drop q).closed = false) := by
  by_cases hc : q.closed = false
  · by_cases hf : q.items.length = q.capacity
    · have hne : q.items ≠ [] := by
        intro h
        have := q.capacity_pos
        rw [← hf, h] at this
        exact absurd this (Nat.lt_irrefl 0)
      refine .inr (.inl ⟨q.items.dropLast, q.items.getLast hne, hc, hf,
        (List.dropLast_append_getLast hne).symm, ?_, ?_⟩) <;>
        simp [drop, hc, hf]
    · refine .inr (.inr ⟨hc, Nat.lt_of_le_of_ne q.bounded hf, ?_, ?_⟩) <;> simp [drop, hc, hf]
  · exact .inl ⟨by simpa using hc, by unfold drop; rw [dif_neg hc]⟩

@[simp] theorem drop_capacity (front : QueueFront α) (q : Queue α) :
    (front.drop q).capacity = q.capacity := by
  unfold drop
  split
  · split <;> rfl
  · rfl

/-- An item that is put back where nothing has changed since. -/
theorem drop_dropFront {q : Queue α} {x : α} {rest : List α} :
    q.items = x :: rest → (⟨x⟩ : QueueFront α).drop q.dropFront = q := by
  intro hitems
  obtain ⟨capacity, items, closed, generation, hpos, hbounded, hdrained⟩ := q
  obtain rfl : items = x :: rest := hitems
  have hopen : closed = false := by
    cases closed with
    | false => rfl
    | true => exact absurd (hdrained rfl) (List.cons_ne_nil x rest)
  have hroom : rest.length ≠ capacity := Nat.ne_of_lt hbounded
  unfold drop
  rw [dif_pos (show Queue.closed _ = false from hopen), dif_neg (by simpa using hroom)]
  rfl

end QueueFront

/-- What `try_peek` takes out, `drop` puts back. -/
theorem Queue.tryPeek_ok {α : Type} {q left : Queue α} {front : QueueFront α} :
    q.tryPeek = .ok (front, left) →
    front.value ∈ q.items ∧ left = q.dropFront ∧ front.drop left = q := by
  intro h
  unfold Queue.tryPeek at h
  rcases q.tryPop_cases with ⟨x, rest, hitems, hpop⟩ | ⟨-, -, hpop⟩ | ⟨-, -, hpop⟩
  · rw [hpop] at h
    obtain ⟨rfl, rfl⟩ := Prod.mk.inj (Except.ok.inj h)
    refine ⟨?_, rfl, QueueFront.drop_dropFront hitems⟩
    rw [hitems]
    exact List.mem_cons_self
  · rw [hpop] at h
    cases h
  · rw [hpop] at h
    cases h

end AutobricksVpn
