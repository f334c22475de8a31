/-
# `AutobricksVpn.Lib.RemovalLoop` — loops that remove by index, turn by turn

Two schemes for removing elements of a vector in place with `swap_remove`, which
moves the last element into the hole.

A forward loop looks at the element at its index.  It removes that element and
stays where it is, or changes it and goes on (`Scan.turn`).  Whatever the body
decides, and it may decide by the number of the turn, the loop over `l` ends
after `l.length` turns, has looked at each element once, and has kept and
removed what the body decided for it (`scan_turns`).

A loop over recorded indices removes them one after the other, and must not be
given an index out of range (`swapRemoveEach`).  Over an increasing list,
backwards, it removes the elements at those indices and no other
(`swapRemoveEach_reverse`).
-/
import AutobricksVpn.Lib.Vec
import Mathlib.Data.List.Sort

namespace Vec

variable {σ α β : Type*}

/-! ## Turns -/

/-- The loop that stands in `s` is over after `n` more turns, in `t`.  A turn
answers `none` when the loop is over. -/
inductive Turns (turn : σ → Option σ) : Nat → σ → σ → Prop
  | done {s : σ} : turn s = none → Turns turn 0 s s
  | again {n : Nat} {s s' t : σ} : turn s = some s' → Turns turn n s' t → Turns turn (n + 1) s t

/-! ## The forward loop -/

/-- A vector under a forward loop: the index, the vector as it is, and the
elements looked at and removed so far, in order. -/
structure Scan (α : Type*) where
  index : Nat
  vec : List α
  examined : List α
  removed : List α

namespace Scan

def start (l : List α) : Scan α := { index := 0, vec := l, examined := [], removed := [] }

/-- One turn of `while index < vec.len() { … }`.  The body is given the number
of the turn and the element; it answers `none` to remove it. -/
def turn (body : Nat → α → Option α) (s : Scan α) : Option (Scan α) :=
  if h : s.index < s.vec.length then
    let x := s.vec[s.index]
    match body s.examined.length x with
    | none =>
        some
          { s with
            vec := swapRemove s.vec s.index
            examined := s.examined ++ [x]
            removed := s.removed ++ [x] }
    | some y =>
        some
          { s with
            index := s.index + 1
            vec := s.vec.set s.index y
            examined := s.examined ++ [x] }
  else none

/-- What becomes of the elements, the first of them looked at in turn `n`. -/
def kept (body : Nat → α → Option α) (n : Nat) (examined : List α) : List α :=
  (examined.zipIdx n).filterMap fun x => body x.2 x.1

def dropped (body : Nat → α → Option α) (n : Nat) (examined : List α) : List α :=
  ((examined.zipIdx n).filter fun x => (body x.2 x.1).isNone).map Prod.fst

end Scan

variable {body : Nat → α → Option α}

/-- The turn that looks at `x`, with `pre` before it and `post` after it. -/
theorem turn_at (pre post examined removed : List α) (x : α) :
    Scan.turn body ⟨pre.length, pre ++ x :: post, examined, removed⟩ =
      match body examined.length x with
      | none => some ⟨pre.length, pre ++ rotate post, examined ++ [x], removed ++ [x]⟩
      | some y => some ⟨(pre ++ [y]).length, pre ++ [y] ++ post, examined ++ [x], removed⟩ := by
  have hlt : pre.length < (pre ++ x :: post).length := by simp
  have hget : (pre ++ x :: post)[pre.length] = x := by simp
  simp only [Scan.turn, hlt, dif_pos, hget]
  cases body examined.length x with
  | none => simp only [swapRemove_append]
  | some y => simp [List.set_append_right]

/-- The loop, standing between `pre` and `post`.  The induction is on the number
of elements after the index, which every turn lowers. -/
theorem turns_append :
    ∀ (n : Nat) (pre post examined removed : List α), post.length = n →
      ∃ seen, seen.Perm post ∧
        Turns (Scan.turn body) n ⟨pre.length, pre ++ post, examined, removed⟩
          ⟨(pre ++ Scan.kept body examined.length seen).length,
            pre ++ Scan.kept body examined.length seen, examined ++ seen,
            removed ++ Scan.dropped body examined.length seen⟩ := by
  intro n
  induction n with
  | zero =>
      intro pre post examined removed hlen
      obtain rfl := List.length_eq_zero_iff.mp hlen
      refine ⟨[], List.Perm.refl _, ?_⟩
      simp only [Scan.kept, Scan.dropped, List.zipIdx_nil, List.filterMap_nil, List.filter_nil,
        List.map_nil, List.append_nil]
      exact .done (by simp [Scan.turn])
  | succ n ih =>
      intro pre post examined removed hlen
      obtain ⟨x, post, rfl⟩ := List.exists_cons_of_length_eq_add_one hlen
      have hturn := @turn_at α body pre post examined removed x
      cases hx : body examined.length x with
      | none =>
          have hrotate := rotate_perm post
          obtain ⟨seen, hperm, hrest⟩ := ih pre (rotate post) (examined ++ [x]) (removed ++ [x])
            (by rw [hrotate.length_eq]; simpa using hlen)
          refine ⟨x :: seen, (hperm.trans hrotate).cons x, ?_⟩
          rw [hx] at hturn
          simpa [Scan.kept, Scan.dropped, hx, List.zipIdx_cons] using Turns.again hturn hrest
      | some y =>
          obtain ⟨seen, hperm, hrest⟩ := ih (pre ++ [y]) post (examined ++ [x]) removed
            (by simpa using hlen)
          refine ⟨x :: seen, hperm.cons x, ?_⟩
          rw [hx] at hturn
          simpa [Scan.kept, Scan.dropped, hx, List.zipIdx_cons] using Turns.again hturn hrest

/-- The loop over `l` is over after as many turns as `l` has elements, and it
has looked at each once. -/
theorem scan_turns (body : Nat → α → Option α) (l : List α) :
    ∃ seen, seen.Perm l ∧
      Turns (Scan.turn body) l.length (Scan.start l)
        ⟨(Scan.kept body 0 seen).length, Scan.kept body 0 seen, seen, Scan.dropped body 0 seen⟩ :=
  turns_append l.length [] l [] [] rfl

/-- What the body leaves alone is that of the elements it keeps. -/
theorem map_kept {g : α → β} (hg : ∀ k x y, body k x = some y → g y = g x) (n : Nat)
    (seen : List α) :
    (Scan.kept body n seen).map g =
      ((seen.zipIdx n).filter fun x => !(body x.2 x.1).isNone).map fun x => g x.1 := by
  induction seen generalizing n with
  | nil => rfl
  | cons x seen ih =>
      have hrest := ih (n + 1)
      rw [Scan.kept] at hrest ⊢
      rw [List.zipIdx_cons]
      cases hx : body n x with
      | none => simpa [hx] using hrest
      | some y => simpa [hx, hg n x y hx] using hrest

theorem kept_const (f : α → Option α) (n : Nat) (seen : List α) :
    Scan.kept (fun _ => f) n seen = seen.filterMap f := by
  calc (seen.zipIdx n).filterMap (fun x => f x.1)
      = ((seen.zipIdx n).map Prod.fst).filterMap f := List.filterMap_map.symm
    _ = seen.filterMap f := by rw [List.zipIdx_map_fst]

theorem dropped_const (f : α → Option α) (n : Nat) (seen : List α) :
    Scan.dropped (fun _ => f) n seen = seen.filter fun x => (f x).isNone := by
  calc ((seen.zipIdx n).filter fun x => (f x.1).isNone).map Prod.fst
      = ((seen.zipIdx n).map Prod.fst).filter fun x => (f x).isNone := by
        rw [List.filter_map]
        rfl
    _ = seen.filter fun x => (f x).isNone := by rw [List.zipIdx_map_fst]

/-! ## The forward loop computed -/

/-- The loop `while i < len { … }` in which the body either drops the element
at `i` (`f` answers `none`; the index stays) or updates it and advances.  The
second component lists what was dropped, in the order it was dropped. -/
def removeLoop (f : α → Option α) : Nat → Nat → List α → List α × List α
  | 0, _, l => (l, [])
  | fuel + 1, i, l =>
      match l[i]? with
      | none => (l, [])
      | some x =>
          match f x with
          | none =>
              let r := removeLoop f fuel i (swapRemove l i)
              (r.1, x :: r.2)
          | some y => removeLoop f fuel (i + 1) (l.set i y)

/-- `removeLoop` computes where the loop ends. -/
theorem removeLoop_of_turns {f : α → Option α} {n : Nat} {s t : Scan α} :
    Turns (Scan.turn fun _ => f) n s t → ∀ fuel, n ≤ fuel →
      t.vec = (removeLoop f fuel s.index s.vec).1 ∧
      t.removed = s.removed ++ (removeLoop f fuel s.index s.vec).2 := by
  intro h
  induction h with
  | @done s hover =>
      intro fuel _
      have hend : s.vec[s.index]? = none := by
        by_cases hlt : s.index < s.vec.length
        · rw [Scan.turn, dif_pos hlt] at hover
          dsimp only at hover
          split at hover <;> cases hover
        · exact List.getElem?_eq_none (Nat.not_lt.mp hlt)
      cases fuel <;> simp [removeLoop, hend]
  | @again n s s' t hturn _ ih =>
      intro fuel hle
      obtain ⟨fuel, rfl⟩ : ∃ k, fuel = k + 1 := ⟨fuel - 1, by omega⟩
      obtain ⟨hvec, hremoved⟩ := ih fuel (Nat.le_of_succ_le_succ hle)
      by_cases hlt : s.index < s.vec.length
      · have hget : s.vec[s.index]? = some s.vec[s.index] := List.getElem?_eq_getElem hlt
        rw [Scan.turn, dif_pos hlt] at hturn
        dsimp only at hturn
        rw [removeLoop, hget]
        dsimp only
        cases hx : f s.vec[s.index] with
        | none =>
            rw [hx] at hturn
            obtain rfl := Option.some.inj hturn
            exact ⟨hvec, by rw [hremoved, List.append_assoc, List.singleton_append]⟩
        | some y =>
            rw [hx] at hturn
            obtain rfl := Option.some.inj hturn
            exact ⟨hvec, hremoved⟩
      · rw [Scan.turn, dif_neg hlt] at hturn
        cases hturn

/-- The loop keeps exactly what `f` keeps, up to order. -/
theorem removeLoop_kept (f : α → Option α) (l : List α) :
    (removeLoop f l.length 0 l).1.Perm (l.filterMap f) := by
  obtain ⟨seen, hperm, hturns⟩ := scan_turns (fun _ => f) l
  have hkept : Scan.kept (fun _ => f) 0 seen = (removeLoop f l.length 0 l).1 :=
    (removeLoop_of_turns hturns l.length (Nat.le_refl _)).1
  rw [← hkept, kept_const]
  exact hperm.filterMap f

/-- The loop drops exactly what `f` drops, each once. -/
theorem removeLoop_removed (f : α → Option α) (l : List α) :
    (removeLoop f l.length 0 l).2.Perm (l.filter fun x => (f x).isNone) := by
  obtain ⟨seen, hperm, hturns⟩ := scan_turns (fun _ => f) l
  have hdropped : Scan.dropped (fun _ => f) 0 seen = (removeLoop f l.length 0 l).2 :=
    (removeLoop_of_turns hturns l.length (Nat.le_refl _)).2
  rw [← hdropped, dropped_const]
  exact hperm.filter _

/-- A loop that drops nothing keeps the order. -/
theorem removeLoop_of_isSome (f : α → Option α) (l : List α) :
    (∀ x ∈ l, (f x).isSome = true) → removeLoop f l.length 0 l = (l.filterMap f, []) := by
  suffices h : ∀ (post pre : List α), (∀ x ∈ post, (f x).isSome = true) →
      removeLoop f post.length pre.length (pre ++ post) = (pre ++ post.filterMap f, []) from
    h l []
  intro post
  induction post with
  | nil => intro pre _; simp [removeLoop]
  | cons x post ih =>
      intro pre hsome
      obtain ⟨y, hf⟩ := Option.isSome_iff_exists.mp (hsome x List.mem_cons_self)
      have hx : (pre ++ x :: post)[pre.length]? = some x := by simp
      have hset : (pre ++ x :: post).set pre.length y = (pre ++ [y]) ++ post := by
        rw [List.set_append_right _ _ (Nat.le_refl _)]; simp
      have hrest := ih (pre ++ [y]) fun z hz => hsome z (List.mem_cons_of_mem x hz)
      simp only [List.length_cons, removeLoop, hx, hf, hset]
      simpa [List.filterMap_cons, hf] using hrest

theorem filterMap_unless (p : α → Bool) (l : List α) :
    l.filterMap (fun x => if p x then none else some x) = l.filter fun x => !p x := by
  induction l with
  | nil => rfl
  | cons x l ih => cases hp : p x <;> simp [hp, ih]

theorem filter_unless (p : α → Bool) (l : List α) :
    (l.filter fun x => (if p x then none else some x).isNone) = l.filter p := by
  refine List.filter_congr fun x _ => ?_
  cases p x <;> rfl

/-- The loop that only drops: it keeps and drops what a filter would. -/
theorem removeLoop_filter (p : α → Bool) (l : List α) :
    (removeLoop (fun x => if p x then none else some x) l.length 0 l).1.Perm
      (l.filter fun x => !p x) ∧
    (removeLoop (fun x => if p x then none else some x) l.length 0 l).2.Perm (l.filter p) :=
  ⟨filterMap_unless p l ▸ removeLoop_kept _ l, filter_unless p l ▸ removeLoop_removed _ l⟩

/-! ## The loop over recorded indices -/

/-- `swap_remove`: what it returns, and what it leaves.  It panics (`none`) when
the index is out of range. -/
def trySwapRemove (l : List α) (i : Nat) : Option (α × List α) :=
  l[i]?.map fun x => (x, swapRemove l i)

/-- `for i in indices { vec.swap_remove(i); }`, with what is removed in order. -/
def swapRemoveEach : List α → List Nat → Option (List α × List α)
  | l, [] => some ([], l)
  | l, i :: indices =>
      match trySwapRemove l i with
      | none => none
      | some (x, rest) => (swapRemoveEach rest indices).map fun r => (x :: r.1, r.2)

theorem getElem?_swapRemove {l : List α} {i j : Nat} :
    i < l.length → j < i → (swapRemove l i)[j]? = l[j]? := by
  intro hi hj
  obtain ⟨pre, post, hl, rfl⟩ := exists_split hi
  rw [hl, swapRemove_append, List.getElem?_append_left hj, List.getElem?_append_left hj]

/-- Going down, every index is still in range, and its element still there. -/
theorem swapRemoveEach_descending :
    ∀ (indices : List Nat) (l : List α), indices.Pairwise (fun i j => j < i) →
      (∀ i ∈ indices, i < l.length) →
      swapRemoveEach l indices =
        some (indices.filterMap (fun i => l[i]?), swapRemoveAll l indices) := by
  intro indices
  induction indices with
  | nil => exact fun _ _ _ => rfl
  | cons i indices ih =>
      intro l hsorted hrange
      obtain ⟨hbelow, hsorted⟩ := List.pairwise_cons.mp hsorted
      have hi : i < l.length := hrange i List.mem_cons_self
      have hget : l[i]? = some l[i] := List.getElem?_eq_getElem hi
      have hlen : (swapRemove l i).length + 1 = l.length := (perm_swapRemove hi).length_eq
      have hrest := ih (swapRemove l i) hsorted fun j hj => by
        have := hbelow j hj
        omega
      have hsame : indices.filterMap (fun j => (swapRemove l i)[j]?) =
          indices.filterMap fun j => l[j]? :=
        List.filterMap_congr fun j hj => getElem?_swapRemove hi (hbelow j hj)
      rw [swapRemoveEach, trySwapRemove, hget, Option.map_some]
      dsimp only
      rw [hrest, hsame, List.filterMap_cons, hget]
      rfl

/-- The indices of the marked elements, going up. -/
theorem filter_range {n : Nat} {indices : List Nat} :
    indices.Pairwise (fun i j => i < j) → (∀ i ∈ indices, i < n) →
    ((List.range n).filter fun i => decide (i ∈ indices)) = indices := by
  intro hsorted hrange
  refine List.Pairwise.eq_of_mem_iff (List.pairwise_lt_range.filter _) hsorted fun i => ?_
  rw [List.mem_filter, List.mem_range, decide_eq_true_eq]
  exact ⟨And.right, fun h => ⟨hrange i h, h⟩⟩

theorem swapRemoveAll_reverse {indices : List Nat} {l : List α} :
    indices.Pairwise (fun i j => i < j) → (∀ i ∈ indices, i < l.length) →
    (swapRemoveAll l indices.reverse).Perm
      ((l.zipIdx.filter fun x => decide (x.2 ∉ indices)).map Prod.fst) := by
  intro hsorted hrange
  have hmarked : (l.zipIdx.zipIdx.filter fun x => decide (x.1.2 ∈ indices)).map Prod.snd =
      indices := by
    calc (l.zipIdx.zipIdx.filter fun x => decide (x.1.2 ∈ indices)).map Prod.snd
        = (l.zipIdx.zipIdx.filter fun x => decide (x.2 ∈ indices)).map Prod.snd := by
          refine congrArg _ (List.filter_congr fun x hx => ?_)
          have hget := List.mk_mem_zipIdx_iff_getElem?.mp hx
          rw [List.getElem?_zipIdx] at hget
          obtain ⟨y, -, hy⟩ := Option.map_eq_some_iff.mp hget
          rw [← hy, Nat.zero_add]
      _ = (l.zipIdx.zipIdx.map Prod.snd).filter fun i => decide (i ∈ indices) := by
          rw [List.filter_map]
          rfl
      _ = indices := by
          rw [List.zipIdx_map_snd, List.length_zipIdx, ← List.range_eq_range']
          exact filter_range hsorted hrange
  obtain ⟨rest, hrest, hperm⟩ :=
    swapRemoveAll_marked Prod.fst (fun x : α × Nat => decide (x.2 ∈ indices)) l.zipIdx []
  rw [List.nil_append, List.nil_append, List.length_nil, hmarked, List.zipIdx_map_fst] at hrest
  rw [hrest]
  simpa using hperm

/-- **Recorded indices, removed backwards.**  Every index is in range when its
turn comes; the elements at the indices are removed, the last of them first,
and the others stay. -/
theorem swapRemoveEach_reverse {indices : List Nat} {l : List α} :
    indices.Pairwise (fun i j => i < j) → (∀ i ∈ indices, i < l.length) →
    swapRemoveEach l indices.reverse =
      some (indices.reverse.filterMap (fun i => l[i]?), swapRemoveAll l indices.reverse) := by
  intro hsorted hrange
  refine swapRemoveEach_descending indices.reverse l (List.pairwise_reverse.mpr hsorted) ?_
  exact fun i hi => hrange i (List.mem_reverse.mp hi)

/-! ### Indices of marked elements -/

theorem marked_sorted (p : α → Bool) (l : List α) :
    ((l.zipIdx.filter fun x => p x.1).map Prod.snd).Pairwise fun i j => i < j := by
  have hsub := (List.filter_sublist (p := fun x : α × Nat => p x.1) (l := l.zipIdx)).map Prod.snd
  rw [List.zipIdx_map_snd] at hsub
  exact List.Pairwise.sublist hsub (List.pairwise_lt_range' 1)

theorem marked_lt {p : α → Bool} {l : List α} :
    ∀ i ∈ (l.zipIdx.filter fun x => p x.1).map Prod.snd, i < l.length := by
  intro i hi
  obtain ⟨x, hx, rfl⟩ := List.mem_map.mp hi
  have hget := List.mk_mem_zipIdx_iff_getElem?.mp (List.mem_of_mem_filter hx)
  exact (List.getElem?_eq_some_iff.mp hget).1

theorem marked_elements (f : α → β) (p : α → Bool) (l : List α) :
    ((l.zipIdx.filter fun x => p x.1).map Prod.snd).filterMap (fun i => (l.map f)[i]?) =
      (l.filter p).map f := by
  have hget : ∀ x ∈ l.zipIdx.filter fun x => p x.1,
      (l.map f)[x.2]? = some (f x.1) := fun x hx => by
    have hget := List.mk_mem_zipIdx_iff_getElem?.mp (List.mem_of_mem_filter hx)
    rw [List.getElem?_map, hget, Option.map_some]
  calc ((l.zipIdx.filter fun x => p x.1).map Prod.snd).filterMap (fun i => (l.map f)[i]?)
      = (l.zipIdx.filter fun x => p x.1).filterMap fun x => some (f x.1) := by
        rw [List.filterMap_map]
        exact List.filterMap_congr hget
    _ = ((l.zipIdx.map Prod.fst).filter p).map f := by
        rw [List.filterMap_eq_map', List.filter_map, List.map_map]
        rfl
    _ = (l.filter p).map f := by rw [List.zipIdx_map_fst]

/-- The marked elements are removed, and no other. -/
theorem swapRemoveEach_marked (f : α → β) (p : α → Bool) (l : List α) :
    let indices := (l.zipIdx.filter fun x => p x.1).map Prod.snd
    swapRemoveEach (l.map f) indices.reverse =
        some (((l.filter p).map f).reverse, swapRemoveAll (l.map f) indices.reverse) ∧
      (swapRemoveAll (l.map f) indices.reverse).Perm ((l.filter fun x => !p x).map f) := by
  obtain ⟨rest, hrest, hperm⟩ := swapRemoveAll_marked f p l []
  rw [List.nil_append, List.nil_append, List.length_nil] at hrest
  refine ⟨?_, hrest ▸ hperm⟩
  rw [swapRemoveEach_reverse (marked_sorted p l)
    (by rw [List.length_map]; exact marked_lt), List.filterMap_reverse, marked_elements]

end Vec
