/-
# `AutobricksVpn.Lib.Vec` — removal from a vector

Idioms of code that keeps records in a growable array, as operations on lists:
removing one index in constant time by moving the last element into the hole
(`swapRemove`), removing recorded indices one after the other
(`swapRemoveAll`), picking the index of a least or a greatest element
(`firstMinIdx`, `lastMaxIdx`), and a pass that keeps only the last record of
each key by reversing, filtering unseen keys and reversing again (`keepLast`).

The removals permute what they keep, so their contracts are permutations:

    l[i] :: swapRemove l i  ~  l                                   (`perm_swapRemove`)
    swapRemoveAll l (marked, backwards)  ~  what is not marked     (`swapRemoveAll_marked`)

The last is order-preserving, so its contract is a sublist, and which record
of a key survives is a matter of position alone (`keepLast_filter`,
`keepLast_pairwise`).
-/
import Mathlib.Data.List.Basic
import Mathlib.Data.List.Perm.Subperm
import Mathlib.Data.List.MinMax

namespace Vec

variable {α κ : Type*}

/-! ## Moving the last element into the hole -/

/-- Removing index `i` by moving the last element there.  Out of range the
array operation panics; the list is then left alone. -/
def swapRemove (l : List α) (i : Nat) : List α :=
  match l.getLast? with
  | none => l
  | some last => if i < l.length then (l.set i last).dropLast else l

/-- What becomes of the elements after the hole: the last one comes first. -/
def rotate : List α → List α
  | [] => []
  | x :: xs => (x :: xs).getLast (List.cons_ne_nil x xs) :: (x :: xs).dropLast

theorem rotate_perm : ∀ l : List α, (rotate l).Perm l
  | [] => List.Perm.refl _
  | x :: xs => by
      have h := List.dropLast_append_getLast (List.cons_ne_nil x xs)
      calc (rotate (x :: xs)).Perm
            ((x :: xs).dropLast ++ [(x :: xs).getLast (List.cons_ne_nil x xs)]) :=
              (List.perm_append_singleton _ _).symm
        _ = x :: xs := h

/-- The shape of `swapRemove`: the prefix stays, the hole is filled from the
end of the suffix. -/
theorem swapRemove_append (pre : List α) (x : α) (post : List α) :
    swapRemove (pre ++ x :: post) pre.length = pre ++ rotate post := by
  cases post with
  | nil => simp [swapRemove, rotate]
  | cons y ys =>
      have hlast : (pre ++ x :: y :: ys).getLast? = some ((y :: ys).getLast (List.cons_ne_nil y ys)) := by
        simp [List.getLast?_eq_some_getLast]
      simp only [swapRemove, hlast, rotate]
      rw [if_pos (by simp), List.set_append_right _ _ (Nat.le_refl _)]
      simp [List.dropLast_append_of_ne_nil]

theorem exists_split {l : List α} {i : Nat} (h : i < l.length) :
    ∃ pre post, l = pre ++ l[i] :: post ∧ pre.length = i :=
  ⟨l.take i, l.drop (i + 1), by rw [List.getElem_cons_drop, List.take_append_drop],
    by simp [Nat.le_of_lt h]⟩

theorem perm_swapRemove {l : List α} {i : Nat} (h : i < l.length) :
    (l[i] :: swapRemove l i).Perm l := by
  obtain ⟨pre, post, hl, hi⟩ := exists_split h
  generalize l[i] = x at hl
  subst hl; subst hi
  rw [swapRemove_append]
  exact List.perm_middle.symm.trans (((rotate_perm post).cons x).append_left pre)

theorem swapRemove_of_ge {l : List α} {i : Nat} (h : l.length ≤ i) : swapRemove l i = l := by
  unfold swapRemove
  split
  · rfl
  · rw [if_neg (Nat.not_lt.mpr h)]

/-- Whatever the index, nothing new appears. -/
theorem swapRemove_subperm (l : List α) (i : Nat) : (swapRemove l i).Subperm l := by
  by_cases h : i < l.length
  · exact ((List.sublist_cons_self l[i] _).subperm).trans (perm_swapRemove h).subperm
  · rw [swapRemove_of_ge (Nat.not_lt.mp h)]

/-- Up to order, `swapRemove` erases the index. -/
theorem swapRemove_perm_eraseIdx {l : List α} {i : Nat} (h : i < l.length) :
    (swapRemove l i).Perm (l.eraseIdx i) :=
  List.Perm.cons_inv ((perm_swapRemove h).trans (List.getElem_cons_eraseIdx_perm h).symm)

/-- An element written to an index is the one removed from it. -/
theorem swapRemove_set_perm {l : List α} {i : Nat} (h : i < l.length) (x : α) :
    (swapRemove (l.set i x) i).Perm (l.eraseIdx i) := by
  have h' : i < (l.set i x).length := by rwa [List.length_set]
  simpa [List.eraseIdx_set_eq] using swapRemove_perm_eraseIdx h'

/-- Removing one index after the other. -/
def swapRemoveAll (l : List α) (indices : List Nat) : List α := indices.foldl swapRemove l

theorem swapRemoveAll_append (l : List α) (indices indices' : List Nat) :
    swapRemoveAll l (indices ++ indices') = swapRemoveAll (swapRemoveAll l indices) indices' :=
  List.foldl_append

theorem swapRemoveAll_subperm (indices : List Nat) (l : List α) :
    (swapRemoveAll l indices).Subperm l := by
  induction indices generalizing l with
  | nil => exact List.Subperm.refl l
  | cons i indices ih => exact (ih (swapRemove l i)).trans (swapRemove_subperm l i)

/-- Removing the marked indices, the greatest first, leaves what is not marked.
The indices below are not moved by a removal, which the induction uses: it runs
through the elements after the prefix `pre`, the removals through them backwards. -/
theorem swapRemoveAll_marked {β : Type*} (f : α → β) (p : α → Bool) :
    ∀ (post : List α) (pre : List β), ∃ rest,
      swapRemoveAll (pre ++ post.map f)
        (((post.zipIdx pre.length).filter fun x => p x.1).map Prod.snd).reverse = pre ++ rest ∧
      rest.Perm ((post.filter fun x => !p x).map f) := by
  intro post
  induction post with
  | nil => exact fun pre => ⟨[], rfl, List.Perm.refl _⟩
  | cons x post ih =>
      intro pre
      obtain ⟨rest, hrest, hperm⟩ := ih (pre ++ [f x])
      rw [List.length_append, List.length_singleton, List.append_assoc, List.singleton_append,
        List.append_assoc, List.singleton_append] at hrest
      rw [List.zipIdx_cons, List.map_cons]
      cases hp : p x with
      | true =>
          refine ⟨rotate rest, ?_, (rotate_perm rest).trans (by simpa [hp] using hperm)⟩
          rw [List.filter_cons_of_pos (by simpa using hp), List.map_cons, List.reverse_cons,
            swapRemoveAll_append, hrest]
          exact swapRemove_append pre (f x) rest
      | false =>
          refine ⟨f x :: rest, ?_, by simpa [hp] using hperm.cons (f x)⟩
          rwa [List.filter_cons_of_neg (by simp [hp])]

theorem subperm_map {β : Type*} {f : α → β} {l₁ l₂ : List α} :
    l₁.Subperm l₂ → (l₁.map f).Subperm (l₂.map f) := by
  rintro ⟨l, hperm, hsub⟩
  exact ⟨l.map f, hperm.map f, hsub.map f⟩

/-! ## Picking an index -/

/-- The index of the first element with least key among those that satisfy `p`. -/
def firstMinIdx (p : α → Bool) (key : α → Nat) (l : List α) : Option Nat :=
  ((l.zipIdx.filter fun x => p x.1).argmin fun x => key x.1).map Prod.snd

/-- The index of the last element with greatest key among those that satisfy `p`. -/
def lastMaxIdx (p : α → Bool) (key : α → Nat) (l : List α) : Option Nat :=
  ((l.zipIdx.filter fun x => p x.1).reverse.argmax fun x => key x.1).map Prod.snd

theorem firstMinIdx_some {p : α → Bool} {key : α → Nat} {l : List α} {i : Nat}
    (h : firstMinIdx p key l = some i) : ∃ x, l[i]? = some x ∧ p x = true := by
  obtain ⟨⟨x, j⟩, hmem, rfl⟩ := Option.map_eq_some_iff.mp h
  have := List.mem_filter.mp (List.argmin_mem hmem)
  exact ⟨x, List.mk_mem_zipIdx_iff_getElem?.mp this.1, this.2⟩

theorem lastMaxIdx_some {p : α → Bool} {key : α → Nat} {l : List α} {i : Nat}
    (h : lastMaxIdx p key l = some i) : ∃ x, l[i]? = some x ∧ p x = true := by
  obtain ⟨⟨x, j⟩, hmem, rfl⟩ := Option.map_eq_some_iff.mp h
  have := List.mem_filter.mp (List.mem_reverse.mp (List.argmax_mem hmem))
  exact ⟨x, List.mk_mem_zipIdx_iff_getElem?.mp this.1, this.2⟩

theorem firstMinIdx_none {p : α → Bool} {key : α → Nat} {l : List α}
    (h : firstMinIdx p key l = none) : l.countP p = 0 := by
  rw [firstMinIdx, Option.map_eq_none_iff, List.argmin_eq_none] at h
  rw [List.countP_eq_zero]
  intro x hx hp
  obtain ⟨i, hi, rfl⟩ := List.mem_iff_getElem.mp hx
  have : (l[i], i) ∈ l.zipIdx.filter fun x => p x.1 :=
    List.mem_filter.mpr ⟨List.mk_mem_zipIdx_iff_getElem?.mpr (List.getElem?_eq_getElem hi), hp⟩
  rw [h] at this
  exact List.not_mem_nil this

theorem lastMaxIdx_none {p : α → Bool} {key : α → Nat} {l : List α}
    (h : lastMaxIdx p key l = none) : ∀ x ∈ l, p x = false := by
  rw [lastMaxIdx, Option.map_eq_none_iff, List.argmax_eq_none, List.reverse_eq_nil_iff] at h
  intro x hx
  obtain ⟨i, hi, rfl⟩ := List.mem_iff_getElem.mp hx
  have hmem : (l[i], i) ∈ l.zipIdx :=
    List.mk_mem_zipIdx_iff_getElem?.mpr (List.getElem?_eq_getElem hi)
  exact eq_false_of_ne_true (List.filter_eq_nil_iff.mp h _ hmem)

/-- The elements at the indices that satisfy `q`, when that is told by the element. -/
theorem filter_zipIdx {p : α → Bool} {q : Nat → Bool} {l : List α}
    (h : ∀ i x, l[i]? = some x → q i = p x) :
    (l.zipIdx.filter fun x => q x.2).map Prod.fst = l.filter p := by
  have hcongr : (l.zipIdx.filter fun x => q x.2) = l.zipIdx.filter fun x => p x.1 := by
    refine List.filter_congr fun x hx => ?_
    exact h x.2 x.1 (List.mk_mem_zipIdx_iff_getElem?.mp hx)
  calc (l.zipIdx.filter fun x => q x.2).map Prod.fst
      = (l.zipIdx.filter (p ∘ Prod.fst)).map Prod.fst := by rw [hcongr]; rfl
    _ = (l.zipIdx.map Prod.fst).filter p := List.filter_map.symm
    _ = l.filter p := by rw [List.zipIdx_map_fst]

/-- One index. -/
theorem filter_zipIdx_eq (index : Nat) (l : List α) :
    (l.zipIdx.filter fun x => x.2 == index).map Prod.fst = l[index]?.toList := by
  suffices h : ∀ (l : List α) (n : Nat),
      ((l.zipIdx n).filter fun x => x.2 == n + index).map Prod.fst = l[index]?.toList by
    simpa using h l 0
  induction index with
  | zero =>
      intro l n
      cases l with
      | nil => rfl
      | cons x l =>
          have hrest : (l.zipIdx (n + 1)).filter (fun x => x.2 == n + 0) = [] := by
            refine List.filter_eq_nil_iff.mpr fun y hy => ?_
            have hle := (List.mem_zipIdx hy).1
            simp only [beq_iff_eq]
            omega
          rw [List.zipIdx_cons, List.filter_cons_of_pos (by simp), hrest]
          rfl
  | succ index ih =>
      intro l n
      cases l with
      | nil => rfl
      | cons x l =>
          have hrest := ih l (n + 1)
          rw [Nat.add_right_comm] at hrest
          rw [List.zipIdx_cons, List.filter_cons_of_neg (by simp), List.getElem?_cons_succ, ← hrest,
            Nat.add_assoc]

/-! ## Keeping the last record of each key -/

section KeepLast

variable [DecidableEq κ]

/-- One pass that keeps the first record of each key it has not seen; a record
without a key is always kept.  The second component is what it dropped. -/
def retainUnseen (key : α → Option κ) : List κ → List α → List α × List α
  | _, [] => ([], [])
  | seen, x :: xs =>
      match key x with
      | none => let r := retainUnseen key seen xs; (x :: r.1, r.2)
      | some k =>
          if k ∈ seen then let r := retainUnseen key seen xs; (r.1, x :: r.2)
          else let r := retainUnseen key (k :: seen) xs; (x :: r.1, r.2)

/-- Reverse, keep the unseen, reverse: the last record of each key. -/
def keepLast (key : α → Option κ) (l : List α) : List α :=
  (retainUnseen key [] l.reverse).1.reverse

/-- The records `keepLast` drops, in the order the pass meets them. -/
def dropEarlier (key : α → Option κ) (l : List α) : List α :=
  (retainUnseen key [] l.reverse).2

theorem retainUnseen_sublist (key : α → Option κ) :
    ∀ (seen : List κ) (l : List α), (retainUnseen key seen l).1.Sublist l
  | _, [] => List.Sublist.refl _
  | seen, x :: xs => by
      unfold retainUnseen
      split
      · exact (retainUnseen_sublist key seen xs).cons_cons x
      · split
        · exact (retainUnseen_sublist key seen xs).cons x
        · exact (retainUnseen_sublist key _ xs).cons_cons x

theorem retainUnseen_perm (key : α → Option κ) :
    ∀ (seen : List κ) (l : List α),
      ((retainUnseen key seen l).1 ++ (retainUnseen key seen l).2).Perm l
  | _, [] => List.Perm.refl _
  | seen, x :: xs => by
      unfold retainUnseen
      split
      · exact (retainUnseen_perm key seen xs).cons x
      · split
        · exact List.perm_middle.trans ((retainUnseen_perm key seen xs).cons x)
        · exact (retainUnseen_perm key _ xs).cons x

/-- Of each unseen key the pass keeps the first record. -/
theorem retainUnseen_filter (key : α → Option κ) (k : κ) :
    ∀ (seen : List κ) (l : List α),
      (retainUnseen key seen l).1.filter (fun x => key x == some k) =
        if k ∈ seen then [] else (l.filter fun x => key x == some k).head?.toList := by
  intro seen l
  induction l generalizing seen with
  | nil => simp [retainUnseen]
  | cons x xs ih =>
      unfold retainUnseen
      split
      · rename_i hx
        simp [hx, ih]
      · rename_i k' hx
        by_cases hk : k' = k
        · subst hk
          split
          · rename_i hseen
            simp [hseen, ih]
          · rename_i hnew
            simp [hx, hnew, ih]
        · split
          · simp [hx, hk, ih]
          · simp [hx, hk, ih, Ne.symm hk]

/-- A record without a key is kept. -/
theorem mem_retainUnseen_of_none (key : α → Option κ) {x : α} (hx : key x = none) :
    ∀ (seen : List κ) (l : List α), x ∈ l → x ∈ (retainUnseen key seen l).1 := by
  intro seen l
  induction l generalizing seen with
  | nil => exact fun h => absurd h List.not_mem_nil
  | cons y ys ih =>
      intro h
      unfold retainUnseen
      split
      · exact List.mem_cons.mpr ((List.mem_cons.mp h).imp_right (ih seen))
      · rename_i k hy
        have hmem : x ∈ ys := (List.mem_cons.mp h).resolve_left fun heq => by
          rw [heq, hy] at hx
          cases hx
        split
        · exact ih seen hmem
        · exact List.mem_cons_of_mem y (ih _ hmem)

/-- Nothing with a seen key is kept, and no key is kept twice. -/
theorem retainUnseen_keys (key : α → Option κ) :
    ∀ (seen : List κ) (l : List α),
      (∀ x ∈ (retainUnseen key seen l).1, ∀ k, key x = some k → k ∉ seen) ∧
      (retainUnseen key seen l).1.Pairwise fun x y => ∀ k, key x = some k → key y ≠ some k
  | _, [] => ⟨fun _ h => absurd h List.not_mem_nil, List.Pairwise.nil⟩
  | seen, x :: xs => by
      unfold retainUnseen
      split
      · rename_i hx
        obtain ⟨hseen, hpair⟩ := retainUnseen_keys key seen xs
        refine ⟨?_, List.pairwise_cons.mpr ⟨fun y _ k hk => ?_, hpair⟩⟩
        · intro y hy k hk
          rcases List.mem_cons.mp hy with rfl | hy
          · rw [hx] at hk; exact nomatch hk
          · exact hseen y hy k hk
        · rw [hx] at hk; exact nomatch hk
      · rename_i k' hx
        split
        · exact retainUnseen_keys key seen xs
        · rename_i hnew
          obtain ⟨hseen, hpair⟩ := retainUnseen_keys key (k' :: seen) xs
          refine ⟨?_, List.pairwise_cons.mpr ⟨fun y hy k hk hyk => ?_, hpair⟩⟩
          · intro y hy k hk
            rcases List.mem_cons.mp hy with rfl | hy
            · rw [hx] at hk
              exact Option.some.inj hk ▸ hnew
            · exact fun hmem => hseen y hy k hk (List.mem_cons_of_mem k' hmem)
          · rw [hx] at hk
            exact hseen y hy k hyk (Option.some.inj hk ▸ List.mem_cons_self)

theorem keepLast_sublist (key : α → Option κ) (l : List α) : (keepLast key l).Sublist l := by
  simpa [keepLast] using (retainUnseen_sublist key [] l.reverse).reverse

/-- Kept and dropped records together are all the records. -/
theorem keepLast_perm (key : α → Option κ) (l : List α) :
    (keepLast key l ++ dropEarlier key l).Perm l :=
  ((List.reverse_perm _).append_right _).trans
    ((retainUnseen_perm key [] l.reverse).trans (List.reverse_perm l))

/-- No key survives twice. -/
theorem keepLast_pairwise (key : α → Option κ) (l : List α) :
    (keepLast key l).Pairwise fun x y => ∀ k, key x = some k → key y ≠ some k := by
  rw [keepLast, List.pairwise_reverse]
  exact (retainUnseen_keys key [] l.reverse).2.imp fun {a b} h k hb ha => h k ha hb

theorem mem_keepLast_of_none {key : α → Option κ} {l : List α} {x : α} :
    x ∈ l → key x = none → x ∈ keepLast key l :=
  fun hmem hx => List.mem_reverse.mpr
    (mem_retainUnseen_of_none key hx [] l.reverse (List.mem_reverse.mpr hmem))

/-- Of each key the last record survives. -/
theorem keepLast_filter (key : α → Option κ) (k : κ) (l : List α) :
    (keepLast key l).filter (fun x => key x == some k) =
      (l.filter fun x => key x == some k).getLast?.toList := by
  rw [keepLast, List.filter_reverse, retainUnseen_filter, if_neg List.not_mem_nil,
    List.filter_reverse, List.head?_reverse]
  cases (l.filter fun x => key x == some k).getLast? <;> rfl

end KeepLast

end Vec
