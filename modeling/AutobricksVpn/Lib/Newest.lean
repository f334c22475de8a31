/-
# `AutobricksVpn.Lib.Newest` — a list that keeps the first of what it has seen

Whoever keeps at most `n` values, those that come first in some order, can
forget the others at once: inserting into what is kept and cutting again is
inserting into everything and cutting once (`put_take`).  The sort is
stable, and a new value is put in front before sorting, so among equals the
later one comes first; `exists_ranking` says so without the sort, by the
positions in the list of all values.
-/
import Mathlib.Data.List.Sort

namespace Newest

section Order

variable {α : Type*} (r : α → α → Prop) [DecidableRel r]

/-- A value that is cut off never comes back. -/
theorem take_orderedInsert (n : Nat) (a : α) (l : List α) :
    ((l.take n).orderedInsert r a).take n = (l.orderedInsert r a).take n := by
  induction l generalizing n with
  | nil => rw [List.take_nil]
  | cons b l ih =>
      cases n with
      | zero => rw [List.take_zero, List.take_zero]
      | succ n =>
          rw [List.take_succ_cons, List.orderedInsert_cons, List.orderedInsert_cons]
          split
          · rw [List.take_succ_cons, List.take_succ_cons]
            cases n with
            | zero => rw [List.take_zero, List.take_zero]
            | succ n => rw [List.take_succ_cons, List.take_succ_cons, List.take_take,
                Nat.min_eq_left (Nat.le_succ n)]
          · rw [List.take_succ_cons, List.take_succ_cons, ih]

/-- Put in front, sort, cut. -/
def put (n : Nat) (kept : List α) (a : α) : List α := ((a :: kept).insertionSort r).take n

/-- The order of the values, on values with their positions. -/
abbrev onValues (a b : α × Nat) : Prop := r a.1 b.1

theorem map_insertionSort_zipIdx (l : List α) (k : Nat) :
    ((l.zipIdx k).insertionSort (onValues r)).map Prod.fst = l.insertionSort r := by
  have hmap := List.map_insertionSort (onValues r) r Prod.fst (l.zipIdx k)
    fun _ _ _ _ => Iff.rfl
  rw [hmap, List.zipIdx_map_fst]

variable [Std.Total r] [IsTrans α r]

theorem insertionSort_take (n : Nat) (l : List α) :
    ((l.insertionSort r).take n).insertionSort r = (l.insertionSort r).take n :=
  List.Pairwise.insertionSort_eq ((List.pairwise_insertionSort r l).sublist (List.take_sublist _ _))

/-- Cutting every time is cutting once. -/
theorem put_take (n : Nat) (a : α) (l : List α) :
    put r n ((l.insertionSort r).take n) a = ((a :: l).insertionSort r).take n := by
  rw [put, List.insertionSort_cons, List.insertionSort_cons, insertionSort_take, take_orderedInsert]

/-! ## The order of equals -/

/-- Strictly before, or equal to it and at an earlier position. -/
def Ranked (a b : α × Nat) : Prop := r a.1 b.1 ∧ (r b.1 a.1 → a.2 < b.2)

instance : Std.Total (onValues r) := ⟨fun a b => Std.Total.total a.1 b.1⟩

instance : IsTrans (α × Nat) (onValues r) := ⟨fun a b c => IsTrans.trans a.1 b.1 c.1⟩

/-- A value at an earlier position than all others goes before its equals. -/
theorem Ranked.orderedInsert {a : α} {k : Nat} {l : List (α × Nat)} (h : l.Pairwise (Ranked r))
    (hlater : ∀ b ∈ l, k < b.2) : (l.orderedInsert (onValues r) (a, k)).Pairwise (Ranked r) := by
  induction l with
  | nil => exact List.pairwise_singleton _ _
  | cons b l ih =>
      obtain ⟨hb, hl⟩ := List.pairwise_cons.mp h
      rw [List.orderedInsert_cons]
      split
      · rename_i hab
        refine List.pairwise_cons.mpr ⟨fun c hc => ⟨?_, fun _ => hlater c hc⟩, h⟩
        rcases List.mem_cons.mp hc with rfl | hc
        · exact hab
        · exact IsTrans.trans a b.1 c.1 hab (hb c hc).1
      · rename_i hab
        have hba : r b.1 a := (Std.Total.total (r := r) a b.1).resolve_left hab
        refine List.pairwise_cons.mpr ⟨fun c hc => ?_, ih hl fun c hc =>
          hlater c (List.mem_cons_of_mem _ hc)⟩
        rcases (List.mem_orderedInsert _).mp hc with rfl | hc
        · exact ⟨hba, fun h => absurd h hab⟩
        · exact hb c hc

theorem pairwise_ranked (l : List α) : ∀ k,
    ((l.zipIdx k).insertionSort (onValues r)).Pairwise (Ranked r) := by
  induction l with
  | nil => exact fun k => List.Pairwise.nil
  | cons a l ih =>
      intro k
      rw [List.zipIdx_cons, List.insertionSort_cons]
      -- everything sorted so far stands behind position `k`
      have hlater : ∀ b ∈ (l.zipIdx (k + 1)).insertionSort (onValues r), k < b.2 := by
        intro b hb
        exact List.le_snd_of_mem_zipIdx ((List.mem_insertionSort _).mp hb)
      exact Ranked.orderedInsert r (ih (k + 1)) hlater

/-- What the stable sort is: all values with their positions, ranked. -/
theorem exists_ranking (l : List α) :
    ∃ ranking : List (α × Nat), ranking.Perm l.zipIdx ∧ ranking.Pairwise (Ranked r) ∧
      ranking.map Prod.fst = l.insertionSort r :=
  ⟨_, List.perm_insertionSort _ _, pairwise_ranked r l 0, map_insertionSort_zipIdx r l 0⟩

/-- There is one such ranking. -/
theorem ranking_unique {l : List α} {ranking : List (α × Nat)} (hperm : ranking.Perm l.zipIdx)
    (h : ranking.Pairwise (Ranked r)) : ranking.map Prod.fst = l.insertionSort r := by
  obtain ⟨sorted, hperm', h', hsorted⟩ := exists_ranking r l
  rw [← hsorted, (hperm.trans hperm'.symm).eq_of_pairwise _ h h']
  rintro a b - - hab hba
  exact absurd (hab.2 hba.1) (Nat.lt_asymm (hba.2 hab.1))

/-- The first `n` of `held` in the order, where an earlier position in `held` decides
between equals. -/
def IsFirst (n : Nat) (held kept : List α) : Prop :=
  (∃ ranking : List (α × Nat), ranking.Perm held.zipIdx ∧ ranking.Pairwise (Ranked r)) ∧
  ∀ ranking : List (α × Nat), ranking.Perm held.zipIdx → ranking.Pairwise (Ranked r) →
    kept = (ranking.map Prod.fst).take n

theorem isFirst_insertionSort (n : Nat) (l : List α) :
    IsFirst r n l ((l.insertionSort r).take n) := by
  obtain ⟨ranking, hperm, hranked, -⟩ := exists_ranking r l
  refine ⟨⟨ranking, hperm, hranked⟩, fun ranking hperm hranked => ?_⟩
  rw [ranking_unique r hperm hranked]

end Order

/-- Orders that agree on the values have the same first. -/
theorem IsFirst.congr {α : Type*} {r s : α → α → Prop} {n : Nat} {held kept : List α}
    (h : IsFirst r n held kept) (hrs : ∀ a ∈ held, ∀ b ∈ held, r a b ↔ s a b) :
    IsFirst s n held kept := by
  have hranked : ∀ {ranking : List (α × Nat)}, ranking.Perm held.zipIdx →
      (ranking.Pairwise (Ranked r) ↔ ranking.Pairwise (Ranked s)) := by
    intro ranking hperm
    have hmem : ∀ {a : α × Nat}, a ∈ ranking → a.1 ∈ held := fun ha =>
      List.fst_mem_of_mem_zipIdx (hperm.subset ha)
    refine List.Pairwise.iff_of_mem fun ha hb => ?_
    unfold Ranked
    rw [hrs _ (hmem ha) _ (hmem hb), hrs _ (hmem hb) _ (hmem ha)]
  obtain ⟨⟨ranking, hperm, hr⟩, hkept⟩ := h
  exact ⟨⟨ranking, hperm, (hranked hperm).mp hr⟩,
    fun ranking hperm hs => hkept ranking hperm ((hranked hperm).mpr hs)⟩

end Newest
