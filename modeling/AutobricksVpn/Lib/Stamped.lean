/-
# `AutobricksVpn.Lib.Stamped` — items that carry their place in a source

What comes out of a channel that may lose, and neither doubles nor overtakes:
every item carries the position it had in the source, and positions increase.

    source   a₀  a₁  a₂  a₃  a₄  …
    items        (1, a₁)     (3, a₃)

Two equal payloads are two items, so this says more than that the payloads are a
subsequence of the source.
-/
import Mathlib.Data.List.Basic

/-- Each item is what the source has at its position, and positions increase. -/
structure Stamped {α : Type*} (source : List α) (items : List (Nat × α)) : Prop where
  place : ∀ x ∈ items, source[x.1]? = some x.2
  increasing : items.Pairwise fun x y => x.1 < y.1

namespace Stamped

variable {α : Type*} {source : List α} {items items' : List (Nat × α)}

theorem nil (source : List α) : Stamped source [] :=
  ⟨fun _ hx => absurd hx List.not_mem_nil, List.Pairwise.nil⟩

theorem sublist (h : Stamped source items) : items'.Sublist items → Stamped source items' := by
  intro hsub
  exact ⟨fun x hx => h.place x (hsub.subset hx), h.increasing.sublist hsub⟩

/-- The source may grow. -/
theorem grow (h : Stamped source items) (more : List α) : Stamped (source ++ more) items := by
  refine ⟨fun x hx => ?_, h.increasing⟩
  obtain ⟨hlt, -⟩ := List.getElem?_eq_some_iff.mp (h.place x hx)
  rw [List.getElem?_append_left hlt]
  exact h.place x hx

theorem below (h : Stamped source items) : ∀ x ∈ items, x.1 < source.length := by
  intro x hx
  obtain ⟨hlt, -⟩ := List.getElem?_eq_some_iff.mp (h.place x hx)
  exact hlt

/-- The next item of the source comes out. -/
theorem concat (h : Stamped source items) (x : α) :
    Stamped (source ++ [x]) (items ++ [(source.length, x)]) := by
  refine ⟨fun y hy => ?_, ?_⟩
  · rcases List.mem_append.mp hy with hy | hy
    · exact (h.grow [x]).place y hy
    · rw [List.mem_singleton.mp hy]
      exact List.getElem?_concat_length
  · refine List.pairwise_append.mpr ⟨h.increasing, List.pairwise_singleton _ _, ?_⟩
    intro y hy z hz
    rw [List.mem_singleton.mp hz]
    exact h.below y hy

/-- Nothing is there twice. -/
theorem nodup (h : Stamped source items) : items.Nodup :=
  h.increasing.imp fun hlt heq => absurd (congrArg Prod.fst heq) (Nat.ne_of_lt hlt)

end Stamped
