/-
# `AutobricksVpn.Lib.OnesComplement` — sums with end-around carry

Numbers below a base `b`, added in one's complement: what does not fit into one
digit is added again at the low end, until it fits.

| | |
| :-- | :-- |
| `endAround b n` | the digit that is left of `n` |
| `complement b n` | `b - 1` without it |

A sum to which its own complement is added has the complement zero
(`complement_add_self`).  Zero is spelled in two ways, `0` and `b - 1`, and only
an empty sum is the first (`endAround_pos`); that is why the law has no
exception.
-/
import Mathlib.Data.Nat.ModEq

namespace OnesComplement

theorem carry_lt {b n : Nat} (hb : 2 ≤ b) (hn : b ≤ n) : n % b + n / b < n := by
  have hdiv := Nat.div_add_mod n b
  have hpos : 0 < n / b := Nat.div_pos hn (by omega)
  have hmul : 2 * (n / b) ≤ b * (n / b) := Nat.mul_le_mul_right _ hb
  omega

def endAround (b n : Nat) : Nat :=
  if _h : 2 ≤ b ∧ b ≤ n then endAround b (n % b + n / b) else n
termination_by n
decreasing_by exact carry_lt _h.1 _h.2

/-- The one's complement of a sum. -/
def complement (b n : Nat) : Nat := b - 1 - endAround b n

section Laws

variable {b n : Nat}

theorem endAround_of_lt (h : n < b) : endAround b n = n := by
  rw [endAround, dif_neg (by omega)]

theorem endAround_of_le (hb : 2 ≤ b) (h : b ≤ n) :
    endAround b n = endAround b (n % b + n / b) := by
  rw [endAround, dif_pos ⟨hb, h⟩]

theorem endAround_lt (hb : 2 ≤ b) (n : Nat) : endAround b n < b := by
  induction n using Nat.strongRecOn with
  | _ n ih =>
    by_cases h : b ≤ n
    · rw [endAround_of_le hb h]
      exact ih _ (carry_lt hb h)
    · rw [endAround_of_lt (by omega)]
      omega

/-- Adding the carry at the low end subtracts a multiple of `b - 1`. -/
theorem carry_modEq (hb : 2 ≤ b) (n : Nat) : n % b + n / b ≡ n [MOD b - 1] := by
  have hbase : b ≡ 1 [MOD b - 1] := by
    have h := Nat.ModEq.add_right 1 (Nat.modEq_zero_iff_dvd.mpr (Nat.dvd_refl (b - 1)))
    rwa [Nat.sub_add_cancel (by omega), Nat.zero_add] at h
  calc n % b + n / b = n % b + 1 * (n / b) := by rw [Nat.one_mul]
    _ ≡ n % b + b * (n / b) [MOD b - 1] := (hbase.symm.mul_right _).add_left _
    _ = n := Nat.mod_add_div n b

theorem endAround_modEq (hb : 2 ≤ b) (n : Nat) : endAround b n ≡ n [MOD b - 1] := by
  induction n using Nat.strongRecOn with
  | _ n ih =>
    by_cases h : b ≤ n
    · rw [endAround_of_le hb h]
      exact (ih _ (carry_lt hb h)).trans (carry_modEq hb n)
    · rw [endAround_of_lt (by omega)]

theorem endAround_pos (hb : 2 ≤ b) (hn : 0 < n) : 0 < endAround b n := by
  induction n using Nat.strongRecOn with
  | _ n ih =>
    by_cases h : b ≤ n
    · rw [endAround_of_le hb h]
      have hpos : 0 < n / b := Nat.div_pos h (by omega)
      exact ih _ (carry_lt hb h) (by omega)
    · rwa [endAround_of_lt (by omega)]

/-- A positive multiple of `b - 1` leaves the digit `b - 1`. -/
theorem endAround_eq_top (hb : 2 ≤ b) (hn : 0 < n) (h : n ≡ 0 [MOD b - 1]) :
    endAround b n = b - 1 := by
  have hpos := endAround_pos hb hn
  have hlt := endAround_lt hb n
  obtain ⟨k, hk⟩ := Nat.modEq_zero_iff_dvd.mp ((endAround_modEq hb n).trans h)
  rcases k with _ | _ | k
  · omega
  · rwa [Nat.mul_one] at hk
  · have : (b - 1) * 2 ≤ (b - 1) * (k + 1 + 1) := Nat.mul_le_mul_left _ (by omega)
    omega

theorem complement_lt (hb : 2 ≤ b) (n : Nat) : complement b n < b := by
  unfold complement
  omega

/-- **A sum with its complement in it checks.** -/
theorem complement_add_self (hb : 2 ≤ b) (n : Nat) :
    complement b (n + complement b n) = 0 := by
  have hlt := endAround_lt hb n
  have hpos : 0 < n + complement b n := by
    by_cases hn : 0 < n
    · omega
    · rw [Nat.eq_zero_of_not_pos hn, complement, endAround_of_lt (by omega)]
      omega
  have hzero : n + complement b n ≡ 0 [MOD b - 1] := by
    calc n + complement b n ≡ endAround b n + complement b n [MOD b - 1] :=
          (endAround_modEq hb n).symm.add_right _
      _ = b - 1 := by unfold complement; omega
      _ ≡ 0 [MOD b - 1] := Nat.modEq_zero_iff_dvd.mpr (Nat.dvd_refl _)
  rw [complement, endAround_eq_top hb hpos hzero, Nat.sub_self]

end Laws

end OnesComplement
