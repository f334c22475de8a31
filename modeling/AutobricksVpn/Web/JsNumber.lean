/-
# `AutobricksVpn.Web.JsNumber` — the numbers of the console

The numbers the console computes with are integers far below 2⁵³, where a double
is exact.  The one number it only passes on is the `mtu` of server.ini, whose
range it leaves to the server: from 2⁵³ on Node.js rounds it, and from 10²¹ on
writes it with an exponent, where the model is exact.

The bit operators see a number modulo 2³²; but for `>>> 0` they answer a signed
one (`unsigned_shiftLeft`, `unsigned_bitAnd` bring both back to bits).  Written
out, a number is its decimal digits: they read back as the number, and there is
no leading zero.
-/
import AutobricksVpn.Web.ClientAddress

namespace AutobricksVpn

namespace JsNumber

/-! ## Bit operators -/

/-- The operand of a bit operator. -/
def bits (n : Int) : BitVec 32 := BitVec.ofInt 32 n

/-- `n >>> 0`. -/
def unsigned (n : Int) : Int := (bits n).toNat

/-- `n << places`: of the places the lowest five bits count. -/
def shiftLeft (n places : Int) : Int := (bits n <<< ((bits places).toNat % 32)).toInt

/-- `n & m`. -/
def bitAnd (n m : Int) : Int := (bits n &&& bits m).toInt

@[simp] theorem bits_toInt (x : BitVec 32) : bits x.toInt = x := BitVec.ofInt_toInt

@[simp] theorem bits_natCast (n : Nat) : bits (n : Int) = BitVec.ofNat 32 n :=
  BitVec.ofInt_natCast 32 n

@[simp] theorem bits_toNat (x : BitVec 32) : bits (x.toNat : Int) = x := by
  rw [bits_natCast, BitVec.ofNat_toNat, BitVec.setWidth_eq]

theorem unsigned_bitAnd (x y : BitVec 32) :
    unsigned (bitAnd (x.toNat : Int) (y.toNat : Int)) = ((x &&& y).toNat : Int) := by
  rw [unsigned, bitAnd, bits_toInt, bits_toNat, bits_toNat]

theorem unsigned_shiftLeft (x : BitVec 32) {places : Nat} (h : places < 32) :
    unsigned (shiftLeft (x.toNat : Int) (places : Int)) = ((x <<< places).toNat : Int) := by
  have hplaces : (BitVec.ofNat 32 places).toNat % 32 = places := by
    rw [BitVec.toNat_ofNat]
    omega
  rw [unsigned, shiftLeft, bits_toInt, bits_toNat, bits_natCast, hplaces]

/-- `(number * 256 + octet) >>> 0`. -/
theorem unsigned_octet (x : BitVec 32) (octet : Nat) :
    unsigned ((x.toNat : Int) * 256 + octet) = ((x * 256 + BitVec.ofNat 32 octet).toNat : Int) := by
  have hcast : (x.toNat : Int) * 256 + octet = ((x.toNat * 256 + octet : Nat) : Int) := by
    rw [Int.natCast_add, Int.natCast_mul]
    rfl
  have hbits : BitVec.ofNat 32 (x.toNat * 256 + octet) = x * 256 + BitVec.ofNat 32 octet := by
    rw [BitVec.ofNat_add, BitVec.ofNat_mul, BitVec.ofNat_toNat, BitVec.setWidth_eq]
    rfl
  rw [unsigned, hcast, bits_natCast, hbits]

/-! ## Digits -/

/-- A number that is not negative, as a text. -/
def text (n : Nat) : Text := Nat.toDigits 10 n

theorem isDigit_of_mem_text {n : Nat} {c : Char} (h : c ∈ text n) : c.isDigit = true :=
  Nat.isDigit_of_mem_toDigits (by decide) (by decide) h

theorem text_ne_nil (n : Nat) : text n ≠ [] := Nat.toDigits_ne_nil

theorem parseDigits_text (n : Nat) : Text.parseDigits (text n) = some n := by
  rw [Web.parseDigits_of_digits (text_ne_nil n) fun _ hc => isDigit_of_mem_text hc]
  have hread := Nat.ofDigitChars_ten_toDigits (n := n)
  rw [Nat.ofDigitChars_eq_foldl] at hread
  exact congrArg some hread

theorem length_text_le {n k : Nat} (h : 0 < k) : (text n).length ≤ k ↔ n < 10 ^ k :=
  Nat.length_toDigits_le_iff (by decide) h

theorem head?_text : ∀ {n : Nat}, 0 < n → (text n).head? ≠ some '0' := by
  intro n
  induction n using Nat.strongRecOn with
  | ind n ih =>
      intro hpos
      by_cases hsmall : n < 10
      · rw [text, Nat.toDigits_of_lt_base hsmall]
        have hdigit : ∀ m < 10, 0 < m → Nat.digitChar m ≠ '0' := by decide
        exact fun h => hdigit n hsmall hpos (Option.some.inj h)
      · have htens : 0 < n / 10 := Nat.div_pos (Nat.not_lt.mp hsmall) (by decide)
        rw [text, Nat.toDigits_of_base_le (by decide) (Nat.not_lt.mp hsmall),
          List.head?_append_of_ne_nil _ Nat.toDigits_ne_nil]
        exact ih (n / 10) (Nat.div_lt_self hpos (by decide)) htens

theorem not_leadingZero_text (n : Nat) : ¬ Web.LeadingZero (text n) := by
  rintro ⟨hzero, hlong⟩
  rcases Nat.eq_zero_or_pos n with rfl | hpos
  · exact absurd hlong (by decide)
  · exact head?_text hpos hzero

/-- One to three digits of a number up to 255. -/
theorem octet_text {n : Nat} (h : n ≤ 255) : Web.octet (text n) = some n := by
  refine Web.octet_some.mpr ⟨Web.isOctetText_iff.mpr ⟨text_ne_nil n, ?_, ?_⟩, parseDigits_text n, h⟩
  · exact (length_text_le (by decide)).mpr (by omega)
  · exact fun _ hc => isDigit_of_mem_text hc

end JsNumber

end AutobricksVpn
