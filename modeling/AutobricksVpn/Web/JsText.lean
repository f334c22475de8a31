/-
# `AutobricksVpn.Web.JsText` — the string functions of the console

What the console does to texts with the functions of its language.  A text that
was read from a file is a list of characters, as it is for the server.  A string
from a request is a list of UTF-16 units, which need not be one: what is written
of it is `decodeUtf16`.

    decodeUtf16 (utf16 t) = t      (`decodeUtf16_utf16`)

White space is not what it is for the server: U+FEFF is one here and U+0085 is
not (`isSpace_eq`).  The tables behind `toLowerCase`, `Number` and
`localeCompare` are a parameter, with what the language says about them.
-/
import AutobricksVpn.Config.Text
import AutobricksVpn.Lib.Fields

namespace AutobricksVpn

abbrev JsString := List UInt16

namespace JsText

/-! ## Units -/

def utf16Char (c : Char) : JsString :=
  if c.toNat < 0x10000 then [UInt16.ofNat c.toNat]
  else
    [UInt16.ofNat (0xd800 + (c.toNat - 0x10000) / 0x400),
      UInt16.ofNat (0xdc00 + (c.toNat - 0x10000) % 0x400)]

def utf16 (t : Text) : JsString := t.flatMap utf16Char

def isLead (unit : UInt16) : Bool := 0xd800 ≤ unit.toNat && unit.toNat < 0xdc00

def isTrail (unit : UInt16) : Bool := 0xdc00 ≤ unit.toNat && unit.toNat < 0xe000

/-- A unit that is no half of a pair; a surrogate is replaced. -/
def decodeUnit (unit : UInt16) : Char :=
  if isLead unit || isTrail unit then '\uFFFD' else Char.ofNat unit.toNat

/-- What is written to a file. -/
def decodeUtf16 : JsString → Text
  | [] => []
  | [unit] => [decodeUnit unit]
  | lead :: trail :: rest =>
      if isLead lead && isTrail trail then
        Char.ofNat (0x10000 + (lead.toNat - 0xd800) * 0x400 + (trail.toNat - 0xdc00)) ::
          decodeUtf16 rest
      else decodeUnit lead :: decodeUtf16 (trail :: rest)

/-! ## White space -/

/-- `\s`. -/
def isSpaceCode (n : Nat) : Bool :=
  (0x09 ≤ n && n ≤ 0x0d) || n == 0x20 || n == 0xa0 || n == 0x1680 ||
    (0x2000 ≤ n && n ≤ 0x200a) || n == 0x2028 || n == 0x2029 || n == 0x202f || n == 0x205f ||
    n == 0x3000 || n == 0xfeff

def isSpace (c : Char) : Bool := isSpaceCode c.toNat

def trim (t : Text) : Text := Fields.trim isSpace t

/-- `split(/\r?\n/)`, of the pieces between newlines: the last one is kept as it is. -/
def linesOf : List Text → List Text
  | [] => []
  | [last] => [last]
  | line :: rest => Text.stripCarriageReturn line :: linesOf rest

def lines (t : Text) : List Text := linesOf (t.splitOn '\n')

/-- `split(/\s+/)`: a run of white space is one separator, and at an end there is
an empty piece beyond it. -/
def splitSpaces (t : Text) : List Text :=
  match t.splitOnP isSpace with
  | [] => []
  | [piece] => [piece]
  | first :: rest => first :: (rest.dropLast.filter (· ≠ []) ++ rest.drop (rest.length - 1))

/-! ## Numbers -/

/-- `Number.parseInt` in base 10: the digits at the start, after a sign.  Below
2⁵³ that is the number they write. -/
def parseInt (t : Text) : Option Int :=
  let number := fun t : Text => (Text.parseDigits (t.takeWhile (·.isDigit))).map Int.ofNat
  match t.dropWhile isSpace with
  | '-' :: rest => (number rest).map (- ·)
  | '+' :: rest => number rest
  | rest => number rest

/-- The functions that go by tables: `Number` gives `none` for what is no finite
number, `localeCompare` is the one with the option `numeric`. -/
structure Runtime where
  toLowerCase : Text → Text
  number : Text → Option Rat
  localeCompare : Text → Text → Ordering
  /-- ASCII letters go by themselves. -/
  toLowerCase_append : ∀ ascii rest, (∀ c ∈ ascii, c.toNat < 128) → ∃ lower,
    toLowerCase (ascii ++ rest) = Text.toAsciiLowercase ascii ++ lower ∧ (rest = [] → lower = [])
  /-- No newline is the lower case of something else. -/
  toLowerCase_newline : ∀ t, '\n' ∉ t → '\n' ∉ toLowerCase t
  /-- Brackets are the lower case of themselves only. -/
  toLowerCase_brackets : ∀ t name, name ≠ [] → ']' ∉ name → toLowerCase t = '[' :: name ++ [']'] →
    ∃ inner, t = '[' :: inner ++ [']'] ∧ inner ≠ [] ∧ ']' ∉ inner
  /-- Decimal numbers are exact below 2⁵³. -/
  number_decimal : ∀ digits n, Text.parseDigits digits = some n → n < 9007199254740992 →
    number digits = some (n : Rat) ∧ number ('+' :: digits) = some (n : Rat)

/-! ## What they come to -/

theorem isSpace_eq {c : Char} (hnel : c ≠ '\u0085') (hbom : c ≠ '\uFEFF') :
    isSpace c = Text.isWhitespace c := by
  have hne : ∀ {n : Nat} {d : Char}, d.toNat = n → c ≠ d → (c.toNat == n) = false := by
    intro n d hd hcd
    exact beq_eq_false_iff_ne.mpr fun h => hcd (Char.toNat_inj.mp (h.trans hd.symm))
  have h85 := hne (n := 0x85) (d := '\u0085') rfl hnel
  have hfe := hne (n := 0xfeff) (d := '\uFEFF') rfl hbom
  unfold isSpace isSpaceCode Text.isWhitespace
  rw [h85, hfe, Bool.or_false, Bool.or_false]

theorem toLowerCase_ascii (js : Runtime) {t : Text} (h : ∀ c ∈ t, c.toNat < 128) :
    js.toLowerCase t = Text.toAsciiLowercase t := by
  obtain ⟨lower, heq, hnil⟩ := js.toLowerCase_append t [] h
  rw [List.append_nil, hnil rfl, List.append_nil] at heq
  exact heq

theorem toNat_ofNat {n : Nat} (h : n.isValidChar) : (Char.ofNat n).toNat = n := by
  unfold Char.ofNat
  rw [dif_pos h]
  rfl

theorem toNat_utf16_small {c : Char} (h : c.toNat < 0x10000) :
    utf16Char c = [UInt16.ofNat c.toNat] ∧ (UInt16.ofNat c.toNat).toNat = c.toNat :=
  ⟨if_pos h, UInt16.toNat_ofNat_of_lt' h⟩

/-- A character of the basic plane is no surrogate. -/
theorem decodeUnit_utf16 {c : Char} (h : c.toNat < 0x10000) :
    isLead (UInt16.ofNat c.toNat) = false ∧ decodeUnit (UInt16.ofNat c.toNat) = c := by
  have hn := (toNat_utf16_small h).2
  have hvalid : c.toNat < 0xd800 ∨ 0xdfff < c.toNat ∧ c.toNat < 0x110000 := c.valid
  have hlead : isLead (UInt16.ofNat c.toNat) = false := by
    rw [isLead, hn]
    simp only [Bool.and_eq_false_iff, decide_eq_false_iff_not]
    omega
  have htrail : isTrail (UInt16.ofNat c.toNat) = false := by
    rw [isTrail, hn]
    simp only [Bool.and_eq_false_iff, decide_eq_false_iff_not]
    omega
  refine ⟨hlead, ?_⟩
  rw [decodeUnit, hlead, htrail, if_neg (by decide), hn]
  exact Char.ofNat_toNat c

theorem decodeUtf16_cons {unit : UInt16} (h : isLead unit = false) (rest : JsString) :
    decodeUtf16 (unit :: rest) = decodeUnit unit :: decodeUtf16 rest := by
  cases rest with
  | nil => rfl
  | cons trail rest =>
      rw [decodeUtf16, h, Bool.false_and]
      rfl

/-- The two halves of a character beyond the basic plane. -/
theorem decodeUtf16_pair {c : Char} (h : 0x10000 ≤ c.toNat) (rest : JsString) :
    decodeUtf16 (utf16Char c ++ rest) = c :: decodeUtf16 rest := by
  have hlt : c.toNat < 0x110000 := by
    rcases c.valid with hvalid | hvalid
    · exact Nat.lt_trans hvalid (by decide)
    · exact hvalid.2
  have hlead : (UInt16.ofNat (0xd800 + (c.toNat - 0x10000) / 0x400)).toNat =
      0xd800 + (c.toNat - 0x10000) / 0x400 :=
    UInt16.toNat_ofNat_of_lt' (by show _ < 2 ^ 16; omega)
  have htrail : (UInt16.ofNat (0xdc00 + (c.toNat - 0x10000) % 0x400)).toNat =
      0xdc00 + (c.toNat - 0x10000) % 0x400 :=
    UInt16.toNat_ofNat_of_lt' (by show _ < 2 ^ 16; omega)
  rw [utf16Char, if_neg (Nat.not_lt.mpr h), List.cons_append, List.cons_append, List.nil_append,
    decodeUtf16, if_pos]
  · rw [hlead, htrail]
    have hcode : 0x10000 + (0xd800 + (c.toNat - 0x10000) / 0x400 - 0xd800) * 0x400 +
        (0xdc00 + (c.toNat - 0x10000) % 0x400 - 0xdc00) = c.toNat := by omega
    rw [hcode, Char.ofNat_toNat]
  · rw [isLead, isTrail, hlead, htrail]
    simp only [Bool.and_eq_true, decide_eq_true_eq]
    omega

theorem decodeUtf16_utf16 (t : Text) : decodeUtf16 (utf16 t) = t := by
  induction t with
  | nil => rfl
  | cons c t ih =>
      rw [utf16, List.flatMap_cons]
      change decodeUtf16 (utf16Char c ++ utf16 t) = c :: t
      by_cases h : c.toNat < 0x10000
      · obtain ⟨hlead, hunit⟩ := decodeUnit_utf16 h
        rw [(toNat_utf16_small h).1, List.cons_append, List.nil_append, decodeUtf16_cons hlead, hunit,
          ih]
      · rw [decodeUtf16_pair (Nat.not_lt.mp h), ih]

end JsText

end AutobricksVpn
