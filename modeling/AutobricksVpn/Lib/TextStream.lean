/-
# `AutobricksVpn.Lib.TextStream` — text that arrives in pieces

A reader of a byte stream gets it in chunks, cut anywhere: in the middle of a
line, or of the UTF-8 encoding of a character.  The decoder holds back the bytes
of a character it has not got in full (`write`), so what it answers does not
depend on the cuts (`write_append`); the text is then split into lines, and that
can be done piecewise as well (`splitLines_append`).

Of bytes that are no encoding, each longest beginning of one comes out as one
U+FFFD, and so does each byte that begins none.  A line feed is never part of a
longer sequence, so the bytes of a line decode to a line whatever they are
(`write_line`), and to the line itself when they encode it (`decode_encode`).
-/
import Mathlib.Data.List.Basic
import Mathlib.Tactic.SplitIfs

namespace TextStream

/-! ## Characters -/

def replacement : Char := '\uFFFD'

/-- The character that the bytes encode. -/
def decodeSequence (bytes : List UInt8) : Char :=
  match bytes.toByteArray.utf8DecodeChar? 0 with
  | some c => if String.utf8EncodeChar c = bytes then c else replacement
  | none => replacement

def isContinuation (b : UInt8) : Bool := 0x80 ≤ b && b < 0xC0

/-- Whether `b` may be the byte after `first` in an encoding. -/
def mayFollow (first b : UInt8) : Bool :=
  if first = 0xE0 then 0xA0 ≤ b && b < 0xC0
  else if first = 0xED then 0x80 ≤ b && b < 0xA0
  else if first = 0xF0 then 0x90 ≤ b && b < 0xC0
  else if first = 0xF4 then 0x80 ≤ b && b < 0x90
  else isContinuation b

/-- How many bytes an encoding has that begins with `first`. -/
def encodedSize (first : UInt8) : Nat :=
  if 0xC2 ≤ first && first < 0xE0 then 2
  else if 0xE0 ≤ first && first < 0xF0 then 3
  else if 0xF0 ≤ first && first < 0xF5 then 4
  else 1

/-- Whether `b` continues a beginning of an encoding. -/
def continues : List UInt8 → UInt8 → Bool
  | [first], b => mayFollow first b
  | _, b => isContinuation b

theorem decodeSequence_encode (c : Char) : decodeSequence (String.utf8EncodeChar c) = c := by
  have hdecode : (String.utf8EncodeChar c).toByteArray.utf8DecodeChar? 0 = some c := by
    rw [← ByteArray.append_empty (b := (String.utf8EncodeChar c).toByteArray)]
    exact ByteArray.utf8DecodeChar?_utf8EncodeChar_append
  rw [decodeSequence, hdecode]
  exact if_pos rfl

/-- What is decoded to another character than U+FFFD is its encoding. -/
theorem decodeSequence_eq {bytes : List UInt8} {c : Char} :
    decodeSequence bytes = c → c ≠ replacement → String.utf8EncodeChar c = bytes := by
  intro h hne
  unfold decodeSequence at h
  split at h
  · split at h
    · rename_i heq
      rw [← h]
      exact heq
    · exact absurd h.symm hne
  · exact absurd h.symm hne

/-! ## The decoder -/

/-- One byte, with the bytes held back: a character is complete when it has all
its bytes, and given up when a byte comes that does not continue it. -/
def byte (held : List UInt8) (b : UInt8) : List UInt8 × List Char :=
  match held with
  | [] => if encodedSize b = 1 then ([], [decodeSequence [b]]) else ([b], [])
  | first :: _ =>
      if continues held b then
        if (held ++ [b]).length < encodedSize first then (held ++ [b], [])
        else ([], [decodeSequence (held ++ [b])])
      else if encodedSize b = 1 then ([], [replacement, decodeSequence [b]])
      else ([b], [replacement])

/-- A chunk: what is held back after it, and the text. -/
def write : List UInt8 → List UInt8 → List UInt8 × List Char
  | held, [] => (held, [])
  | held, b :: bytes =>
      let (held, text) := byte held b
      let (held, rest) := write held bytes
      (held, text ++ rest)

/-- The end of the stream: what is held back will not be completed. -/
def finish (held : List UInt8) : List Char := if held.isEmpty then [] else [replacement]

/-- All at once. -/
def decode (bytes : List UInt8) : List Char :=
  (write [] bytes).2 ++ finish (write [] bytes).1

-- A surrogate, an encoding that is too long, one that is broken off, and a byte
-- that begins none.
example : decode [0xED, 0xA0, 0x80, 0x41] = ['\uFFFD', '\uFFFD', '\uFFFD', 'A'] := by
  decide +kernel

example : decode [0xF0, 0x80, 0xE2, 0x82, 0x42, 0xFF] =
    ['\uFFFD', '\uFFFD', '\uFFFD', 'B', '\uFFFD'] := by
  decide +kernel

/-- The cuts make no difference. -/
theorem write_append (held bytes bytes' : List UInt8) :
    write held (bytes ++ bytes') =
      ((write (write held bytes).1 bytes').1,
        (write held bytes).2 ++ (write (write held bytes).1 bytes').2) := by
  induction bytes generalizing held with
  | nil => rfl
  | cons b bytes ih => simp only [List.cons_append, write, ih, List.append_assoc]

theorem mayFollow_newline (first : UInt8) : mayFollow first 0x0A = false := by
  unfold mayFollow
  split_ifs <;> rfl

theorem continues_newline (first : UInt8) (held : List UInt8) :
    continues (first :: held) 0x0A = false := by
  cases held with
  | nil => exact mayFollow_newline first
  | cons b held => rfl

/-- A line feed ends whatever is held back. -/
theorem write_newline (held : List UInt8) :
    write held [0x0A] = ([], finish held ++ ['\n']) := by
  have hsingle : decodeSequence [0x0A] = '\n' := decodeSequence_encode '\n'
  cases held with
  | nil => simp [write, byte, encodedSize, finish, hsingle]
  | cons first held =>
      simp [write, byte, continues_newline, encodedSize, finish, hsingle]

theorem newline_mem_byte {held : List UInt8} {b : UInt8} : '\n' ∈ (byte held b).2 → b = 0x0A := by
  have hsequence : ∀ bytes, '\n' = decodeSequence bytes → bytes = [0x0A] := fun bytes h =>
    (decodeSequence_eq h.symm (by decide)).symm.trans rfl
  have hreplacement : '\n' ≠ replacement := by decide
  intro h
  unfold byte at h
  split at h
  · split at h
    · have hb := hsequence _ (List.mem_singleton.mp h)
      exact (List.cons.inj hb).1
    · cases h
  · rename_i first rest
    split at h
    · split at h
      · cases h
      · have hb := congrArg List.length (hsequence _ (List.mem_singleton.mp h))
        simp at hb
    · split at h
      · rcases List.mem_cons.mp h with h | h
        · exact absurd h hreplacement
        · exact (List.cons.inj (hsequence _ (List.mem_singleton.mp h))).1
      · exact absurd (List.mem_singleton.mp h) hreplacement

theorem newline_mem_write {bytes : List UInt8} :
    ∀ {held : List UInt8}, '\n' ∈ (write held bytes).2 → 0x0A ∈ bytes := by
  induction bytes with
  | nil => exact fun h => absurd h List.not_mem_nil
  | cons b bytes ih =>
      intro held h
      rcases List.mem_append.mp (show '\n' ∈ (byte held b).2 ++ _ from h) with h | h
      · rw [newline_mem_byte h]
        exact List.mem_cons_self
      · exact List.mem_cons_of_mem _ (ih h)

theorem newline_not_mem_decode {bytes : List UInt8} : 0x0A ∉ bytes → '\n' ∉ decode bytes := by
  intro hbytes h
  rcases List.mem_append.mp h with h | h
  · exact hbytes (newline_mem_write h)
  · unfold finish at h
    split at h
    · cases h
    · exact absurd (List.mem_singleton.mp h) (by decide)

/-- The bytes of a line, and its line feed. -/
theorem write_line (line : List UInt8) :
    write [] (line ++ [0x0A]) = ([], decode line ++ ['\n']) := by
  rw [write_append, write_newline, decode, List.append_assoc]

/-! ### Bytes that are an encoding -/

theorem isContinuation_ofNat (n : Nat) : isContinuation (UInt8.ofNat (n % 64 + 128)) = true := by
  have hn : (UInt8.ofNat (n % 64 + 128)).toNat = n % 64 + 128 := by
    rw [UInt8.toNat_ofNat']
    omega
  simp only [isContinuation, Bool.and_eq_true, decide_eq_true_eq, UInt8.le_iff_toNat_le,
    UInt8.lt_iff_toNat_lt, hn, UInt8.reduceToNat]
  omega

theorem encodedSize_ofNat {n : Nat} (h : n < 256) :
    encodedSize (UInt8.ofNat n) =
      if 0xC2 ≤ n ∧ n < 0xE0 then 2 else if 0xE0 ≤ n ∧ n < 0xF0 then 3
      else if 0xF0 ≤ n ∧ n < 0xF5 then 4 else 1 := by
  have hn : (UInt8.ofNat n).toNat = n := UInt8.toNat_ofNat_of_lt' h
  simp only [encodedSize, UInt8.lt_iff_toNat_lt, UInt8.le_iff_toNat_le, hn, UInt8.reduceToNat,
    Bool.and_eq_true, decide_eq_true_eq]

theorem mayFollow_ofNat {m n : Nat} (hm : m < 256) (hn : n < 256) :
    mayFollow (UInt8.ofNat m) (UInt8.ofNat n) = true ↔
      (if m = 0xE0 then 0xA0 else if m = 0xF0 then 0x90 else 0x80) ≤ n ∧
        n < if m = 0xED then 0xA0 else if m = 0xF4 then 0x90 else 0xC0 := by
  have hm' : (UInt8.ofNat m).toNat = m := UInt8.toNat_ofNat_of_lt' hm
  have hn' : (UInt8.ofNat n).toNat = n := UInt8.toNat_ofNat_of_lt' hn
  simp only [mayFollow, isContinuation, ← UInt8.toNat_inj, UInt8.lt_iff_toNat_lt,
    UInt8.le_iff_toNat_le, hm', hn', UInt8.reduceToNat]
  split_ifs <;> simp <;> omega

/-- The first byte tells how many there are, the next may follow it, and the
others continue. -/
theorem encode_shape (c : Char) :
    ∃ first rest, String.utf8EncodeChar c = first :: rest ∧ encodedSize first = rest.length + 1 ∧
      (∀ b ∈ rest.head?, mayFollow first b = true) ∧ ∀ b ∈ rest, isContinuation b = true := by
  have hvalid : c.val.toNat < 0xD800 ∨ 0xDFFF < c.val.toNat ∧ c.val.toNat < 0x110000 := c.valid
  unfold String.utf8EncodeChar
  dsimp only
  generalize c.val.toNat = v at hvalid ⊢
  split_ifs with h₁ h₂ h₃
  all_goals refine ⟨_, _, rfl, ?_⟩; rw [encodedSize_ofNat (by omega)]
  · refine ⟨?_, nofun, nofun⟩
    show _ = 1
    split_ifs <;> omega
  all_goals
    simp only [List.head?_cons, Option.mem_some_iff, forall_eq', List.length_cons, List.length_nil,
      List.forall_mem_cons, isContinuation_ofNat, List.not_mem_nil, false_imp_iff, implies_true,
      and_true]
    rw [mayFollow_ofNat (by omega) (by omega)]
  · refine ⟨?_, ?_, ?_⟩ <;> split_ifs <;> omega
  · refine ⟨?_, ?_, ?_⟩ <;> split_ifs <;> omega
  · refine ⟨?_, ?_, ?_⟩ <;> split_ifs <;> omega

theorem newline_mem_encode {c : Char} : 0x0A ∈ String.utf8EncodeChar c → c = '\n' := by
  intro h
  obtain ⟨first, rest, heq, hlength, -, hrest⟩ := encode_shape c
  have hsame : String.utf8EncodeChar c = String.utf8EncodeChar '\n' := by
    rw [heq] at h ⊢
    rcases List.mem_cons.mp h with rfl | h
    · rw [List.eq_nil_of_length_eq_zero (Nat.succ.inj hlength).symm]
      rfl
    · exact absurd (hrest _ h) (by decide)
  rw [← decodeSequence_encode c, hsame, decodeSequence_encode]

/-- The rest of a character. -/
theorem write_rest (first : UInt8) :
    ∀ held rest : List UInt8, rest ≠ [] →
      (held = [] → ∀ b ∈ rest.head?, mayFollow first b = true) →
      (∀ b ∈ rest, isContinuation b = true) →
      (first :: held).length + rest.length = encodedSize first →
      write (first :: held) rest = ([], [decodeSequence (first :: held ++ rest)])
  | _, [], hne, _, _, _ => absurd rfl hne
  | held, b :: rest, _, hfirst, hrest, hlength => by
      have hb : continues (first :: held) b = true := by
        cases held with
        | nil => exact hfirst rfl b rfl
        | cons _ _ => exact hrest b List.mem_cons_self
      simp only [write, byte, hb, if_true]
      cases rest with
      | nil =>
          rw [if_neg (by simp only [List.length_append, List.length_cons] at hlength ⊢; omega)]
          rfl
      | cons b' rest =>
          have hlast := write_rest first (held ++ [b]) (b' :: rest) (List.cons_ne_nil _ _)
            (fun h => absurd h (List.append_ne_nil_of_right_ne_nil _ (List.cons_ne_nil _ _)))
            (fun x hx => hrest x (List.mem_cons_of_mem _ hx)) (by
              simp only [List.length_append, List.length_cons, List.length_nil] at hlength ⊢
              omega)
          rw [if_pos (by
            simp only [List.length_append, List.length_cons, List.length_nil] at hlength ⊢
            omega)]
          rw [show first :: held ++ [b] = first :: (held ++ [b]) from rfl, hlast]
          simp

theorem write_encode (c : Char) : write [] (String.utf8EncodeChar c) = ([], [c]) := by
  have hdecode := decodeSequence_encode c
  obtain ⟨first, rest, heq, hlength, hfollow, hrest⟩ := encode_shape c
  rw [heq] at hdecode ⊢
  cases rest with
  | nil => simp [write, byte, hlength, hdecode]
  | cons b rest =>
      have hfirst : byte [] first = ([first], []) := by
        simp [byte, hlength]
      have hrest := write_rest first [] (b :: rest) (List.cons_ne_nil _ _) (fun _ => hfollow) hrest
        (by simp only [List.length_cons, List.length_nil] at hlength ⊢; omega)
      rw [write, hfirst]
      dsimp only
      rw [hrest]
      simp [hdecode]

theorem write_encode_text (text : List Char) :
    write [] (text.flatMap String.utf8EncodeChar) = ([], text) := by
  induction text with
  | nil => rfl
  | cons c text ih => rw [List.flatMap_cons, write_append, write_encode, ih]; rfl

theorem decode_encode (text : List Char) :
    decode (text.flatMap String.utf8EncodeChar) = text := by
  rw [decode, write_encode_text]
  exact List.append_nil text

/-! ## Lines -/

section Lines

variable {α : Type*} [DecidableEq α]

/-- The lines that are complete, and what is left. -/
def splitLines (sep : α) : List α → List (List α) × List α
  | [] => ([], [])
  | a :: l =>
      let (lines, rest) := splitLines sep l
      if a = sep then ([] :: lines, rest)
      else
        match lines with
        | [] => ([], a :: rest)
        | line :: lines => ((a :: line) :: lines, rest)

theorem splitLines_of_not_mem {sep : α} {l : List α} : sep ∉ l → splitLines sep l = ([], l) := by
  intro h
  induction l with
  | nil => rfl
  | cons a l ih =>
      rw [splitLines, ih (List.not_mem_of_not_mem_cons h)]
      exact if_neg (Ne.symm (List.ne_of_not_mem_cons h))

theorem splitLines_line {sep : α} {line : List α} (l : List α) :
    sep ∉ line →
    splitLines sep (line ++ sep :: l) = (line :: (splitLines sep l).1, (splitLines sep l).2) := by
  intro h
  induction line with
  | nil => exact if_pos rfl
  | cons a line ih =>
      rw [List.cons_append, splitLines, ih (List.not_mem_of_not_mem_cons h)]
      exact if_neg (Ne.symm (List.ne_of_not_mem_cons h))

/-- The first line, by the place of its separator. -/
theorem splitLines_of_mem {sep : α} {l : List α} :
    sep ∈ l →
    splitLines sep l =
      (l.take (l.idxOf sep) :: (splitLines sep (l.drop (l.idxOf sep + 1))).1,
        (splitLines sep (l.drop (l.idxOf sep + 1))).2) := by
  intro h
  have hlt : l.idxOf sep < l.length := List.idxOf_lt_length_of_mem h
  have hline : sep ∉ l.take (l.idxOf sep) := fun hmem =>
    absurd ((List.mem_take_iff_idxOf_lt h).mp hmem) (Nat.lt_irrefl _)
  have hdrop : l.drop (l.idxOf sep) = sep :: l.drop (l.idxOf sep + 1) := by
    rw [List.drop_eq_getElem_cons hlt, List.getElem_idxOf]
  have hsplit := splitLines_line (l.drop (l.idxOf sep + 1)) hline
  rwa [← hdrop, List.take_append_drop] at hsplit

/-- What is left goes before what comes next. -/
theorem splitLines_append (sep : α) (l l' : List α) :
    splitLines sep (l ++ l') =
      ((splitLines sep l).1 ++ (splitLines sep ((splitLines sep l).2 ++ l')).1,
        (splitLines sep ((splitLines sep l).2 ++ l')).2) := by
  induction l with
  | nil => rfl
  | cons a l ih =>
      rw [List.cons_append, splitLines, ih, splitLines]
      dsimp only
      by_cases ha : a = sep
      · rw [if_pos ha, if_pos ha]
        rfl
      · rw [if_neg ha, if_neg ha]
        cases (splitLines sep l).1 with
        | nil =>
            rw [List.nil_append]
            dsimp only
            rw [List.cons_append, splitLines]
            dsimp only
            rw [if_neg ha]
            rfl
        | cons line lines => rfl

end Lines

/-- Between lines nothing is held back. -/
theorem held_of_lines (lines : List (List UInt8)) (part : List UInt8) :
    (write [] ((lines.map (· ++ [0x0A])).flatten ++ part)).1 = (write [] part).1 := by
  induction lines with
  | nil => rfl
  | cons line lines ih =>
      rw [List.map_cons, List.flatten_cons, List.append_assoc, write_append, write_line]
      exact ih

/-- The lines of a stream of bytes that breaks off inside a line. -/
theorem splitLines_write {part : List UInt8} :
    ∀ {lines : List (List UInt8)}, (∀ line ∈ lines, 0x0A ∉ line) → 0x0A ∉ part →
      splitLines '\n' (write [] ((lines.map (· ++ [0x0A])).flatten ++ part)).2 =
        (lines.map decode, (write [] part).2)
  | [], _, hpart => splitLines_of_not_mem fun h => hpart (newline_mem_write h)
  | line :: lines, hlines, hpart => by
      obtain ⟨hline, hlines⟩ := List.forall_mem_cons.mp hlines
      have hrest := splitLines_write hlines hpart
      rw [List.map_cons, List.flatten_cons, List.append_assoc, write_append, write_line]
      dsimp only
      rw [List.append_assoc, List.singleton_append,
        splitLines_line _ (newline_not_mem_decode hline), hrest]
      rfl

end TextStream
