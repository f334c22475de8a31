/-
# `AutobricksVpn.Lib.Json` — JSON texts

`stringify` writes a value without white space and escapes in texts what JSON
wants escaped; `parse` reads any JSON text, with white space between the
tokens.  Reading is a recursive descent on fuel, and the length of the text is
enough of it: what `stringify` wrote is read back as the value it wrote
(`parse_stringify`).

A value has no numbers here, and the escape of half a surrogate pair is not
read.  The members of an object are the list that the text has; where a name
occurs twice the last one counts (`Json.get`).
-/
import Mathlib.Data.List.Basic

inductive Json where
  | null
  | bool (value : Bool)
  | string (value : List Char)
  | array (items : List Json)
  | object (members : List (List Char × Json))

namespace Json

/-- The member of that name. -/
def get (name : List Char) : Json → Option Json
  | .object members => members.reverse.lookup name
  | _ => none

/-! ## Writing -/

/-- The letter behind the backslash, for the characters that have one. -/
def escapeOf (c : Char) : Option Char :=
  if c = '"' then some '"'
  else if c = '\\' then some '\\'
  else if c = '\u0008' then some 'b'
  else if c = '\u000c' then some 'f'
  else if c = '\n' then some 'n'
  else if c = '\r' then some 'r'
  else if c = '\t' then some 't'
  else none

def hexDigit (n : Nat) : Char := Nat.digitChar n

def quoteChar (c : Char) : List Char :=
  match escapeOf c with
  | some letter => ['\\', letter]
  | none =>
      if c.toNat < 0x20 then ['\\', 'u', '0', '0', hexDigit (c.toNat / 16), hexDigit (c.toNat % 16)]
      else [c]

def quote (text : List Char) : List Char := '"' :: (text.flatMap quoteChar ++ ['"'])

mutual

def stringify : Json → List Char
  | .null => ['n', 'u', 'l', 'l']
  | .bool true => ['t', 'r', 'u', 'e']
  | .bool false => ['f', 'a', 'l', 's', 'e']
  | .string value => quote value
  | .array [] => ['[', ']']
  | .array (item :: items) => '[' :: (stringify item ++ stringifyItems items)
  | .object [] => ['\x7b', '\x7d']
  | .object ((name, value) :: members) =>
      '\x7b' :: (quote name ++ ':' :: (stringify value ++ stringifyMembers members))

/-- The other items, and the end of the array. -/
def stringifyItems : List Json → List Char
  | [] => [']']
  | item :: items => ',' :: (stringify item ++ stringifyItems items)

def stringifyMembers : List (List Char × Json) → List Char
  | [] => ['\x7d']
  | (name, value) :: members =>
      ',' :: (quote name ++ ':' :: (stringify value ++ stringifyMembers members))

end

/-! ## Reading -/

def isSpace (c : Char) : Bool := c = ' ' || c = '\t' || c = '\n' || c = '\r'

def skip (text : List Char) : List Char := text.dropWhile isSpace

/-- The text behind one token, and behind the white space after it. -/
def expect (token : Char) (text : List Char) : Option (List Char) :=
  match text with
  | [] => none
  | c :: rest => if c = token then some (skip rest) else none

def unescape (letter : Char) : Option Char :=
  [('"', '"'), ('\\', '\\'), ('/', '/'), ('b', '\u0008'), ('f', '\u000c'), ('n', '\n'), ('r', '\r'),
    ('t', '\t')].lookup letter

def hexValue (c : Char) : Option Nat :=
  if c.isDigit then some (c.toNat - '0'.toNat)
  else if 'a' ≤ c ∧ c ≤ 'f' then some (c.toNat - 'a'.toNat + 10)
  else if 'A' ≤ c ∧ c ≤ 'F' then some (c.toNat - 'A'.toNat + 10)
  else none

/-- The character of a code unit that is no surrogate. -/
def charOfUnit (unit : Nat) : Option Char :=
  if h : unit.isValidChar then some (Char.ofNatAux unit h) else none

/-- `\uabcd`. -/
def unicodeEscape (a b c d : Char) : Option Char :=
  match hexValue a, hexValue b, hexValue c, hexValue d with
  | some a, some b, some c, some d => charOfUnit (((a * 16 + b) * 16 + c) * 16 + d)
  | _, _, _, _ => none

/-- One character, as it is or escaped. -/
def parseChar (text : List Char) : Option (Char × List Char) :=
  match text with
  | '\\' :: 'u' :: a :: b :: c :: d :: rest => (unicodeEscape a b c d).map fun c => (c, rest)
  | '\\' :: letter :: rest => (unescape letter).map fun c => (c, rest)
  | [] => none
  | c :: rest => if c.toNat < 0x20 then none else some (c, rest)

/-- The rest of a text, behind the opening quotation mark. -/
def parseChars : Nat → List Char → Option (List Char × List Char)
  | 0, _ => none
  | fuel + 1, text =>
      if text.head? = some '"' then some ([], text.tail)
      else
        match parseChar text with
        | none => none
        | some (c, rest) => (parseChars fuel rest).map fun (text, rest) => (c :: text, rest)

/-- A text, and what is behind it and the white space after it. -/
def parseText (text : List Char) : Option (List Char × List Char) :=
  match text with
  | [] => none
  | c :: rest =>
      if c = '"' then (parseChars rest.length rest).map fun (value, rest) => (value, skip rest)
      else none

def parseWord (word : List Char) (value : Json) (text : List Char) : Option (Json × List Char) :=
  if word.isPrefixOf text then some (value, skip (text.drop word.length)) else none

mutual

/-- A value, and what is behind it and the white space after it. -/
def parseValue : Nat → List Char → Option (Json × List Char)
  | 0, _ => none
  | fuel + 1, text =>
      match text with
      | [] => none
      | c :: rest =>
          if c = '"' then (parseText text).map fun (value, rest) => (.string value, rest)
          else if c = '[' then
            match expect ']' (skip rest) with
            | some rest => some (.array [], rest)
            | none =>
                match parseValue fuel (skip rest) with
                | none => none
                | some (item, rest) =>
                    (parseItems fuel rest).map fun (items, rest) => (.array (item :: items), rest)
          else if c = '\x7b' then
            match expect '\x7d' (skip rest) with
            | some rest => some (.object [], rest)
            | none =>
                match parseMember fuel (skip rest) with
                | none => none
                | some (member, rest) =>
                    (parseMembers fuel rest).map fun (members, rest) =>
                      (.object (member :: members), rest)
          else if c = 'n' then parseWord ['n', 'u', 'l', 'l'] .null text
          else if c = 't' then parseWord ['t', 'r', 'u', 'e'] (.bool true) text
          else parseWord ['f', 'a', 'l', 's', 'e'] (.bool false) text

/-- The other items, and the end of the array. -/
def parseItems : Nat → List Char → Option (List Json × List Char)
  | 0, _ => none
  | fuel + 1, text =>
      match expect ',' text with
      | none => (expect ']' text).map fun rest => ([], rest)
      | some rest =>
          match parseValue fuel rest with
          | none => none
          | some (item, rest) =>
              (parseItems fuel rest).map fun (items, rest) => (item :: items, rest)

def parseMember : Nat → List Char → Option ((List Char × Json) × List Char)
  | 0, _ => none
  | fuel + 1, text =>
      match parseText text with
      | none => none
      | some (name, rest) =>
          match expect ':' rest with
          | none => none
          | some rest => (parseValue fuel rest).map fun (value, rest) => ((name, value), rest)

def parseMembers : Nat → List Char → Option (List (List Char × Json) × List Char)
  | 0, _ => none
  | fuel + 1, text =>
      match expect ',' text with
      | none => (expect '\x7d' text).map fun rest => ([], rest)
      | some rest =>
          match parseMember fuel rest with
          | none => none
          | some (member, rest) =>
              (parseMembers fuel rest).map fun (members, rest) => (member :: members, rest)

end

/-- A whole text is one value. -/
def parse (text : List Char) : Option Json :=
  match parseValue text.length (skip text) with
  | some (value, []) => some value
  | _ => none

/-! ## What is written is read back -/

section RoundTrip

theorem skip_cons {c : Char} (h : isSpace c = false) (rest : List Char) :
    skip (c :: rest) = c :: rest :=
  List.dropWhile_cons_of_neg (Bool.eq_false_iff.mp h)

@[simp] theorem expect_self (c : Char) (rest : List Char) : expect c (c :: rest) = some (skip rest) :=
  if_pos rfl

theorem expect_ne {token c : Char} (h : c ≠ token) (rest : List Char) :
    expect token (c :: rest) = none :=
  if_neg h

/-! ### Texts -/

theorem unescape_of_escapeOf {c letter : Char} (h : escapeOf c = some letter) :
    unescape letter = some c ∧ letter ≠ 'u' := by
  unfold escapeOf at h
  split_ifs at h with h₁ h₂ h₃ h₄ h₅ h₆ h₇ <;> obtain rfl := Option.some.inj h <;> subst c <;>
    exact ⟨by decide, by decide⟩

theorem escapeOf_none {c : Char} (h : escapeOf c = none) : c ≠ '"' ∧ c ≠ '\\' := by
  constructor
  · rintro rfl
    cases h
  · rintro rfl
    cases h

theorem charOfUnit_toNat (c : Char) : charOfUnit c.toNat = some c := by
  unfold charOfUnit
  exact dif_pos c.valid

/-- Two digits are enough for a control character. -/
theorem unicodeEscape_hexDigit {c : Char} (h : c.toNat < 0x20) :
    unicodeEscape '0' '0' (hexDigit (c.toNat / 16)) (hexDigit (c.toNat % 16)) = some c := by
  have hdigits : ∀ n, n < 0x20 → unicodeEscape '0' '0' (hexDigit (n / 16)) (hexDigit (n % 16)) =
      charOfUnit n := by decide
  rw [hdigits _ h, charOfUnit_toNat]

theorem head_quoteChar (c : Char) (rest : List Char) :
    (quoteChar c ++ rest).head? ≠ some '"' := by
  unfold quoteChar
  cases hescape : escapeOf c with
  | some letter => exact fun h => absurd (Option.some.inj h) (by decide)
  | none =>
      dsimp only
      split
      · exact fun h => absurd (Option.some.inj h) (by decide)
      · exact fun h => (escapeOf_none hescape).1 (Option.some.inj h)

theorem parseChar_quoteChar (c : Char) (rest : List Char) :
    parseChar (quoteChar c ++ rest) = some (c, rest) := by
  unfold quoteChar
  cases hescape : escapeOf c with
  | some letter =>
      obtain ⟨hletter, hne⟩ := unescape_of_escapeOf hescape
      dsimp only [List.cons_append, List.nil_append]
      rw [parseChar, hletter]
      · rfl
      · rintro _ _ _ _ _ rfl
        exact absurd rfl hne
  | none =>
      obtain ⟨-, hslash⟩ := escapeOf_none hescape
      dsimp only
      split
      · rename_i hcontrol
        dsimp only [List.cons_append, List.nil_append]
        rw [parseChar, unicodeEscape_hexDigit hcontrol]
        rfl
      · rename_i hprintable
        rw [List.singleton_append, parseChar, if_neg hprintable]
        · exact fun _ _ _ _ _ heq _ => hslash heq
        · exact fun _ _ heq _ => hslash heq

theorem length_quoteChar_pos (c : Char) : 0 < (quoteChar c).length := by
  unfold quoteChar
  cases escapeOf c with
  | some letter => exact Nat.succ_pos _
  | none =>
      dsimp only
      split <;> exact Nat.succ_pos _

theorem parseChars_quoted (text rest : List Char) : ∀ fuel, (text.flatMap quoteChar).length < fuel →
    parseChars fuel (text.flatMap quoteChar ++ '"' :: rest) = some (text, rest) := by
  induction text with
  | nil =>
      intro fuel hfuel
      cases fuel with
      | zero => cases hfuel
      | succ fuel => exact if_pos rfl
  | cons c text ih =>
      intro fuel hfuel
      have hpos := length_quoteChar_pos c
      rw [List.flatMap_cons, List.length_append] at hfuel
      cases fuel with
      | zero => cases hfuel
      | succ fuel =>
          rw [List.flatMap_cons, List.append_assoc, parseChars, if_neg (head_quoteChar c _),
            parseChar_quoteChar]
          dsimp only
          rw [ih fuel (by omega)]
          rfl

theorem parseText_quote (text rest : List Char) :
    parseText (quote text ++ rest) = some (text, skip rest) := by
  have happ : quote text ++ rest = '"' :: (text.flatMap quoteChar ++ '"' :: rest) := by
    rw [quote, List.cons_append, List.append_assoc, List.singleton_append]
  have hfuel : (text.flatMap quoteChar).length < (text.flatMap quoteChar ++ '"' :: rest).length := by
    rw [List.length_append, List.length_cons]
    omega
  rw [happ, parseText, if_pos rfl, parseChars_quoted text rest _ hfuel]
  rfl

/-! ### Values -/

/-- A value begins with a character that is no white space and ends nothing. -/
theorem stringify_cons (value : Json) :
    ∃ c tail, stringify value = c :: tail ∧ isSpace c = false ∧ c ≠ ']' := by
  cases value with
  | null => exact ⟨_, _, rfl, by decide, by decide⟩
  | bool value => cases value <;> exact ⟨_, _, rfl, by decide, by decide⟩
  | string value => exact ⟨_, _, rfl, by decide, by decide⟩
  | array items => cases items <;> exact ⟨_, _, rfl, by decide, by decide⟩
  | object members => cases members <;> exact ⟨_, _, rfl, by decide, by decide⟩

theorem skip_stringify (value : Json) (rest : List Char) :
    skip (stringify value ++ rest) = stringify value ++ rest := by
  obtain ⟨c, tail, heq, hspace, -⟩ := stringify_cons value
  rw [heq]
  exact skip_cons hspace _

theorem skip_stringifyItems (items : List Json) (rest : List Char) :
    skip (stringifyItems items ++ rest) = stringifyItems items ++ rest := by
  cases items <;> exact skip_cons (by decide) _

theorem skip_stringifyMembers (members : List (List Char × Json)) (rest : List Char) :
    skip (stringifyMembers members ++ rest) = stringifyMembers members ++ rest := by
  cases members <;> exact skip_cons (by decide) _

theorem length_stringifyItems_pos (items : List Json) : 0 < (stringifyItems items).length := by
  cases items <;> exact Nat.succ_pos _

theorem length_stringifyMembers_pos (members : List (List Char × Json)) :
    0 < (stringifyMembers members).length := by
  cases members <;> exact Nat.succ_pos _

theorem expect_stringify {value : Json} (rest : List Char) :
    expect ']' (stringify value ++ rest) = none := by
  obtain ⟨c, tail, heq, -, hne⟩ := stringify_cons value
  rw [heq]
  exact expect_ne hne _

theorem length_quote (text : List Char) : 2 ≤ (quote text).length := by
  rw [quote, List.length_cons, List.length_append, List.length_singleton]
  omega

theorem skip_quote (text rest : List Char) : skip (quote text ++ rest) = quote text ++ rest :=
  skip_cons (by decide) _

theorem expect_quote {token : Char} (h : '"' ≠ token) (text rest : List Char) :
    expect token (quote text ++ rest) = none :=
  expect_ne h _

/-- A member is read when its value is. -/
theorem parseMember_quote (name : List Char) {value : Json} {fuel : Nat}
    (h : ∀ rest, parseValue fuel (stringify value ++ rest) = some (value, skip rest))
    (rest : List Char) :
    parseMember (fuel + 1) (quote name ++ ':' :: (stringify value ++ rest)) =
      some ((name, value), skip rest) := by
  rw [parseMember, parseText_quote, skip_cons (by decide)]
  dsimp only
  rw [expect_self, skip_stringify]
  dsimp only
  rw [h rest]
  rfl

mutual

/-- By recursion on the value; a nested value is shorter, so less fuel is enough. -/
theorem parseValue_stringify : ∀ (value : Json) (fuel : Nat) (rest : List Char),
    (stringify value).length ≤ fuel →
    parseValue fuel (stringify value ++ rest) = some (value, skip rest)
  | value, 0, rest, hfuel => by
      obtain ⟨c, tail, heq, -, -⟩ := stringify_cons value
      rw [heq] at hfuel
      cases hfuel
  | .null, fuel + 1, rest, hfuel => rfl
  | .bool true, fuel + 1, rest, hfuel => rfl
  | .bool false, fuel + 1, rest, hfuel => rfl
  | .string value, fuel + 1, rest, hfuel => by
      have htext := parseText_quote value rest
      rw [quote, List.cons_append] at htext
      rw [stringify, quote, List.cons_append, parseValue, if_pos rfl, htext]
      rfl
  | .array [], fuel + 1, rest, hfuel => rfl
  | .array (item :: items), fuel + 1, rest, hfuel => by
      rw [stringify, List.length_cons, List.length_append] at hfuel
      rw [stringify, List.cons_append, List.append_assoc, parseValue, if_neg (by decide), if_pos rfl,
        skip_stringify, expect_stringify]
      dsimp only
      rw [parseValue_stringify item fuel _ (by omega), skip_stringifyItems]
      dsimp only
      rw [parseItems_stringify items fuel rest (by omega)]
      rfl
  | .object [], fuel + 1, rest, hfuel => rfl
  | .object ((name, value) :: members), fuel + 1, rest, hfuel => by
      have hquote := length_quote name
      rw [stringify, List.length_cons, List.length_append, List.length_cons,
        List.length_append] at hfuel
      obtain ⟨fuel, rfl⟩ : ∃ n, fuel = n + 1 := Nat.exists_eq_add_one.mpr (by omega)
      have hvalue := fun rest => parseValue_stringify value fuel rest (by omega)
      rw [stringify, List.cons_append, List.append_assoc, List.cons_append, List.append_assoc,
        parseValue, if_neg (by decide), if_neg (by decide), if_pos rfl, skip_quote,
        expect_quote (by decide)]
      dsimp only
      rw [parseMember_quote name hvalue, skip_stringifyMembers]
      dsimp only
      rw [parseMembers_stringify members (fuel + 1) rest (by omega)]
      rfl

theorem parseItems_stringify : ∀ (items : List Json) (fuel : Nat) (rest : List Char),
    (stringifyItems items).length ≤ fuel →
    parseItems fuel (stringifyItems items ++ rest) = some (items, skip rest)
  | items, 0, rest, hfuel => absurd (length_stringifyItems_pos items) (Nat.not_lt.mpr hfuel)
  | [], fuel + 1, rest, hfuel => rfl
  | item :: items, fuel + 1, rest, hfuel => by
      rw [stringifyItems, List.length_cons, List.length_append] at hfuel
      rw [stringifyItems, List.cons_append, List.append_assoc, parseItems, expect_self, skip_stringify]
      dsimp only
      rw [parseValue_stringify item fuel _ (by omega), skip_stringifyItems]
      dsimp only
      rw [parseItems_stringify items fuel rest (by omega)]
      rfl

theorem parseMembers_stringify : ∀ (members : List (List Char × Json)) (fuel : Nat) (rest : List Char),
    (stringifyMembers members).length ≤ fuel →
    parseMembers fuel (stringifyMembers members ++ rest) = some (members, skip rest)
  | members, 0, rest, hfuel => absurd (length_stringifyMembers_pos members) (Nat.not_lt.mpr hfuel)
  | [], fuel + 1, rest, hfuel => rfl
  | (name, value) :: members, fuel + 1, rest, hfuel => by
      have hquote := length_quote name
      rw [stringifyMembers, List.length_cons, List.length_append, List.length_cons,
        List.length_append] at hfuel
      obtain ⟨fuel, rfl⟩ : ∃ n, fuel = n + 1 := Nat.exists_eq_add_one.mpr (by omega)
      have hvalue := fun rest => parseValue_stringify value fuel rest (by omega)
      rw [stringifyMembers, List.cons_append, List.append_assoc, List.cons_append,
        List.append_assoc, parseMembers, expect_self, skip_quote]
      dsimp only
      rw [parseMember_quote name hvalue, skip_stringifyMembers]
      dsimp only
      rw [parseMembers_stringify members (fuel + 1) rest (by omega)]
      rfl

end

theorem parse_stringify (value : Json) : parse (stringify value) = some value := by
  have hvalue := parseValue_stringify value (stringify value).length [] (Nat.le_refl _)
  have hskip := skip_stringify value []
  rw [List.append_nil] at hvalue hskip
  rw [parse, hskip, hvalue]
  rfl

end RoundTrip

end Json
