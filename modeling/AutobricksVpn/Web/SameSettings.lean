/-
# `AutobricksVpn.Web.SameSettings` — the console and the server read the same settings

Both read `server.ini`, each with a reader of its own.  They part company over
comments behind a value, lines that begin with a semicolon, a second section of
the same name, capitals in its header, and the white space that only one of them
knows.  Where none of these occurs (`OneSection`), they find the same entries
(`parseSection_server`), and the numbers that the server accepts the console
reads as it does (`parseInt_of_parseUnsigned`).
-/
import AutobricksVpn.Config.Settings
import AutobricksVpn.Web.ClientFile
import AutobricksVpn.Web.Reread

namespace AutobricksVpn

namespace Web

open JsText (Runtime)

/-- A line that both read alike: without a comment, or nothing but one. -/
structure SettingLine (line : Text) : Prop where
  noHeader : isHeaderLine line = false
  noSection : iniHeader line = none
  spaces : SameSpaces line
  comment : '#' ∈ line → (JsText.trim line).head? = some '#'
  semicolon : (JsText.trim line).head? = some ';' → '=' ∉ line

/-- The file has one section `[server]`, and both find it and its end. -/
structure OneSection (js : Runtime) (text : Text) (before : List Text) (header : Text)
    (inside after : List Text) : Prop where
  lines : Text.lines text = before ++ header :: (inside ++ after)
  before : ∀ line ∈ before, named js "server" line = false ∧
    iniHeader line ≠ some "server".toList
  header : named js "server" header = true ∧ iniHeader header = some "server".toList
  inside : ∀ line ∈ inside, SettingLine line
  next : ∀ line ∈ after.head?, isHeaderLine line = true ∧ (iniHeader line).isSome = true
  after : ∀ line ∈ after, iniHeader line ≠ some "server".toList

section Lines

variable {js : Runtime} {line text header : Text} {before inside after : List Text}

theorem parseLine_eq_iniEntry (h : SettingLine line) : parseLine line = iniEntry line := by
  by_cases hhash : '#' ∈ line
  · have hhead := h.comment hhash
    obtain ⟨rest, hrest⟩ := List.head?_eq_some_iff.mp hhead
    have hspaces : SameSpaces (uncommented line) := fun c hc =>
      h.spaces c (mem_of_mem_uncommented hc)
    have htrim := (trim_uncommented_trim hspaces).1
    have hnil : uncommented (JsText.trim line) = [] := by rw [hrest]; rfl
    have hempty : Text.trim (uncommented line) = [] := by rw [← htrim, hnil]; rfl
    rw [parseLine, if_pos (.inr (.inl hhead)), iniEntry, h.noSection, hempty]
    rfl
  · have htrim : Text.trim (uncommented line) = JsText.trim line := by
      rw [uncommented_eq_self hhash, trim_eq_of_sameSpaces h.spaces]
    have hentry : iniEntry line = (Text.splitOnce '=' (JsText.trim line)).map fun entry =>
        (Text.trim entry.1, Text.trim entry.2) := by
      rw [iniEntry, h.noSection, htrim]
    rw [hentry]
    unfold parseLine
    dsimp only
    split
    · rename_i hskipped
      have hnot : '=' ∉ JsText.trim line := by
        rcases hskipped with hnil | hcomment | hsemicolon
        · rw [hnil]
          exact List.not_mem_nil
        · exact absurd (Fields.mem_of_mem_trim (List.mem_of_mem_head? hcomment)) hhash
        · exact fun hmem => h.semicolon hsemicolon (Fields.mem_of_mem_trim hmem)
      rw [Text.splitOnce_none.mpr hnot]
      rfl
    · cases hsplit : Text.splitOnce '=' (JsText.trim line) with
      | none => rfl
      | some parts =>
          obtain ⟨left, right⟩ := parts
          obtain ⟨heq, -⟩ := Text.splitOnce_some.mp hsplit
          have hin : ∀ c ∈ left ++ '=' :: right, c ∈ line := fun c hc =>
            Fields.mem_of_mem_trim (heq ▸ hc)
          have hleft : SameSpaces left := fun c hc => h.spaces c (hin c (List.mem_append_left _ hc))
          have hright : SameSpaces right := fun c hc =>
            h.spaces c (hin c (List.mem_append_right _ (List.mem_cons_of_mem _ hc)))
          simp only [Option.map_some, trim_eq_of_sameSpaces hleft, trim_eq_of_sameSpaces hright]

/-- Outside the section nothing counts. -/
theorem parseIniLines_outside {name : Text} {lines : List Text} :
    (∀ line ∈ lines, iniHeader line ≠ some name) → parseIniLines name false lines = [] := by
  intro h
  induction lines with
  | nil => rfl
  | cons line lines ih =>
      obtain ⟨hline, hlines⟩ := List.forall_mem_cons.mp h
      have hactive : ((iniHeader line).map (· == name)).getD false = false := by
        cases hheader : iniHeader line with
        | none => rfl
        | some header =>
            rw [hheader] at hline
            exact beq_eq_false_iff_ne.mpr fun heq => hline (congrArg some heq)
      rw [parseIniLines_cons, hactive, ih hlines]
      rfl

/-- After the section nothing counts either. -/
theorem parseIniLines_after {name : Text} {lines : List Text}
    (hnext : ∀ line ∈ lines.head?, (iniHeader line).isSome = true) :
    (∀ line ∈ lines, iniHeader line ≠ some name) → parseIniLines name true lines = [] := by
  intro h
  cases lines with
  | nil => rfl
  | cons line lines =>
      obtain ⟨hline, hlines⟩ := List.forall_mem_cons.mp h
      obtain ⟨header, hheader⟩ := Option.isSome_iff_exists.mp (hnext line rfl)
      rw [hheader] at hline
      have hother : (header == name) = false :=
        beq_eq_false_iff_ne.mpr fun heq => hline (congrArg some heq)
      rw [parseIniLines_cons, hheader, Option.map_some, Option.getD_some, hother,
        parseIniLines_outside hlines, iniEntry_of_header hheader]
      rfl

/-- Both find the same entries. -/
theorem parseSection_server (h : OneSection js text before header inside after) :
    parseSection js text "server" = parseIniEntries text "server" := by
  have hentries : inside.filterMap parseLine = inside.filterMap iniEntry :=
    List.filterMap_congr fun line hline => parseLine_eq_iniEntry (h.inside line hline)
  have hbefore : ∀ line ∈ before, iniHeader line ≠ some "server".toList := fun line hline =>
    (h.before line hline).2
  obtain ⟨k, hk⟩ := js_lines_eq text
  rw [parseSection_eq, hk, entriesOf_blank, parseIniEntries, h.lines,
    entriesOf_cut (fun line hline => (h.before line hline).1) h.header.1
      (fun line hline => (h.inside line hline).noHeader) (fun line hline => (h.next line hline).1),
    parseIniLines_section h.header.2 (fun line hline => (h.inside line hline).noSection),
    parseIniLines_outside hbefore, hentries, beq_self_eq_true, if_pos rfl,
    parseIniLines_after (fun line hline => (h.next line hline).2) h.after, List.nil_append,
    List.append_nil]

theorem find?_eq_lookup (entries : List (Text × Text)) (key : Text) :
    (entries.find? fun entry => entry.1 == key).map (·.2) = entries.lookup key := by
  induction entries with
  | nil => rfl
  | cons entry entries ih =>
      have hsame : (key == entry.1) = (entry.1 == key) := Bool.beq_comm
      rw [List.find?_cons, List.lookup_cons, hsame]
      cases entry.1 == key with
      | true => rfl
      | false => exact ih

/-- Both find the same value. -/
theorem getEntry_server (h : OneSection js text before header inside after) (key : String) :
    getEntry (parseSection js text "server") key = parseIniSection text "server" key.toList := by
  rw [getEntry, parseIniSection, parseSection_server h, find?_eq_lookup]

end Lines

/-! ## Numbers -/

theorem not_isSpace_of_isDigit {c : Char} (h : c.isDigit = true) : JsText.isSpace c = false := by
  have hbounds := digit_bounds h
  unfold JsText.isSpace JsText.isSpaceCode
  simp only [Bool.or_eq_false_iff, Bool.and_eq_false_iff, decide_eq_false_iff_not,
    beq_eq_false_iff_ne]
  omega

/-- A number that the server accepts, the console reads as the server does. -/
theorem parseInt_of_parseUnsigned {t : Text} {max n : Nat} (h : Text.parseUnsigned max t = some n) :
    JsText.parseInt t = some (n : Int) := by
  unfold Text.parseUnsigned at h
  dsimp only at h
  have hnumber := (Option.filter_eq_some_iff.mp h).1
  obtain ⟨hne, hall⟩ := digits_of_parseDigits hnumber
  have htake := List.takeWhile_eq_self_iff.mpr hall
  split at hnumber
  · rename_i hplus
    obtain ⟨digits, rfl⟩ := List.head?_eq_some_iff.mp hplus
    have hdrop : ('+' :: digits).dropWhile JsText.isSpace = '+' :: digits := rfl
    rw [if_pos hplus, List.tail_cons] at htake
    rw [List.tail_cons] at hnumber
    unfold JsText.parseInt
    rw [hdrop]
    show (Text.parseDigits (digits.takeWhile (·.isDigit))).map Int.ofNat = _
    rw [htake, hnumber]
    rfl
  · rename_i hplus
    rw [if_neg hplus] at htake hall hne
    obtain ⟨c, rest, rfl⟩ := List.exists_cons_of_ne_nil hne
    have hdigit := hall c List.mem_cons_self
    have hdrop : (c :: rest).dropWhile JsText.isSpace = c :: rest :=
      List.dropWhile_cons_of_neg (by rw [not_isSpace_of_isDigit hdigit]; decide)
    unfold JsText.parseInt
    rw [hdrop]
    split
    · rename_i heq
      obtain ⟨rfl, -⟩ := List.cons.inj heq
      exact absurd hdigit (by decide)
    · rename_i heq
      obtain ⟨rfl, -⟩ := List.cons.inj heq
      exact absurd rfl hplus
    · show (Text.parseDigits ((c :: rest).takeWhile (·.isDigit))).map Int.ofNat = _
      rw [htake, hnumber]
      rfl

end Web

end AutobricksVpn
