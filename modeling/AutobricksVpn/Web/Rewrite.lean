/-
# `AutobricksVpn.Web.Rewrite` — the server reads what the console has written

The console puts new lines in the place of those it takes for the `[client]`
section, and ends every line with a plain newline.  What the server makes of the
result is a matter of lines again (`parseIniEntries_joinLines`,
`embeddedSection_joinLines`), so the new lines count for the client section only,
if the two agree on where it is:

    before:   P ++ (the lines of the section) ++ Q
    after:    P ++ (the new lines)            ++ Q          (`entries_rewritten`)

The two agree (`ReadAlike`) when the line that the console takes for the header
is one for the server, and no line below is one for the server only.
-/
import AutobricksVpn.Config.Embedded
import AutobricksVpn.Web.ServerConfig

namespace AutobricksVpn

namespace Web

open JsText (Runtime)

/-! ## Lines that are joined -/

section Joined

variable {out : List Text} {text : Text} {name : String}

theorem text_linesOf_concat (lines : List Text) (last : Text) :
    Text.linesOf (lines ++ [last]) =
      lines.map Text.stripCarriageReturn ++ if last = [] then [] else [last] := by
  induction lines with
  | nil => rfl
  | cons line lines ih =>
      obtain ⟨next, rest, heq⟩ : ∃ next rest, lines ++ [last] = next :: rest :=
        List.exists_cons_of_ne_nil (by simp)
      rw [List.cons_append, heq, Text.linesOf, ← heq, ih]
      · rfl
      · exact fun h => by cases h

theorem js_linesOf_concat (lines : List Text) (last : Text) :
    JsText.linesOf (lines ++ [last]) = lines.map Text.stripCarriageReturn ++ [last] := by
  induction lines with
  | nil => rfl
  | cons line lines ih =>
      obtain ⟨next, rest, heq⟩ : ∃ next rest, lines ++ [last] = next :: rest :=
        List.exists_cons_of_ne_nil (by simp)
      rw [List.cons_append, heq, JsText.linesOf, ← heq, ih]
      · rfl
      · exact fun h => by cases h

/-- The console has an empty line more where the file ends with a newline. -/
theorem js_lines_eq (text : Text) :
    ∃ k, JsText.lines text = Text.lines text ++ List.replicate k [] := by
  rcases List.eq_nil_or_concat (text.splitOn '\n') with hnil | ⟨lines, last, heq⟩
  · exact absurd hnil (List.splitOn_ne_nil _ _)
  · rw [List.concat_eq_append] at heq
    have hrust : Text.lines text = Text.linesOf (lines ++ [last]) := congrArg Text.linesOf heq
    rw [JsText.lines, heq, js_linesOf_concat, hrust, text_linesOf_concat]
    by_cases hlast : last = []
    · exact ⟨1, by rw [if_pos hlast, hlast, List.append_nil]; rfl⟩
    · exact ⟨0, by rw [if_neg hlast, List.replicate_zero, List.append_nil]⟩

/-- A line is a piece of the text, without its carriage return perhaps. -/
theorem exists_piece_of_line : ∀ line ∈ JsText.lines text,
    ∃ piece ∈ text.splitOn '\n', ∀ c ∈ line, c ∈ piece := by
  rcases List.eq_nil_or_concat (text.splitOn '\n') with hnil | ⟨lines, last, heq⟩
  · exact absurd hnil (List.splitOn_ne_nil _ _)
  · rw [List.concat_eq_append] at heq
    rw [JsText.lines, heq, js_linesOf_concat]
    intro line hline
    rcases List.mem_append.mp hline with hline | hline
    · obtain ⟨piece, hin, rfl⟩ := List.mem_map.mp hline
      refine ⟨piece, List.mem_append_left _ hin, fun c hc => ?_⟩
      rcases Text.stripCarriageReturn_cases piece with h | h
      · rwa [h] at hc
      · rw [h]
        exact List.mem_append_left _ hc
    · exact ⟨line, List.mem_append_right _ hline, fun _ hc => hc⟩

theorem newline_not_mem_lines : ∀ line ∈ JsText.lines text, '\n' ∉ line := by
  intro line hline hmem
  obtain ⟨piece, hpiece, hin⟩ := exists_piece_of_line line hline
  have h := Fields.not_sep_of_mem_splitOnP hpiece (hin _ hmem)
  cases h

/-- Empty lines at the end, as many as can be with one line left. -/
theorem exists_blank_end (hne : out ≠ []) :
    ∃ lines k, lines ≠ [] ∧ out = lines ++ List.replicate k [] ∧
      (lines = [[]] ∨ ∃ init last, lines = init ++ [last] ∧ last ≠ []) := by
  induction out using List.reverseRecOn with
  | nil => exact absurd rfl hne
  | append_singleton init last ih =>
      by_cases hlast : last = []
      · by_cases hinit : init = []
        · exact ⟨[[]], 0, by simp, by rw [hinit, hlast]; rfl, .inl rfl⟩
        · obtain ⟨lines, k, hlines, heq, hend⟩ := ih hinit
          refine ⟨lines, k + 1, hlines, ?_, hend⟩
          rw [heq, hlast, List.replicate_succ', List.append_assoc]
      · exact ⟨init ++ [last], 0, by simp, by simp, .inr ⟨init, last, rfl, hlast⟩⟩

/-- The lines of the file that is written. -/
theorem lines_joinLines (hne : out ≠ []) (hout : ∀ line ∈ out, '\n' ∉ line) :
    ∃ lines k, out = lines ++ List.replicate k [] ∧
      Text.lines (joinLines out) = lines.map Text.stripCarriageReturn := by
  obtain ⟨lines, k, hlines, rfl, hend⟩ := exists_blank_end hne
  refine ⟨lines, k, rfl, ?_⟩
  have hkept : (joined lines).rdropWhile (· == '\n') = joined lines := by
    rcases hend with rfl | ⟨init, last, rfl, hlast⟩
    · rfl
    · obtain ⟨start, hstart⟩ := joined_concat init last
      have heq := hstart []
      rw [List.append_nil, List.append_nil] at heq
      rw [heq, List.rdropWhile_eq_self_iff]
      intro hstop hnewline
      rw [List.getLast_append_of_ne_nil _ hlast] at hnewline
      have hmem : last ∈ (init ++ [last]) ++ List.replicate k [] := by simp
      exact hout last hmem (beq_iff_eq.mp hnewline ▸ List.getLast_mem hlast)
  have hjoin : joinLines (lines ++ List.replicate k []) = joined (lines ++ [[]]) := by
    have hblank : (joined lines ++ List.replicate k '\n').rdropWhile (· == '\n') = joined lines := by
      rw [List.rdropWhile, List.reverse_append, Fields.dropWhile_append_all]
      · exact hkept
      · intro c hc
        rw [List.eq_of_mem_replicate (List.mem_reverse.mp hc)]
        rfl
    have hone := joined_replicate hlines 1
    rw [joinLines]
    change (joined (lines ++ List.replicate k [])).rdropWhile (· == '\n') ++ ['\n'] = _
    rw [joined_replicate hlines, hblank]
    exact hone.symm
  have hfree : ∀ line ∈ lines ++ [[]], '\n' ∉ line := by
    intro line hline
    rcases List.mem_append.mp hline with hline | hline
    · exact hout line (List.mem_append_left _ hline)
    · rw [List.mem_singleton.mp hline]
      exact List.not_mem_nil
  have hsplit : (joined (lines ++ [[]])).splitOn '\n' = lines ++ [[]] :=
    List.splitOn_intercalate '\n' hfree (by simp)
  rw [hjoin]
  refine (congrArg Text.linesOf hsplit).trans ?_
  rw [text_linesOf_concat, if_pos rfl, List.append_nil]

/-! ## The readers on lines -/

theorem parseIniEntries_eq (text : Text) (name : String) :
    parseIniEntries text name = parseIniLines name.toList false (JsText.lines text) := by
  obtain ⟨k, hk⟩ := js_lines_eq text
  rw [hk, parseIniLines_blank]
  rfl

theorem parseIniEntries_joinLines (hne : out ≠ []) (hout : ∀ line ∈ out, '\n' ∉ line) :
    parseIniEntries (joinLines out) name = parseIniLines name.toList false out := by
  obtain ⟨lines, k, heq, hlines⟩ := lines_joinLines hne hout
  rw [parseIniEntries, hlines, parseIniLines_map_strip, heq, parseIniLines_blank]

/-- `embedded_section`, of the lines. -/
def embeddedIn (lines : List Text) (name : String) : Except IoError Text :=
  match embeddedBlock lines name with
  | none => .error (.new .invalidInput s!"missing [{name}]")
  | some block => readPem name (joined block)

theorem embeddedIn_tail {lines tail : List Text} (k : Nat)
    (hhead : ∀ line ∈ tail.head?, isSectionLine line = true)
    (htail : ∀ line ∈ tail, Text.trim line ≠ headerText name) :
    embeddedIn (lines ++ (List.replicate k [] ++ tail)) name = embeddedIn lines name := by
  obtain ⟨j, hj⟩ := embeddedBlock_append_tail k hhead htail
  unfold embeddedIn
  rw [hj]
  cases embeddedBlock lines name with
  | none => rfl
  | some block => exact readPem_blank j

theorem embeddedIn_blank (lines : List Text) (k : Nat) :
    embeddedIn (lines ++ List.replicate k []) name = embeddedIn lines name := by
  have h : embeddedIn (lines ++ (List.replicate k [] ++ [])) name = embeddedIn lines name :=
    embeddedIn_tail k (fun _ h => by cases h) (fun _ h => absurd h List.not_mem_nil)
  rwa [List.append_nil] at h

/-- No line within a PEM block ends with a carriage return of its own. -/
def SingleReturns (text : Text) : Prop :=
  ∀ name block pem, embeddedBlock (Text.lines text) name = some block →
    readPem name (joined block) = .ok pem →
      ∀ line ∈ block.dropLast, line.getLast? ≠ some '\r'

theorem mem_of_embeddedBlock {lines block : List Text} (h : embeddedBlock lines name = some block) :
    ∀ line ∈ block, line ∈ lines := by
  unfold embeddedBlock at h
  split at h
  · cases h
  · rename_i header rest heq
    obtain rfl := Option.some.inj h
    have hsuffix : header :: rest <:+ lines := by
      rw [← heq]
      exact List.dropWhile_suffix _
    intro line hline
    exact hsuffix.subset (List.mem_cons_of_mem _ (List.takeWhile_subset _ hline))

/-- In a file without carriage returns there is none. -/
theorem singleReturns_of_not_mem (h : '\r' ∉ text) : SingleReturns text := by
  intro name block pem hblock _ line hline hlast
  obtain ⟨k, hk⟩ := js_lines_eq text
  have hin : line ∈ JsText.lines text := by
    rw [hk]
    exact List.mem_append_left _ (mem_of_embeddedBlock hblock line (List.dropLast_subset _ hline))
  obtain ⟨piece, hpiece, hsub⟩ := exists_piece_of_line line hin
  exact h (Fields.mem_of_mem_splitOnP hpiece (hsub _ (List.mem_of_mem_getLast? hlast)))

theorem embeddedSection_eq (h : SingleReturns text) :
    embeddedSection text name =
      embeddedIn ((JsText.lines text).map Text.stripCarriageReturn) name := by
  obtain ⟨k, hk⟩ := js_lines_eq text
  rw [hk, List.map_append, List.map_replicate]
  change _ = embeddedIn (_ ++ List.replicate k []) name
  rw [embeddedIn_blank]
  unfold embeddedIn
  rw [embeddedBlock_map_strip]
  change embeddedIn (Text.lines text) name = _
  unfold embeddedIn
  cases hblock : embeddedBlock (Text.lines text) name with
  | none => rfl
  | some block => exact (readPem_map_strip fun pem => h name block pem hblock).symm

theorem embeddedSection_joinLines (hne : out ≠ []) (hout : ∀ line ∈ out, '\n' ∉ line) :
    embeddedSection (joinLines out) name =
      embeddedIn (out.map Text.stripCarriageReturn) name := by
  obtain ⟨lines, k, heq, hlines⟩ := lines_joinLines hne hout
  change embeddedIn (Text.lines (joinLines out)) name = _
  rw [hlines, heq, List.map_append, List.map_replicate]
  change _ = embeddedIn (_ ++ List.replicate k []) name
  rw [embeddedIn_blank]

end Joined

/-! ## Sections -/

/-- The lines of the section, as the console has it. -/
def sectionLines (js : Runtime) (text : Text) : List Text :=
  match sectionBounds js (JsText.lines text) "client" with
  | none => []
  | some (start, stop) => ((JsText.lines text).take stop).drop (start + 1)

/-- The lines that stay, the header among them. -/
def aroundLines (js : Runtime) (text : Text) : List Text :=
  match sectionBounds js (JsText.lines text) "client" with
  | none => JsText.lines text
  | some (start, stop) => (JsText.lines text).take (start + 1) ++ (JsText.lines text).drop stop

/-- The entries that the server reads outside of that section. -/
def aroundEntries (js : Runtime) (text : Text) : List (Text × Text) :=
  parseIniLines "client".toList false (aroundLines js text)

/-- A line that is no header for the server, and in which white space is the same
for both if it can be an entry. -/
structure PlainLine (line : Text) : Prop where
  noHeader : iniHeader line = none
  noSection : isSectionLine line = false
  spaces : '=' ∈ line → ∀ c ∈ uncommented line, c ≠ '\u0085' ∧ c ≠ '\uFEFF'

theorem plainLine_of_ascii {line : Text} (hheader : iniHeader line = none)
    (hsection : isSectionLine line = false) : (∀ c ∈ line, c.toNat < 128) → PlainLine line := by
  intro hascii
  refine ⟨hheader, hsection, fun _ c hc => ?_⟩
  have hlt := hascii c ((List.takeWhile_prefix _).subset hc)
  constructor <;> exact fun heq => absurd (heq ▸ hlt) (by decide)

/-- The console and the server agree on the section. -/
structure ReadAlike (js : Runtime) (text : Text) : Prop where
  header : ∀ start stop line, sectionBounds js (JsText.lines text) "client" = some (start, stop) →
    (JsText.lines text)[start]? = some line → Text.trim line = headerText "client"
  plain : ∀ line ∈ sectionLines js text, PlainLine line
  rewritten : ∀ client ∈ readClients js text, isSectionLine client.line = false

/-- `#writeClients`, with the lines to be written. -/
def replaceSection (js : Runtime) (text : Text) (body : List Text) : Text :=
  joinLines <|
    match sectionBounds js (JsText.lines text) "client" with
    | none => JsText.lines text ++ [[], "[client]".toList] ++ body
    | some (start, stop) =>
        (JsText.lines text).take (start + 1) ++ body ++ (JsText.lines text).drop stop

theorem writeClients_eq (js : Runtime) (text : Text) (clients : List Client) :
    writeClients js text clients = replaceSection js text (clientLines js clients) := rfl

theorem readClients_eq (js : Runtime) (text : Text) :
    readClients js text = ((sectionLines js text).filterMap parseLine).map (readClient js) := by
  unfold readClients parseSection sectionLines
  dsimp only
  cases sectionBounds js (JsText.lines text) "client" <;> rfl

section Sections

variable {js : Runtime} {text : Text} {name : String} {body : List Text}

/-- The console takes the line for the header of the section. -/
def named (js : Runtime) (name : String) (line : Text) : Bool :=
  js.toLowerCase (JsText.trim line) == '[' :: name.toList ++ [']']

/-- The console finds the first such line, and the next line that is a header. -/
theorem bounds_cut {lines : List Text} {start stop : Nat}
    (h : sectionBounds js lines name = some (start, stop)) :
    ∃ before header inside after, lines = before ++ header :: (inside ++ after) ∧
      start = before.length ∧ stop = before.length + 1 + inside.length ∧
      (∀ line ∈ before, named js name line = false) ∧ named js name header = true ∧
      (∀ line ∈ inside, isHeaderLine line = false) ∧
      ∀ line ∈ after.head?, isHeaderLine line = true := by
  unfold sectionBounds at h
  dsimp only at h
  split at h
  · cases h
  · rename_i first hfirst
    obtain ⟨hlt, hnamed, hbefore⟩ := List.findIdx?_eq_some_iff_getElem.mp hfirst
    obtain ⟨rfl, hstop⟩ := Prod.mk.inj (Option.some.inj h)
    have hle : first + 1 ≤ stop ∧ stop ≤ lines.length ∧
        (∀ line ∈ (lines.drop (first + 1)).take (stop - (first + 1)), isHeaderLine line = false) ∧
        ∀ line ∈ (lines.drop stop).head?, isHeaderLine line = true := by
      rw [← hstop]
      cases hnext : (lines.drop (first + 1)).findIdx? isHeaderLine with
      | none =>
          refine ⟨hlt, Nat.le_refl _, fun line hline => ?_, fun line hline => ?_⟩
          · exact List.findIdx?_eq_none_iff.mp hnext line (List.take_subset _ _ hline)
          · rw [Option.map_none, Option.getD_none, List.drop_length] at hline
            cases hline
      | some next =>
          obtain ⟨hnextLt, hheader, hplain⟩ := List.findIdx?_eq_some_iff_getElem.mp hnext
          rw [List.length_drop] at hnextLt
          rw [Option.map_some, Option.getD_some]
          refine ⟨by omega, by omega, fun line hline => ?_, fun line hline => ?_⟩
          · rw [Nat.add_sub_cancel_left] at hline
            obtain ⟨j, hj, rfl⟩ := List.mem_iff_getElem.mp hline
            rw [List.length_take] at hj
            rw [List.getElem_take]
            exact Bool.not_eq_true _ ▸ hplain j (by omega)
          · rw [List.head?_drop, List.getElem?_eq_getElem (by omega)] at hline
            rw [List.getElem_drop] at hheader
            rwa [← Option.some.inj hline]
    obtain ⟨hlow, hhigh, hinside, hafter⟩ := hle
    have hle : first + 1 ≤ stop ∧ stop ≤ lines.length := ⟨hlow, hhigh⟩
    refine ⟨lines.take first, lines[first], (lines.drop (first + 1)).take (stop - (first + 1)),
      lines.drop stop, ?_, ?_, ?_, fun line hline => ?_, hnamed, hinside, hafter⟩
    · have hrest := List.take_append_drop (stop - (first + 1)) (lines.drop (first + 1))
      rw [List.drop_drop, Nat.add_sub_cancel' hle.1] at hrest
      rw [hrest, List.getElem_cons_drop, List.take_append_drop]
    · rw [List.length_take, Nat.min_eq_left (Nat.le_of_lt hlt)]
    · rw [List.length_take, List.length_take, List.length_drop, Nat.min_eq_left (Nat.le_of_lt hlt),
        Nat.min_eq_left (by omega)]
      omega
    · obtain ⟨j, hj, rfl⟩ := List.mem_iff_getElem.mp hline
      rw [List.length_take] at hj
      rw [List.getElem_take]
      exact Bool.not_eq_true _ ▸ hbefore j (by omega)

/-- The header, the section, and what follows, by their places. -/
theorem take_drop_cut {α : Type} (before : List α) (header : α) (inside after : List α) :
    (before ++ header :: (inside ++ after)).take (before.length + 1) = before ++ [header] ∧
      ((before ++ header :: (inside ++ after)).take (before.length + 1 + inside.length)).drop
          (before.length + 1) = inside ∧
      (before ++ header :: (inside ++ after)).drop (before.length + 1 + inside.length) = after := by
  have hlength : (before ++ [header]).length = before.length + 1 := by
    rw [List.length_append, List.length_singleton]
  have hlength' : (before ++ [header] ++ inside).length = before.length + 1 + inside.length := by
    rw [List.length_append, hlength]
  rw [List.append_cons, ← List.append_assoc]
  refine ⟨?_, ?_, List.drop_left' hlength'⟩
  · rw [List.append_assoc (before ++ [header])]
    exact List.take_left' hlength
  · rw [List.take_left' hlength']
    exact List.drop_left' hlength

/-- Where the two agree: the parts of the file. -/
theorem bounds_parts (halike : ReadAlike js text) {start stop : Nat} :
    sectionBounds js (JsText.lines text) "client" = some (start, stop) →
    ∃ before header after,
      JsText.lines text = before ++ header :: (sectionLines js text ++ after) ∧
      aroundLines js text = before ++ header :: ([] ++ after) ∧
      (∀ body, replaceSection js text body = joinLines (before ++ header :: (body ++ after))) ∧
      Text.trim header = headerText "client" := by
  intro hbounds
  obtain ⟨before, header, inside, after, hlines, rfl, rfl, -⟩ := bounds_cut hbounds
  obtain ⟨htake, hcut, hdrop⟩ := take_drop_cut before header inside after
  rw [← hlines] at htake hcut hdrop
  have hinside : sectionLines js text = inside := by
    unfold sectionLines
    rw [hbounds]
    exact hcut
  have hheader : (JsText.lines text)[before.length]? = some header := by
    rw [hlines, List.getElem?_append_right (Nat.le_refl _), Nat.sub_self]
    rfl
  refine ⟨before, header, after, by rw [hinside, hlines], ?_, fun body => ?_,
    halike.header _ _ _ hbounds hheader⟩
  · unfold aroundLines
    rw [hbounds]
    dsimp only
    rw [htake, hdrop, List.append_assoc]
    rfl
  · unfold replaceSection
    rw [hbounds]
    dsimp only
    rw [htake, hdrop, List.append_assoc, List.append_assoc]
    rfl

theorem iniHeader_of_trim {line : Text} (h : Text.trim line = headerText "client") :
    iniHeader line = some "client".toList := by
  have hfree : '#' ∉ line := by
    rw [← Fields.mem_trim_iff (p := Text.isWhitespace) rfl]
    change '#' ∉ Text.trim line
    rw [h]
    decide
  rw [iniHeader, uncommented_eq_self hfree, h]
  rfl

/-- Lines that can be written below the header. -/
structure BodyLine (line : Text) : Prop where
  noNewline : '\n' ∉ line
  noHeader : iniHeader line = none
  noSection : isSectionLine line = false

theorem newlines_of_body {before after : List Text} {header : Text}
    (hlines : JsText.lines text = before ++ header :: (sectionLines js text ++ after))
    (hbody : ∀ line ∈ body, BodyLine line) :
    ∀ line ∈ before ++ header :: (body ++ after), '\n' ∉ line := by
  have hall : ∀ line ∈ JsText.lines text, '\n' ∉ line := newline_not_mem_lines
  rw [hlines] at hall
  intro line hline
  rcases List.mem_append.mp hline with hline | hline
  · exact hall line (List.mem_append_left _ hline)
  · rcases List.mem_cons.mp hline with rfl | hline
    · exact hall line (List.mem_append_right _ List.mem_cons_self)
    · rcases List.mem_append.mp hline with hline | hline
      · exact (hbody line hline).noNewline
      · exact hall line (List.mem_append_right _ (List.mem_cons_of_mem _
          (List.mem_append_right _ hline)))

/-- The new section that is appended where the console finds none. -/
theorem appended_newlines (hbody : ∀ line ∈ body, BodyLine line) :
    ∀ line ∈ JsText.lines text ++ [[], "[client]".toList] ++ body, '\n' ∉ line := by
  intro line hline
  rcases List.mem_append.mp hline with hline | hline
  · rcases List.mem_append.mp hline with hline | hline
    · exact newline_not_mem_lines line hline
    · rcases List.mem_pair.mp hline with rfl | rfl <;> decide
  · exact (hbody line hline).noNewline

/-- Entry by entry, in the section of a name. -/
theorem entries_rewritten (halike : ReadAlike js text) :
    ∃ before after,
      parseIniEntries text name =
        before ++ ((if "client" = name then (sectionLines js text).filterMap iniEntry else []) ++
          after) ∧
      ("client" = name → aroundEntries js text = before ++ after) ∧
      ∀ body, (∀ line ∈ body, BodyLine line) →
        parseIniEntries (replaceSection js text body) name =
          before ++ ((if "client" = name then body.filterMap iniEntry else []) ++ after) := by
  have hname : ("client".toList == name.toList) = decide ("client" = name) := by
    rw [Bool.eq_iff_iff, beq_iff_eq, decide_eq_true_eq]
    exact String.toList_inj
  cases hbounds : sectionBounds js (JsText.lines text) "client" with
  | none =>
      refine ⟨parseIniEntries text name, [], ?_, ?_, fun body hbody => ?_⟩
      · unfold sectionLines
        rw [hbounds]
        simp
      · rintro rfl
        unfold aroundEntries aroundLines
        rw [hbounds, parseIniEntries_eq, List.append_nil]
      · have hwritten : replaceSection js text body =
            joinLines (JsText.lines text ++ [[], "[client]".toList] ++ body) := by
          unfold replaceSection
          rw [hbounds]
        have hout : JsText.lines text ++ [[], "[client]".toList] ++ body =
            (JsText.lines text ++ List.replicate 1 []) ++ "[client]".toList :: (body ++ []) := by
          simp
        rw [hwritten, parseIniEntries_joinLines (by simp) (appended_newlines hbody), hout,
          parseIniLines_section (iniHeader_of_trim rfl) fun line hline => (hbody line hline).noHeader,
          parseIniLines_blank, hname, parseIniEntries_eq]
        simp only [decide_eq_true_eq]
        rfl
  | some bounds =>
      obtain ⟨start, stop⟩ := bounds
      obtain ⟨before, header, after, hlines, haround, hwritten, hheader⟩ :=
        bounds_parts halike hbounds
      have hopened := iniHeader_of_trim hheader
      have hplain : ∀ line ∈ sectionLines js text, iniHeader line = none := fun line hline =>
        (halike.plain line hline).noHeader
      refine ⟨parseIniLines name.toList false before,
        parseIniLines name.toList ("client".toList == name.toList) after, ?_, ?_, fun body hbody => ?_⟩
      · rw [parseIniEntries_eq, hlines, parseIniLines_section hopened hplain]
        simp only [hname, decide_eq_true_eq]
      · rintro rfl
        unfold aroundEntries
        rw [haround, parseIniLines_section hopened fun _ h => absurd h List.not_mem_nil,
          List.filterMap_nil, ite_self, List.nil_append]
      · rw [hwritten, parseIniEntries_joinLines (by simp) (newlines_of_body hlines hbody),
          parseIniLines_section hopened fun line hline => (hbody line hline).noHeader]
        simp only [hname, decide_eq_true_eq]

/-- The other sections have the entries that they had. -/
theorem entries_elsewhere (halike : ReadAlike js text) (hbody : ∀ line ∈ body, BodyLine line) :
    name ≠ "client" →
    parseIniEntries (replaceSection js text body) name = parseIniEntries text name := by
  intro hne
  obtain ⟨before, after, hold, -, hnew⟩ := @entries_rewritten js text name halike
  rw [hnew body hbody, hold, if_neg hne.symm, if_neg hne.symm]

/-- And the PEM blocks. -/
theorem embedded_elsewhere (halike : ReadAlike js text) (hbody : ∀ line ∈ body, BodyLine line)
    (hreturns : SingleReturns text) :
    name ≠ "client" →
    embeddedSection (replaceSection js text body) name = embeddedSection text name := by
  intro hne
  have hclient : ∀ {line : Text}, Text.trim line = headerText "client" →
      Text.trim (Text.stripCarriageReturn line) ≠ headerText name := by
    intro line hline heq
    rw [Text.trim_strip, hline] at heq
    have hnames := List.append_cancel_right (List.cons.inj heq).2
    exact hne (String.toList_inj.mp hnames).symm
  have hbody' : ∀ line ∈ body.map Text.stripCarriageReturn, isSectionLine line = false := by
    intro line hline
    obtain ⟨written, hwritten, rfl⟩ := List.mem_map.mp hline
    rw [isSectionLine_strip]
    exact (hbody written hwritten).noSection
  rw [embeddedSection_eq hreturns]
  cases hbounds : sectionBounds js (JsText.lines text) "client" with
  | none =>
      have hwritten : replaceSection js text body =
          joinLines (JsText.lines text ++ [[], "[client]".toList] ++ body) := by
        unfold replaceSection
        rw [hbounds]
      have hout : (JsText.lines text ++ [[], "[client]".toList] ++ body).map
            Text.stripCarriageReturn =
          (JsText.lines text).map Text.stripCarriageReturn ++ (List.replicate 1 [] ++
            "[client]".toList :: body.map Text.stripCarriageReturn) := by
        simp [Text.stripCarriageReturn]
      rw [hwritten, embeddedSection_joinLines (by simp) (appended_newlines hbody), hout]
      refine embeddedIn_tail 1 ?_ ?_
      · intro line hline
        obtain rfl := Option.some.inj hline
        rfl
      · intro line hline
        rcases List.mem_cons.mp hline with rfl | hline
        · exact @hclient "[client]".toList rfl
        · exact of_decide_eq_true (ne_of_not_sectionLine (hbody' line hline))
  | some bounds =>
      obtain ⟨start, stop⟩ := bounds
      obtain ⟨before, header, after, hlines, -, hwritten, hheader⟩ := bounds_parts halike hbounds
      have hplain : ∀ line ∈ (sectionLines js text).map Text.stripCarriageReturn,
          isSectionLine line = false := by
        intro line hline
        obtain ⟨read, hread, rfl⟩ := List.mem_map.mp hline
        rw [isSectionLine_strip]
        exact (halike.plain read hread).noSection
      have hopens : isSectionLine (Text.stripCarriageReturn header) = true := by
        rw [isSectionLine_strip]
        exact isSectionLine_of_header hheader
      rw [hwritten, embeddedSection_joinLines (by simp) (newlines_of_body hlines hbody), hlines,
        List.map_append, List.map_cons, List.map_append, List.map_append, List.map_cons,
        List.map_append]
      unfold embeddedIn
      rw [embeddedBlock_replace hopens (hclient hheader) hplain hbody']

end Sections

end Web

end AutobricksVpn
