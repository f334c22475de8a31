/-
# `AutobricksVpn.Web.Reread` — the console reads what it has written

The section of a name is what stands between the first line that the console takes
for its header and the next header (`sectionOf`).  Carriage returns and lines
without text at the end of the file are nothing to it, so a file that was written
is read line by line (`parseSection_joinLines`):

    clients:          the lines that were written          (`entriesOf_cut`)
    other sections:   as before, whatever was written       (`entriesOf_other`)

if none of those lines is a header.  A client that is read from the line written
for it (`ReadsBack`) stays what it is, however often the file is written.
-/
import AutobricksVpn.Web.SavedClient

namespace AutobricksVpn

namespace Web

open JsText (Runtime)

/-! ## Sections -/

/-- The lines between the header of the section and the next header. -/
def sectionOf (js : Runtime) (name : String) (lines : List Text) : List Text :=
  ((lines.dropWhile (!named js name ·)).tail).takeWhile (!isHeaderLine ·)

/-- `parseSection`, of the lines. -/
def entriesOf (js : Runtime) (name : String) (lines : List Text) : List (Text × Text) :=
  (sectionOf js name lines).filterMap parseLine

section Sections

variable {js : Runtime} {name other : String} {text header : Text}
  {lines before inside after out : List Text}

theorem sectionOf_of_not_named (h : ∀ line ∈ lines, named js name line = false) :
    sectionOf js name lines = [] := by
  have hall : ∀ line ∈ lines, (!named js name line) = true := fun line hline => by rw [h line hline]; rfl
  rw [sectionOf, List.dropWhile_eq_nil_iff.mpr hall]
  rfl

/-- Before the header nothing counts. -/
theorem sectionOf_append (h : ∀ line ∈ before, named js name line = false) (after : List Text) :
    sectionOf js name (before ++ after) = sectionOf js name after := by
  have hall : ∀ line ∈ before, (!named js name line) = true := fun line hline => by
    rw [h line hline]
    rfl
  rw [sectionOf, sectionOf, List.dropWhile_append_of_pos hall]

theorem sectionOf_header (h : named js name header = true) (after : List Text) :
    sectionOf js name (header :: after) = after.takeWhile (!isHeaderLine ·) := by
  rw [sectionOf, List.dropWhile_cons_of_neg (by rw [h]; decide), List.tail_cons]

theorem takeWhile_inside (hinside : ∀ line ∈ inside, isHeaderLine line = false)
    (hafter : ∀ line ∈ after.head?, isHeaderLine line = true) :
    (inside ++ after).takeWhile (!isHeaderLine ·) = inside := by
  have hall : ∀ line ∈ inside, (!isHeaderLine line) = true := fun line hline => by
    rw [hinside line hline]
    rfl
  rw [List.takeWhile_append_of_pos hall]
  cases after with
  | nil => exact List.append_nil inside
  | cons next after =>
      rw [List.takeWhile_cons_of_neg (by rw [hafter next rfl]; decide), List.append_nil]

theorem sectionOf_cut (hbefore : ∀ line ∈ before, named js name line = false)
    (hnamed : named js name header = true) (hinside : ∀ line ∈ inside, isHeaderLine line = false)
    (hafter : ∀ line ∈ after.head?, isHeaderLine line = true) :
    sectionOf js name (before ++ header :: (inside ++ after)) = inside := by
  rw [sectionOf_append hbefore, sectionOf_header hnamed, takeWhile_inside hinside hafter]

theorem exists_named (js : Runtime) (name : String) (lines : List Text) :
    (∀ line ∈ lines, named js name line = false) ∨
      ∃ before header after, lines = before ++ header :: after ∧
        (∀ line ∈ before, named js name line = false) ∧ named js name header = true := by
  induction lines with
  | nil => exact .inl fun _ h => absurd h List.not_mem_nil
  | cons line lines ih =>
      cases hnamed : named js name line with
      | true => exact .inr ⟨[], line, lines, rfl, fun _ h => absurd h List.not_mem_nil, hnamed⟩
      | false =>
          rcases ih with h | ⟨before, header, after, rfl, hbefore, hheader⟩
          · exact .inl (List.forall_mem_cons.mpr ⟨hnamed, h⟩)
          · exact .inr ⟨line :: before, header, after, rfl,
              List.forall_mem_cons.mpr ⟨hnamed, hbefore⟩, hheader⟩

theorem not_named_of_bounds (h : sectionBounds js lines name = none) :
    ∀ line ∈ lines, named js name line = false := by
  unfold sectionBounds at h
  dsimp only at h
  split at h
  · rename_i hnone
    exact List.findIdx?_eq_none_iff.mp hnone
  · cases h

theorem parseSection_eq (js : Runtime) (text : Text) (name : String) :
    parseSection js text name = entriesOf js name (JsText.lines text) := by
  unfold parseSection entriesOf
  dsimp only
  cases hbounds : sectionBounds js (JsText.lines text) name with
  | none => rw [sectionOf_of_not_named (not_named_of_bounds hbounds), List.filterMap_nil]
  | some bounds =>
      obtain ⟨start, stop⟩ := bounds
      obtain ⟨before, header, inside, after, hlines, rfl, rfl, hbefore, hnamed, hinside, hafter⟩ :=
        bounds_cut hbounds
      dsimp only
      obtain ⟨-, hcut, -⟩ := take_drop_cut before header inside after
      rw [hlines, hcut, sectionOf_cut hbefore hnamed hinside hafter]

/-! ## Carriage returns, and the end of the file -/

/-- What the expression for headers matches. -/
theorem isHeaderLine_iff {line : Text} :
    isHeaderLine line = true ↔
      ∃ inner, JsText.trim line = '[' :: inner ++ [']'] ∧ inner ≠ [] ∧ ']' ∉ inner := by
  constructor
  · intro h
    unfold isHeaderLine at h
    split at h
    · rename_i rest hrest
      split at h
      · rename_i after hafter
        obtain ⟨hne, hspace⟩ := Bool.and_eq_true_iff.mp h
        refine ⟨rest.takeWhile (· ≠ ']'), ?_, ?_, fun hmem => ?_⟩
        · have hline : line = line.takeWhile JsText.isSpace ++
              ('[' :: rest.takeWhile (· ≠ ']') ++ [']']) ++ after := by
            conv_lhs => rw [← @List.takeWhile_append_dropWhile _ JsText.isSpace line, hrest,
              ← @List.takeWhile_append_dropWhile _ (fun c => decide (c ≠ ']')) rest, hafter]
            simp
          have htrim : JsText.trim line = Fields.trim JsText.isSpace
              ('[' :: rest.takeWhile (· ≠ ']') ++ [']']) := by
            conv_lhs => rw [hline]
            exact Fields.trim_append (fun c hc => List.mem_takeWhile_imp hc)
              (List.all_eq_true.mp hspace)
          rw [htrim]
          refine Fields.trim_eq_self (fun c hc => ?_) fun c hc => ?_
          · obtain rfl := Option.some.inj hc
            rfl
          · rw [List.getLast?_append_of_ne_nil _ (List.cons_ne_nil _ _)] at hc
            obtain rfl := Option.some.inj hc
            rfl
        · exact fun hnil => by rw [hnil] at hne; cases hne
        · have hneq := List.mem_takeWhile_imp (p := fun c => decide (c ≠ ']')) hmem
          exact absurd rfl (of_decide_eq_true hneq)
      · cases h
    · cases h
  · rintro ⟨inner, htrim, hne, hmem⟩
    obtain ⟨before, after, hline, hbefore, hafter⟩ := Fields.exists_trim JsText.isSpace line
    change line = before ++ JsText.trim line ++ after at hline
    rw [htrim] at hline
    have hstart : line.dropWhile JsText.isSpace = '[' :: (inner ++ ']' :: after) := by
      rw [hline, List.append_assoc, List.dropWhile_append_of_pos hbefore]
      simp only [List.cons_append, List.append_assoc, List.nil_append]
      exact List.dropWhile_cons_of_neg (by decide)
    have hinner : ∀ c ∈ inner, decide (c ≠ ']') = true := fun c hc =>
      decide_eq_true fun heq => hmem (heq ▸ hc)
    have hdrop : (inner ++ ']' :: after).dropWhile (· ≠ ']') = ']' :: after := by
      rw [List.dropWhile_append_of_pos hinner]
      exact List.dropWhile_cons_of_neg (by decide)
    have htake : (inner ++ ']' :: after).takeWhile (· ≠ ']') = inner := by
      rw [List.takeWhile_append_of_pos hinner, List.takeWhile_cons_of_neg (by decide),
        List.append_nil]
    unfold isHeaderLine
    split
    · rename_i rest hrest
      obtain rfl := (List.cons.inj (hstart.symm.trans hrest)).2
      rw [htake]
      split
      · rename_i others hothers
        obtain rfl := (List.cons.inj (hdrop.symm.trans hothers)).2
        rw [Bool.and_eq_true, List.all_eq_true]
        exact ⟨by rw [List.isEmpty_eq_false_iff.mpr hne]; rfl, hafter⟩
      · rename_i hnone
        exact absurd hdrop (hnone after)
    · rename_i hnone
      exact absurd hstart (hnone _)

theorem js_trim_strip (line : Text) :
    JsText.trim (Text.stripCarriageReturn line) = JsText.trim line := by
  rcases Text.stripCarriageReturn_cases line with h | h
  · rw [h]
  · conv_rhs => rw [h]
    exact (Fields.trim_append_right fun c hc => by rw [List.mem_singleton.mp hc]; rfl).symm

theorem named_strip (line : Text) :
    named js name (Text.stripCarriageReturn line) = named js name line := by
  rw [named, named, js_trim_strip]

theorem parseLine_strip (line : Text) :
    parseLine (Text.stripCarriageReturn line) = parseLine line := by
  rw [parseLine, parseLine, js_trim_strip]

theorem isHeaderLine_strip (line : Text) :
    isHeaderLine (Text.stripCarriageReturn line) = isHeaderLine line := by
  rw [Bool.eq_iff_iff, isHeaderLine_iff, isHeaderLine_iff, js_trim_strip]

theorem entriesOf_map_strip (js : Runtime) (name : String) (lines : List Text) :
    entriesOf js name (lines.map Text.stripCarriageReturn) = entriesOf js name lines := by
  have hnamed : ((fun line => !named js name line) ∘ Text.stripCarriageReturn) =
      fun line => !named js name line := funext fun line => by rw [Function.comp_apply, named_strip]
  have hheader : ((fun line => !isHeaderLine line) ∘ Text.stripCarriageReturn) =
      fun line => !isHeaderLine line := funext fun line => by
    rw [Function.comp_apply, isHeaderLine_strip]
  have hparse : parseLine ∘ Text.stripCarriageReturn = parseLine := funext fun line =>
    parseLine_strip line
  rw [entriesOf, entriesOf, sectionOf, sectionOf, List.dropWhile_map, hnamed, ← List.map_tail,
    List.takeWhile_map, hheader, List.filterMap_map, hparse]

theorem named_nil : named js name [] = false := by
  have hlower : js.toLowerCase (JsText.trim []) = [] :=
    JsText.toLowerCase_ascii js fun _ h => absurd h List.not_mem_nil
  rw [named, hlower]
  rfl

theorem entriesOf_blank (js : Runtime) (name : String) (lines : List Text) (k : Nat) :
    entriesOf js name (lines ++ List.replicate k []) = entriesOf js name lines := by
  have hblank : ∀ line ∈ List.replicate k ([] : Text), named js name line = false := fun line hline => by
    rw [List.eq_of_mem_replicate hline, named_nil]
  have hparse : (List.replicate k ([] : Text)).filterMap parseLine = [] :=
    List.filterMap_eq_nil_iff.mpr fun line hline => by rw [List.eq_of_mem_replicate hline]; rfl
  unfold entriesOf
  rcases exists_named js name lines with h | ⟨before, header, after, rfl, hbefore, hheader⟩
  · rw [sectionOf_append h, sectionOf_of_not_named h, sectionOf_of_not_named hblank]
  · rw [List.append_assoc, List.cons_append, sectionOf_append hbefore, sectionOf_append hbefore,
      sectionOf_header hheader, sectionOf_header hheader, List.takeWhile_append]
    split
    · rename_i hlength
      have hall := (List.takeWhile_sublist (fun line => !isHeaderLine line)).eq_of_length hlength
      rw [hall, List.filterMap_append]
      have hstop : ((List.replicate k ([] : Text)).takeWhile (!isHeaderLine ·)).filterMap parseLine =
          [] := by
        refine List.filterMap_eq_nil_iff.mpr fun line hline => ?_
        rw [List.eq_of_mem_replicate (List.takeWhile_subset _ hline)]
        rfl
      rw [hstop, List.append_nil]
    · rfl

/-- A file that was written is read line by line. -/
theorem parseSection_joinLines (hne : out ≠ []) (hout : ∀ line ∈ out, '\n' ∉ line) :
    parseSection js (joinLines out) name = entriesOf js name out := by
  obtain ⟨lines, k, heq, hlines⟩ := lines_joinLines hne hout
  obtain ⟨j, hj⟩ := js_lines_eq (joinLines out)
  rw [parseSection_eq, hj, hlines, entriesOf_blank, entriesOf_map_strip, heq, entriesOf_blank]

/-! ## What is written -/

/-- A header that the console takes for one ends a section. -/
theorem isHeaderLine_of_named {line : Text} (hname : name.toList ≠ []) (hbracket : ']' ∉ name.toList)
    (h : named js name line = true) : isHeaderLine line = true := by
  obtain ⟨inner, hinner, hne, hmem⟩ :=
    js.toLowerCase_brackets _ name.toList hname hbracket (beq_iff_eq.mp h)
  exact isHeaderLine_iff.mpr ⟨inner, hinner, hne, hmem⟩

theorem entriesOf_cut (hbefore : ∀ line ∈ before, named js name line = false)
    (hnamed : named js name header = true) (hinside : ∀ line ∈ inside, isHeaderLine line = false)
    (hafter : ∀ line ∈ after.head?, isHeaderLine line = true) :
    entriesOf js name (before ++ header :: (inside ++ after)) = inside.filterMap parseLine := by
  rw [entriesOf, sectionOf_cut hbefore hnamed hinside hafter]

theorem takeWhile_header (hheader : isHeaderLine header = true) (before after : List Text) :
    (before ++ header :: after).takeWhile (!isHeaderLine ·) = before.takeWhile (!isHeaderLine ·) := by
  rw [List.takeWhile_append]
  split
  · rename_i hlength
    have hall := (List.takeWhile_sublist (fun line => !isHeaderLine line)).eq_of_length hlength
    rw [hall, List.takeWhile_cons_of_neg (by rw [hheader]; decide), List.append_nil]
  · rfl

/-- The lines below a header are not part of another section. -/
theorem entriesOf_other (hother : other.toList ≠ []) (hbracket : ']' ∉ other.toList)
    (hheader : isHeaderLine header = true) (hnamed : named js other header = false)
    (hinside : ∀ line ∈ inside, isHeaderLine line = false) :
    entriesOf js other (before ++ header :: (inside ++ after)) =
      entriesOf js other (before ++ header :: after) := by
  have hplain : ∀ line ∈ inside, named js other line = false := by
    intro line hline
    rw [Bool.eq_false_iff]
    intro htrue
    have hfalse := hinside line hline
    rw [isHeaderLine_of_named hother hbracket htrue] at hfalse
    cases hfalse
  unfold entriesOf
  rcases exists_named js other before with h | ⟨start, opened, rest, rfl, hstart, hopened⟩
  · have hskip : ∀ line ∈ header :: inside, named js other line = false :=
      List.forall_mem_cons.mpr ⟨hnamed, hplain⟩
    rw [sectionOf_append h, sectionOf_append h, ← List.cons_append, sectionOf_append hskip]
    change _ = (sectionOf js other ([header] ++ after)).filterMap parseLine
    rw [sectionOf_append (List.forall_mem_singleton.mpr hnamed)]
  · rw [List.append_assoc, List.append_assoc, List.cons_append, List.cons_append,
      sectionOf_append hstart, sectionOf_append hstart, sectionOf_header hopened,
      sectionOf_header hopened, takeWhile_header hheader, takeWhile_header hheader]

/-- Nor is a header at the end. -/
theorem entriesOf_end (hheader : isHeaderLine header = true) (hnamed : named js other header = false) :
    entriesOf js other (before ++ [header]) = entriesOf js other before := by
  unfold entriesOf
  rcases exists_named js other before with h | ⟨start, opened, rest, rfl, hstart, hopened⟩
  · rw [sectionOf_append h, sectionOf_of_not_named (List.forall_mem_singleton.mpr hnamed),
      sectionOf_of_not_named h]
  · rw [List.append_assoc, List.cons_append, sectionOf_append hstart, sectionOf_append hstart,
      sectionOf_header hopened, sectionOf_header hopened, takeWhile_header hheader]

end Sections

/-! ## Clients -/

/-- The client that is read from the line of a client. -/
def readBack (js : Runtime) (client : Client) : Option Client :=
  (parseLine client.line).map (readClient js)

/-- A line that can be written below the header, for the console. -/
structure Writable (client : Client) : Prop where
  noNewline : '\n' ∉ client.line
  noHeader : isHeaderLine client.line = false

section Clients

variable {js : Runtime} {text : Text} {clients : List Client}

theorem named_client : named js "client" "[client]".toList = true := by
  have hascii : "[client]".toList.all (fun c => decide (c.toNat < 128)) = true := by decide
  have hlower : js.toLowerCase (JsText.trim "[client]".toList) = "[client]".toList :=
    JsText.toLowerCase_ascii js fun c hc => of_decide_eq_true (List.all_eq_true.mp hascii c hc)
  rw [named, hlower]
  rfl

theorem named_server_of_client {line : Text} (h : named js "client" line = true) :
    named js "server" line = false := by
  rw [named, beq_eq_false_iff_ne]
  intro heq
  have hclient := beq_iff_eq.mp h
  rw [heq] at hclient
  exact absurd hclient (by decide)

theorem isHeaderLine_of_client {line : Text} (h : named js "client" line = true) :
    isHeaderLine line = true :=
  isHeaderLine_of_named (by decide) (by decide) h

theorem isHeaderLine_body (hclients : ∀ client ∈ clients, Writable client) :
    ∀ line ∈ clientLines js clients, isHeaderLine line = false := by
  intro line hline
  rcases List.mem_cons.mp hline with rfl | hline
  · decide
  · obtain ⟨client, hclient, rfl⟩ := List.mem_map.mp hline
    exact (hclients client ((List.mergeSort_perm _ _).mem_iff.mp hclient)).noHeader

theorem newline_not_mem_body (hclients : ∀ client ∈ clients, Writable client) :
    ∀ line ∈ clientLines js clients, '\n' ∉ line := by
  intro line hline
  rcases List.mem_cons.mp hline with rfl | hline
  · decide
  · obtain ⟨client, hclient, rfl⟩ := List.mem_map.mp hline
    exact (hclients client ((List.mergeSort_perm _ _).mem_iff.mp hclient)).noNewline

/-- The parts of the file that is written, where the console finds the section or
appends it. -/
theorem written_parts (js : Runtime) (text : Text) :
    ∃ before header after, named js "client" header = true ∧
      (∀ line ∈ before, named js "client" line = false) ∧
      (∀ line ∈ after.head?, isHeaderLine line = true) ∧
      (∀ line ∈ before ++ header :: after, '\n' ∉ line) ∧
      parseSection js text "server" = entriesOf js "server" (before ++ header :: after) ∧
      ∀ body, replaceSection js text body = joinLines (before ++ header :: (body ++ after)) := by
  have hnewline : ∀ line ∈ JsText.lines text, '\n' ∉ line := newline_not_mem_lines
  unfold replaceSection
  rw [parseSection_eq]
  cases hbounds : sectionBounds js (JsText.lines text) "client" with
  | none =>
      have hunnamed := not_named_of_bounds hbounds
      have hclient : named js "client" "[client]".toList = true := named_client
      refine ⟨JsText.lines text ++ List.replicate 1 [], "[client]".toList, [], named_client,
        ?_, ?_, ?_, ?_, fun body => ?_⟩
      · intro line hline
        rcases List.mem_append.mp hline with hline | hline
        · exact hunnamed line hline
        · rw [List.eq_of_mem_replicate hline, named_nil]
      · intro line hline
        cases hline
      · intro line hline
        rcases List.mem_append.mp hline with hline | hline
        · rcases List.mem_append.mp hline with hline | hline
          · exact hnewline line hline
          · rw [List.eq_of_mem_replicate hline]
            exact List.not_mem_nil
        · rw [List.mem_singleton.mp hline]
          decide
      · rw [entriesOf_end (isHeaderLine_of_client hclient) (named_server_of_client hclient),
          entriesOf_blank]
      · simp
  | some bounds =>
      obtain ⟨start, stop⟩ := bounds
      obtain ⟨before, header, inside, after, hlines, rfl, rfl, hbefore, hnamed, hinside, hafter⟩ :=
        bounds_cut hbounds
      refine ⟨before, header, after, hnamed, hbefore, hafter, fun line hline => ?_, ?_,
        fun body => ?_⟩
      · refine hnewline line ?_
        rw [hlines]
        rcases List.mem_append.mp hline with hline | hline
        · exact List.mem_append_left _ hline
        · rcases List.mem_cons.mp hline with rfl | hline
          · exact List.mem_append_right _ List.mem_cons_self
          · exact List.mem_append_right _ (List.mem_cons_of_mem _ (List.mem_append_right _ hline))
      · rw [hlines]
        exact entriesOf_other (by decide) (by decide) (isHeaderLine_of_client hnamed)
          (named_server_of_client hnamed) hinside
      · obtain ⟨htake, -, hdrop⟩ := take_drop_cut before header inside after
        rw [hlines]
        dsimp only
        rw [htake, hdrop, List.append_assoc, List.append_assoc]
        rfl

theorem parseSection_written (hclients : ∀ client ∈ clients, Writable client) :
    parseSection js (writeClients js text clients) "server" = parseSection js text "server" ∧
      parseSection js (writeClients js text clients) "client" =
        (sortClients js clients).filterMap fun client => parseLine client.line := by
  obtain ⟨before, header, after, hnamed, hbefore, hafter, hnewline, hserver, hwritten⟩ :=
    written_parts js text
  have hheader : ∀ line ∈ clientLines js clients, isHeaderLine line = false :=
    isHeaderLine_body hclients
  have hout : ∀ line ∈ before ++ header :: (clientLines js clients ++ after), '\n' ∉ line := by
    intro line hline
    rcases List.mem_append.mp hline with hline | hline
    · exact hnewline line (List.mem_append_left _ hline)
    · rcases List.mem_cons.mp hline with rfl | hline
      · exact hnewline line (List.mem_append_right _ List.mem_cons_self)
      · rcases List.mem_append.mp hline with hline | hline
        · exact newline_not_mem_body hclients line hline
        · exact hnewline line (List.mem_append_right _ (List.mem_cons_of_mem _ hline))
  rw [writeClients_eq, hwritten, parseSection_joinLines (by simp) hout,
    parseSection_joinLines (by simp) hout]
  constructor
  · rw [entriesOf_other (by decide) (by decide) (isHeaderLine_of_client hnamed)
      (named_server_of_client hnamed) hheader, hserver]
  · rw [entriesOf_cut hbefore hnamed hheader hafter, clientLines, List.filterMap_cons_none (by decide),
      List.filterMap_map]
    rfl

/-- The settings are as before. -/
theorem readServerSettings_written (hclients : ∀ client ∈ clients, Writable client) :
    readServerSettings js (writeClients js text clients) = readServerSettings js text := by
  unfold readServerSettings
  rw [(parseSection_written hclients).1]

/-- The clients are those that are read back, in another order. -/
theorem readClients_written (hclients : ∀ client ∈ clients, Writable client) :
    (readClients js (writeClients js text clients)).Perm (clients.filterMap (readBack js)) := by
  unfold readClients
  rw [(parseSection_written hclients).2, List.map_filterMap]
  exact (List.mergeSort_perm clients _).filterMap _

end Clients

/-! ## A client that was saved -/

/-- A client as it is read: what is empty is not there. -/
def Client.stored (client : Client) : Client :=
  match client.loginId with
  | none | some [] => { client with loginId := none, password := none }
  | some _ => client

section Saved

variable {js : Runtime} {input : SaveInput} {key value : Text} {c : Char}

theorem isSpace_of_toNat (hlo : 33 ≤ c.toNat) (hhi : c.toNat ≤ 126) : JsText.isSpace c = false := by
  unfold JsText.isSpace JsText.isSpaceCode
  simp only [Bool.or_eq_false_iff, Bool.and_eq_false_iff, decide_eq_false_iff_not,
    beq_eq_false_iff_ne]
  omega

theorem decodeUtf16_ne_nil {units : JsString} : units ≠ [] → JsText.decodeUtf16 units ≠ [] := by
  intro h
  match units, h with
  | [unit], _ => exact List.cons_ne_nil _ _
  | lead :: trail :: rest, _ =>
      rw [JsText.decodeUtf16]
      split
      · exact List.cons_ne_nil _ _
      · exact List.cons_ne_nil _ _

/-- The line of an address, as the console reads it. -/
theorem parseLine_address (hkey : AddressText key) (hne : value ≠ [])
    (htrim : JsText.trim value = value) :
    parseLine (key ++ " = ".toList ++ value) = some (key, value) := by
  obtain ⟨-, hequals, -, -⟩ := hkey.plain
  have hbounds := hkey.bounds
  obtain ⟨first, key', rfl⟩ := List.exists_cons_of_ne_nil hkey.1
  have hspace : ∀ c ∈ first :: key', JsText.isSpace c = false := fun c hc => by
    have := hbounds c hc
    exact isSpace_of_toNat (by omega) (by omega)
  have hlast : ∀ c ∈ value.getLast?, JsText.isSpace c = false := by
    rw [← htrim]
    exact fun c hc => Fields.getLast?_trim c hc
  have hcontent : JsText.trim (first :: key' ++ " = ".toList ++ value) =
      first :: key' ++ " = ".toList ++ value := by
    refine Fields.trim_eq_self (fun c hc => ?_) fun c hc => ?_
    · obtain rfl := Option.some.inj hc
      exact hspace _ List.mem_cons_self
    · rw [List.getLast?_append_of_ne_nil _ hne] at hc
      exact hlast c hc
  have hmark : ∀ d : Char, 57 < d.toNat ∨ d.toNat < 46 → first ≠ d := by
    rintro d hd rfl
    have := hbounds first List.mem_cons_self
    omega
  have hsplit : Text.splitOnce '=' (first :: key' ++ " = ".toList ++ value) =
      some (first :: key' ++ [' '], ' ' :: value) := by
    refine Text.splitOnce_some.mpr ⟨by simp, fun hmem => ?_⟩
    rcases List.mem_append.mp hmem with hmem | hmem
    · exact hequals hmem
    · exact absurd hmem (by decide)
  have hblank : ∀ c ∈ [' '], JsText.isSpace c = true := fun c hc => by
    rw [List.mem_singleton.mp hc]
    rfl
  have hleft : JsText.trim (first :: key' ++ [' ']) = first :: key' := by
    rw [JsText.trim, Fields.trim_append_right hblank]
    refine Fields.trim_eq_self (fun c hc => ?_) fun c hc => ?_
    · exact hspace c (List.mem_of_mem_head? hc)
    · exact hspace c (List.mem_of_mem_getLast? hc)
  have hright : JsText.trim (' ' :: value) = value :=
    (Fields.trim_append_left hblank).trans htrim
  have hcounts : ¬ (first :: key' ++ " = ".toList ++ value = [] ∨
      (first :: key' ++ " = ".toList ++ value).head? = some '#' ∨
      (first :: key' ++ " = ".toList ++ value).head? = some ';') := by
    rintro (hnil | hhash | hsemicolon)
    · cases hnil
    · exact hmark '#' (.inr (by decide)) (Option.some.inj hhash)
    · exact hmark ';' (.inl (by decide)) (Option.some.inj hsemicolon)
  rw [parseLine, hcontent, if_neg hcounts, hsplit, Option.map_some]
  dsimp only
  rw [hleft, hright]

/-- The words of the value, as the console reads it. -/
theorem splitSpaces_client (h : Checked js input) :
    JsText.trim (input.client js).value = (input.client js).value ∧
      JsText.splitSpaces (input.client js).value =
        input.digits js ::
          if input.login = [] then [] else [input.login, JsText.decodeUtf16 input.secret] := by
  have hdigits : ∀ c ∈ input.digits js, JsText.isSpace c = false := fun c hc => by
    have := isHexDigit_toNat (isHexDigit_of_lower (h.digits c hc)).1
    exact isSpace_of_toNat (by omega) (by omega)
  have hdigitsNe : input.digits js ≠ [] := by
    intro hnil
    have hlength := h.length
    rw [hnil] at hlength
    cases hlength
  -- The value begins and ends with a word, so nothing is trimmed.
  have hwords : ∀ {words : List Text}, (input.client js).value ≠ [] →
      (∀ c ∈ (input.client js).value.head?, JsText.isSpace c = false) →
      (∀ c ∈ (input.client js).value.getLast?, JsText.isSpace c = false) →
      Fields.fields JsText.isSpace (input.client js).value = words →
      JsText.trim (input.client js).value = (input.client js).value ∧
        JsText.splitSpaces (input.client js).value = words := by
    intro words hne hhead hlast hfields
    exact ⟨Fields.trim_eq_self hhead hlast, (splitSpaces_eq hne hhead hlast).trans hfields⟩
  cases hlogin : input.login with
  | nil =>
      have hvalue : (input.client js).value = input.digits js := by
        rw [Client.value, SaveInput.client, hlogin]
      rw [hvalue] at hwords ⊢
      rw [if_pos rfl]
      exact hwords hdigitsNe (fun c hc => hdigits c (List.mem_of_mem_head? hc))
        (fun c hc => hdigits c (List.mem_of_mem_getLast? hc))
        (Fields.fields_of_all_not hdigitsNe hdigits)
  | cons c rest =>
      have hne : input.login ≠ [] := by
        rw [hlogin]
        exact List.cons_ne_nil c rest
      have hsecret : input.secret ≠ [] := fun hnil => hne (h.together.mpr hnil)
      have hpassword := (password_plain (h.secret hsecret)).2
      have hid : ∀ d ∈ c :: rest, JsText.isSpace d = false := fun d hd => by
        have := (loginId_bounds (h.login hne)).2.2 d (hlogin ▸ hd)
        exact isSpace_of_toNat (by omega) (by omega)
      have hvalue : (input.client js).value = input.digits js ++ ' ' ::
          (c :: rest ++ ' ' :: JsText.decodeUtf16 input.secret) := by
        rw [Client.value, SaveInput.client, hlogin]
        exact List.append_assoc _ _ _
      have hsecretNe := decodeUtf16_ne_nil hsecret
      rw [hvalue] at hwords ⊢
      rw [if_neg (List.cons_ne_nil c rest)]
      refine hwords (by simp) (fun d hd => ?_) (fun d hd => ?_) ?_
      · rw [List.head?_append_of_ne_nil _ hdigitsNe] at hd
        exact hdigits d (List.mem_of_mem_head? hd)
      · have hlast : (input.digits js ++ ' ' :: (c :: rest ++ ' ' ::
            JsText.decodeUtf16 input.secret)).getLast? =
            (JsText.decodeUtf16 input.secret).getLast? := by
          have hassoc : input.digits js ++ ' ' :: (c :: rest ++ ' ' ::
              JsText.decodeUtf16 input.secret) = (input.digits js ++ ' ' :: (c :: rest ++ [' '])) ++
              JsText.decodeUtf16 input.secret := by simp
          rw [hassoc, List.getLast?_append_of_ne_nil _ hsecretNe]
        rw [hlast] at hd
        exact hpassword d (List.mem_of_mem_getLast? hd)
      · rw [Fields.fields_word_append hdigitsNe rfl hdigits,
          Fields.fields_word_append (List.cons_ne_nil c rest) rfl hid,
          Fields.fields_of_all_not hsecretNe hpassword]

/-- A client that was saved is read back. -/
theorem readBack_client (h : Checked js input) :
    readBack js (input.client js) = some (input.client js).stored := by
  obtain ⟨address, hnumber⟩ := h.address
  obtain ⟨htrim, hsplit⟩ := splitSpaces_client h
  obtain ⟨hfingerprint, hlower⟩ := h.isFingerprint
  have hvalueNe : (input.client js).value ≠ [] := by
    intro hnil
    rw [hnil] at hsplit
    have hlength := h.length
    rw [← (List.cons.inj hsplit).1] at hlength
    cases hlength
  have hparse : parseLine (input.client js).line = some (input.vpnAddress, (input.client js).value) :=
    parseLine_address (addressText_of_number hnumber) hvalueNe htrim
  rw [readBack, hparse, Option.map_some, readClient]
  dsimp only
  rw [hsplit, List.headD_cons, normalized_eq js hfingerprint, hlower]
  cases hlogin : input.login with
  | nil =>
      rw [if_pos rfl, Client.stored, SaveInput.client, hlogin]
      rfl
  | cons c rest =>
      rw [if_neg (List.cons_ne_nil c rest), Client.stored, SaveInput.client, hlogin]
      rfl

theorem stored_line (client : Client) : client.stored.line = client.line := by
  unfold Client.stored
  split
  · rename_i hnone
    rw [Client.line, Client.line, Client.value, Client.value, hnone]
  · rename_i hempty
    rw [Client.line, Client.line, Client.value, Client.value, hempty]
  · rfl

theorem stored_vpnAddress (client : Client) : client.stored.vpnAddress = client.vpnAddress := by
  unfold Client.stored
  split <;> rfl

theorem stored_fingerprint (client : Client) : client.stored.fingerprint = client.fingerprint := by
  unfold Client.stored
  split <;> rfl

/-- The line is no header for the console either. -/
theorem writable_client (h : Checked js input) : Writable (input.client js) := by
  obtain ⟨address, hnumber⟩ := h.address
  have hkey := addressText_of_number hnumber
  refine ⟨(entry_client h).1.noNewline, Bool.eq_false_iff.mpr fun hheader => ?_⟩
  obtain ⟨inner, htrim, -, -⟩ := isHeaderLine_iff.mp hheader
  obtain ⟨before, after, hline, hbefore, -⟩ :=
    Fields.exists_trim JsText.isSpace (input.client js).line
  change _ = before ++ JsText.trim (input.client js).line ++ after at hline
  rw [htrim] at hline
  -- The first character is a digit, so neither a space nor a bracket.
  obtain ⟨first, key', heq⟩ := List.exists_cons_of_ne_nil hkey.1
  have hstarts : ∃ rest, (input.client js).line = first :: rest := by
    refine ⟨key' ++ " = ".toList ++ (input.client js).value, ?_⟩
    rw [Client.line, SaveInput.client, heq]
    rfl
  obtain ⟨rest, hstarts⟩ := hstarts
  have hbounds := hkey.bounds first (by rw [heq]; exact List.mem_cons_self)
  rw [hstarts] at hline
  cases before with
  | nil =>
      obtain rfl := (List.cons.inj hline).1
      exact absurd hbounds (by decide)
  | cons space before =>
      obtain rfl := (List.cons.inj hline).1
      have hspace := hbefore first List.mem_cons_self
      rw [isSpace_of_toNat (by omega) (by omega)] at hspace
      cases hspace

end Saved

end Web

end AutobricksVpn
