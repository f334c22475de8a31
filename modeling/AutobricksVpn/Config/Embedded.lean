/-
# `AutobricksVpn.Config.Embedded` — PEM blocks in the file

`embedded_section` of `src/client/mod.rs`: the lines below the first header of a
name, up to the next header, are a PEM block.  Here a header is a line of its
own, comments are not cut off, and the lines are kept as they are.

What stands in another section does not matter, if it has no header in it
(`embeddedBlock_replace`); nor do line ends at the end of a block
(`readPem_append`).
-/
import AutobricksVpn.Config.Lines
import Mathlib.Data.List.Infix

namespace AutobricksVpn

/-- `starts_with('[') && ends_with(']')`. -/
def isSectionLine (line : Text) : Bool := (sectionHeader (Text.trim line)).isSome

def headerText (name : String) : Text := '[' :: name.toList ++ [']']

/-- The lines of the block. -/
def embeddedBlock (lines : List Text) (name : String) : Option (List Text) :=
  match lines.dropWhile fun line => Text.trim line ≠ headerText name with
  | [] => none
  | _ :: rest => some (rest.takeWhile fun line => !isSectionLine line)

def readPem (name : String) (pem : Text) : Except IoError Text :=
  if ¬ "-----BEGIN ".toList <:+: pem ∨ ¬ "-----END ".toList <:+: pem then
    .error (.new .invalidInput s!"invalid [{name}] PEM")
  else .ok (Text.trim pem ++ ['\n'])

/-- `lines.join("\n")`. -/
def joined (lines : List Text) : Text := ['\n'].intercalate lines

def embeddedSection (text : Text) (name : String) : Except IoError Text :=
  match embeddedBlock (Text.lines text) name with
  | none => .error (.new .invalidInput s!"missing [{name}]")
  | some block => readPem name (joined block)

/-! ## Line ends -/

section LineEnds

variable {name : String} {t after pattern a b : Text} {lines block : List Text}

theorem infix_append_iff {pattern : Text} {last : Char} (h : last ∉ after) :
    pattern ++ [last] <:+: t ++ after ↔ pattern ++ [last] <:+: t := by
  constructor
  · rintro ⟨start, stop, heq⟩
    rcases List.append_eq_append_iff.mp heq with ⟨rest, ht, -⟩ | ⟨rest, hstart, hafter⟩
    · exact ⟨start, rest, ht.symm⟩
    · -- The pattern would end among the line ends.
      rcases List.eq_nil_or_concat rest with rfl | ⟨init, a, rfl⟩
      · rw [List.append_nil] at hstart
        exact ⟨start, [], by rw [List.append_nil, hstart]⟩
      · have hlast := congrArg List.getLast? hstart
        rw [List.concat_eq_append, ← List.append_assoc, ← List.append_assoc, List.getLast?_concat,
          List.getLast?_concat] at hlast
        refine absurd ?_ h
        rw [hafter, Option.some.inj hlast, List.concat_eq_append]
        exact List.mem_append_left _ (List.mem_append_right _ (List.mem_singleton.mpr rfl))
  · rintro ⟨start, stop, rfl⟩
    exact ⟨start, stop ++ after, (List.append_assoc _ _ _).symm⟩

theorem readPem_append (h : ∀ c ∈ after, c = '\n' ∨ c = '\r') :
    readPem name (t ++ after) = readPem name t := by
  have hspace : ' ' ∉ after := fun hmem => by
    rcases h _ hmem with heq | heq <;> cases heq
  have hwhite : ∀ c ∈ after, Text.isWhitespace c = true := fun c hc => by
    rcases h c hc with rfl | rfl <;> rfl
  have htrim : Text.trim (t ++ after) = Text.trim t :=
    Fields.trim_append_right hwhite
  have hbegin : "-----BEGIN ".toList = "-----BEGIN".toList ++ [' '] := rfl
  have hend : "-----END ".toList = "-----END".toList ++ [' '] := rfl
  unfold readPem
  rw [htrim, hbegin, hend]
  simp only [infix_append_iff hspace]

theorem joined_concat (lines : List Text) (line : Text) :
    ∃ start, ∀ rest : Text, joined (lines ++ [line ++ rest]) = start ++ line ++ rest := by
  induction lines with
  | nil => exact ⟨[], fun _ => List.intercalate_singleton⟩
  | cons first lines ih =>
      obtain ⟨start, h⟩ := ih
      refine ⟨first ++ '\n' :: start, fun rest => ?_⟩
      have hne : lines ++ [line ++ rest] ≠ [] := by simp
      rw [List.cons_append, joined, List.intercalate_cons_of_ne_nil hne]
      change first ++ ['\n'] ++ joined (lines ++ [line ++ rest]) = _
      rw [h]
      simp

theorem joined_concat_nil {lines : List Text} (hne : lines ≠ []) :
    joined (lines ++ [[]]) = joined lines ++ ['\n'] := by
  induction lines with
  | nil => exact absurd rfl hne
  | cons first lines ih =>
      cases lines with
      | nil => simp [joined]
      | cons second lines =>
          have hrest := ih (by simp)
          rw [List.cons_append, List.cons_append, joined, List.intercalate_cons_cons, joined,
            List.intercalate_cons_cons, List.append_assoc, List.append_assoc, List.append_assoc]
          exact congrArg (fun rest => first ++ (['\n'] ++ rest)) hrest

theorem joined_replicate {lines : List Text} (hne : lines ≠ []) (k : Nat) :
    joined (lines ++ List.replicate k []) = joined lines ++ List.replicate k '\n' := by
  induction k with
  | zero => simp
  | succ k ih =>
      rw [List.replicate_succ', ← List.append_assoc, joined_concat_nil (by simp [hne]), ih,
        List.replicate_succ', List.append_assoc]

theorem joined_blank (lines : List Text) (k : Nat) :
    ∃ m, joined (lines ++ List.replicate k []) = joined lines ++ List.replicate m '\n' := by
  by_cases hne : lines = []
  · subst hne
    cases k with
    | zero => exact ⟨0, rfl⟩
    | succ k => exact ⟨k, joined_replicate (List.cons_ne_nil [] []) k⟩
  · exact ⟨k, joined_replicate hne k⟩

theorem readPem_blank (k : Nat) :
    readPem name (joined (block ++ List.replicate k [])) = readPem name (joined block) := by
  obtain ⟨m, hm⟩ := joined_blank block k
  rw [hm]
  exact readPem_append fun c hc => .inl (List.eq_of_mem_replicate hc)

theorem joined_cons {line : Text} {lines : List Text} (h : lines ≠ []) :
    joined (line :: lines) = line ++ '\n' :: joined lines := by
  rw [joined, List.intercalate_cons_of_ne_nil h, List.append_assoc, List.singleton_append, joined]

theorem joined_singleton (line : Text) : joined [line] = line := List.intercalate_singleton

theorem infix_of_append_cons {c : Char} (hc : c ∉ pattern) (hne : pattern ≠ []) :
    pattern <:+: a ++ c :: b → pattern <:+: a ∨ pattern <:+: b := by
  induction a with
  | nil =>
      intro h
      rcases List.infix_cons_iff.mp h with hprefix | hinfix
      · obtain ⟨x, rest, rfl⟩ := List.exists_cons_of_ne_nil hne
        exact absurd (List.cons_prefix_cons.mp hprefix).1.symm fun heq =>
          hc (heq ▸ List.mem_cons_self)
      · exact .inr hinfix
  | cons x a ih =>
      intro h
      rcases List.infix_cons_iff.mp h with hprefix | hinfix
      · left
        by_cases hlength : pattern.length ≤ (x :: a).length
        · exact (List.prefix_of_prefix_length_le hprefix
            (List.prefix_append (x :: a) (c :: b)) hlength).isInfix
        · -- otherwise the mark is in the pattern
          have hmark : (x :: a) ++ [c] <+: pattern := by
            have hwhole : (x :: a) ++ [c] <+: x :: a ++ c :: b :=
              ⟨b, by rw [List.append_assoc, List.singleton_append]⟩
            refine List.prefix_of_prefix_length_le hwhole hprefix ?_
            rw [List.length_append, List.length_singleton]
            omega
          exact absurd (hmark.subset (List.mem_append_right _ (List.mem_singleton_self c))) hc
      · rcases ih hinfix with h | h
        · exact .inl (List.infix_cons h)
        · exact .inr h

theorem infix_joined (hnewline : '\n' ∉ pattern) (hne : pattern ≠ []) {lines : List Text} :
    pattern <:+: joined lines ↔ ∃ line ∈ lines, pattern <:+: line := by
  induction lines with
  | nil =>
      constructor
      · exact fun h => absurd (List.infix_nil.mp h) hne
      · rintro ⟨line, hline, -⟩
        cases hline
  | cons line lines ih =>
      by_cases hlines : lines = []
      · subst hlines
        rw [joined_singleton]
        constructor
        · exact fun h => ⟨line, List.mem_singleton_self line, h⟩
        · rintro ⟨line', hline, h⟩
          rwa [List.mem_singleton.mp hline] at h
      · rw [joined_cons hlines, List.exists_mem_cons_iff, ← ih]
        constructor
        · exact infix_of_append_cons hnewline hne
        · rintro (h | h)
          · exact h.trans (List.prefix_append _ _).isInfix
          · exact h.trans ((List.suffix_cons _ _).trans (List.suffix_append _ _)).isInfix

/-- A marker ends with a blank, so a carriage return is not part of it. -/
theorem infix_strip_iff {line : Text} :
    pattern ++ [' '] <:+: Text.stripCarriageReturn line ↔ pattern ++ [' '] <:+: line := by
  rcases Text.stripCarriageReturn_cases line with hline | hline
  · rw [hline]
  · conv_rhs => rw [hline]
    exact (infix_append_iff (by decide)).symm

theorem infix_joined_strip (hnewline : '\n' ∉ pattern) :
    pattern ++ [' '] <:+: joined (block.map Text.stripCarriageReturn) ↔
      pattern ++ [' '] <:+: joined block := by
  have hnewline' : '\n' ∉ pattern ++ [' '] := by
    rw [List.mem_append, not_or]
    exact ⟨hnewline, by decide⟩
  have hne : pattern ++ [' '] ≠ [] := List.append_ne_nil_of_right_ne_nil _ (List.cons_ne_nil _ _)
  rw [infix_joined hnewline' hne, infix_joined hnewline' hne]
  constructor
  · rintro ⟨_, hline, h⟩
    obtain ⟨line, hmem, rfl⟩ := List.mem_map.mp hline
    exact ⟨line, hmem, infix_strip_iff.mp h⟩
  · rintro ⟨line, hmem, h⟩
    exact ⟨_, List.mem_map_of_mem hmem, infix_strip_iff.mpr h⟩

/-- A carriage return counts inside a block only. -/
theorem readPem_strip_inside (h : ∀ line ∈ block.dropLast, line.getLast? ≠ some '\r') :
    readPem name (joined (block.map Text.stripCarriageReturn)) = readPem name (joined block) := by
  rcases List.eq_nil_or_concat block with rfl | ⟨init, last, rfl⟩
  · rfl
  · rw [List.concat_eq_append] at h ⊢
    rw [List.dropLast_concat] at h
    have hinit : init.map Text.stripCarriageReturn = init := by
      refine (List.map_congr_left fun line hline => ?_).trans (List.map_id _)
      exact if_neg (h line hline)
    rw [List.map_append, hinit, List.map_singleton]
    rcases Text.stripCarriageReturn_cases last with hlast | hlast
    · rw [hlast]
    · obtain ⟨start, hstart⟩ := joined_concat init (Text.stripCarriageReturn last)
      have hwith := hstart ['\r']
      have hwithout := hstart []
      rw [← hlast] at hwith
      rw [List.append_nil] at hwithout
      rw [hwith, hwithout, List.append_nil]
      exact (readPem_append fun c hc => .inr (List.mem_singleton.mp hc)).symm

/-- And only inside one that has the markers. -/
theorem readPem_map_strip (h : ∀ pem, readPem name (joined block) = .ok pem →
    ∀ line ∈ block.dropLast, line.getLast? ≠ some '\r') :
    readPem name (joined (block.map Text.stripCarriageReturn)) = readPem name (joined block) := by
  by_cases hmarkers : ¬ "-----BEGIN ".toList <:+: joined block ∨ ¬ "-----END ".toList <:+: joined block
  · have hbegin : "-----BEGIN ".toList <:+: joined (block.map Text.stripCarriageReturn) ↔
        "-----BEGIN ".toList <:+: joined block :=
      @infix_joined_strip "-----BEGIN".toList block (by decide)
    have hend : "-----END ".toList <:+: joined (block.map Text.stripCarriageReturn) ↔
        "-----END ".toList <:+: joined block :=
      @infix_joined_strip "-----END".toList block (by decide)
    have hmarkers' := hmarkers
    rw [← hbegin, ← hend] at hmarkers'
    unfold readPem
    rw [if_pos hmarkers, if_pos hmarkers']
  · exact readPem_strip_inside (h _ (if_neg hmarkers))

end LineEnds

/-! ## Other sections -/

section Blocks

variable {name : String} {header : Text} {before old new after lines tail : List Text}

theorem isSectionLine_of_header {line : Text} (h : Text.trim line = headerText name) :
    isSectionLine line = true := by
  unfold isSectionLine
  rw [h]
  have hlast : (headerText name).getLast? = some ']' := List.getLast?_concat
  rw [sectionHeader, if_pos ⟨rfl, hlast⟩]
  rfl

/-- A line that is no header is not that of the name. -/
theorem ne_of_not_sectionLine {line : Text} (h : isSectionLine line = false) :
    decide (Text.trim line ≠ headerText name) = true := by
  refine decide_eq_true fun heq => ?_
  rw [isSectionLine_of_header heq] at h
  cases h

/-- Lines without a header are passed over. -/
theorem embeddedBlock_append (h : ∀ line ∈ lines, isSectionLine line = false) :
    embeddedBlock (lines ++ after) name = embeddedBlock after name := by
  unfold embeddedBlock
  rw [Fields.dropWhile_append_all fun line hline => ne_of_not_sectionLine (h line hline)]

theorem embeddedBlock_cons_ne (h : Text.trim header ≠ headerText name) :
    embeddedBlock (header :: lines) name = embeddedBlock lines name := by
  unfold embeddedBlock
  rw [List.dropWhile_cons, if_pos (decide_eq_true h)]

theorem embeddedBlock_cons_eq (h : Text.trim header = headerText name) :
    embeddedBlock (header :: lines) name =
      some (lines.takeWhile fun line => !isSectionLine line) := by
  unfold embeddedBlock
  rw [List.dropWhile_cons, if_neg (by simpa using h)]

/-- A header ends what stands before it. -/
theorem takeWhile_append_header (h : isSectionLine header = true) (rest : List Text) :
    (before ++ header :: rest).takeWhile (fun line => !isSectionLine line) =
      before.takeWhile fun line => !isSectionLine line := by
  induction before with
  | nil => rw [List.nil_append, List.takeWhile_cons, h]; rfl
  | cons line before ih =>
      rw [List.cons_append, List.takeWhile_cons, List.takeWhile_cons, ih]

theorem embeddedBlock_replace (hsection : isSectionLine header = true)
    (hother : Text.trim header ≠ headerText name) (hold : ∀ line ∈ old, isSectionLine line = false)
    (hnew : ∀ line ∈ new, isSectionLine line = false) :
    embeddedBlock (before ++ header :: (new ++ after)) name =
      embeddedBlock (before ++ header :: (old ++ after)) name := by
  induction before with
  | nil =>
      rw [List.nil_append, List.nil_append, embeddedBlock_cons_ne hother,
        embeddedBlock_cons_ne hother, embeddedBlock_append hold, embeddedBlock_append hnew]
  | cons line before ih =>
      rw [List.cons_append, List.cons_append]
      by_cases hline : Text.trim line = headerText name
      · rw [embeddedBlock_cons_eq hline, embeddedBlock_cons_eq hline,
          takeWhile_append_header hsection, takeWhile_append_header hsection]
      · rw [embeddedBlock_cons_ne hline, embeddedBlock_cons_ne hline, ih]

/-- A tail that opens other sections adds blank lines at most. -/
theorem embeddedBlock_append_tail (k : Nat) (hhead : ∀ line ∈ tail.head?, isSectionLine line = true)
    (htail : ∀ line ∈ tail, Text.trim line ≠ headerText name) :
    ∃ j, embeddedBlock (lines ++ (List.replicate k [] ++ tail)) name =
      (embeddedBlock lines name).map (· ++ List.replicate j []) := by
  have hblank : ∀ line ∈ List.replicate k ([] : Text), isSectionLine line = false :=
    fun line hline => by rw [List.eq_of_mem_replicate hline]; rfl
  induction lines with
  | nil =>
      refine ⟨0, ?_⟩
      rw [List.nil_append, embeddedBlock_append hblank]
      unfold embeddedBlock
      rw [List.dropWhile_eq_nil_iff.mpr fun line hline => decide_eq_true (htail line hline)]
      rfl
  | cons line lines ih =>
      rw [List.cons_append]
      by_cases hline : Text.trim line = headerText name
      · rw [embeddedBlock_cons_eq hline, embeddedBlock_cons_eq hline]
        have htake : (List.replicate k [] ++ tail).takeWhile (fun line => !isSectionLine line) =
            List.replicate k [] := by
          rw [List.takeWhile_append_of_pos fun line hline => by rw [hblank line hline]; rfl]
          cases tail with
          | nil => exact List.append_nil _
          | cons first rest =>
              rw [List.takeWhile_cons, hhead first rfl]
              exact List.append_nil _
        rw [List.takeWhile_append, htake]
        split
        · rename_i hall
          rw [(List.takeWhile_sublist _).eq_of_length hall]
          exact ⟨k, rfl⟩
        · exact ⟨0, by rw [List.replicate_zero, Option.map_some, List.append_nil]⟩
      · obtain ⟨j, hj⟩ := ih
        exact ⟨j, by rw [embeddedBlock_cons_ne hline, embeddedBlock_cons_ne hline, hj]⟩

theorem isSectionLine_strip (line : Text) :
    isSectionLine (Text.stripCarriageReturn line) = isSectionLine line := by
  rw [isSectionLine, Text.trim_strip, isSectionLine]

theorem embeddedBlock_map_strip (lines : List Text) :
    embeddedBlock (lines.map Text.stripCarriageReturn) name =
      (embeddedBlock lines name).map (·.map Text.stripCarriageReturn) := by
  induction lines with
  | nil => rfl
  | cons line lines ih =>
      rw [List.map_cons]
      by_cases hline : Text.trim line = headerText name
      · rw [embeddedBlock_cons_eq hline, embeddedBlock_cons_eq ((Text.trim_strip line).trans hline),
          List.takeWhile_map, Option.map_some]
        refine congrArg (fun l : List Text => some (l.map Text.stripCarriageReturn)) ?_
        exact Fields.takeWhile_congr fun l _ => congrArg (!·) (isSectionLine_strip l)
      · have hstrip : Text.trim (Text.stripCarriageReturn line) ≠ headerText name := by
          rw [Text.trim_strip]
          exact hline
        rw [embeddedBlock_cons_ne hline, embeddedBlock_cons_ne hstrip, ih]

end Blocks

end AutobricksVpn
