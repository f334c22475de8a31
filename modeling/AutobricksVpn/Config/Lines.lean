/-
# `AutobricksVpn.Config.Lines` — the file line by line

`parse_ini_entries` goes over the lines with one bit, whether it is in the
section.  A line is a header (`iniHeader`), or an entry if it is in the section
(`iniEntry`), or nothing; so the entries of two parts of a file are those of the
first and those of the second with the bit the first part leaves behind
(`parseIniLines_append`).

The carriage return that a line may keep, and lines without text, say nothing
(`parseIniLines_map_strip`, `parseIniLines_blank`).
-/
import AutobricksVpn.Config.Clients
import AutobricksVpn.Lib.Fields

namespace AutobricksVpn

namespace Text

variable {t before after : Text} {c : Char}

theorem trim_eq (t : Text) : trim t = Fields.trim isWhitespace t := rfl

theorem splitWhitespace_eq (t : Text) : splitWhitespace t = Fields.fields isWhitespace t := rfl

theorem splitWhitespace_trim (t : Text) : splitWhitespace (trim t) = splitWhitespace t :=
  Fields.fields_trim

theorem splitOnce_some :
    splitOnce c t = some (before, after) ↔ t = before ++ c :: after ∧ c ∉ before := by
  unfold splitOnce
  constructor
  · intro h
    split at h
    · rename_i hmem
      obtain ⟨rfl, rfl⟩ := Prod.mk.inj (Option.some.inj h)
      have hdrop : t.dropWhile (· ≠ c) = c :: (t.dropWhile (· ≠ c)).tail := by
        cases hd : t.dropWhile (· ≠ c) with
        | nil =>
            have hall := List.dropWhile_eq_nil_iff.mp hd c hmem
            exact absurd rfl (of_decide_eq_true hall)
        | cons d rest =>
            have hhead := Fields.head?_dropWhile (t := t) (p := (· ≠ c)) d (by rw [hd]; rfl)
            rw [not_not.mp (of_decide_eq_false hhead)]
            rfl
      refine ⟨?_, fun hc => ?_⟩
      · rw [← hdrop, List.takeWhile_append_dropWhile]
      · exact absurd rfl (of_decide_eq_true (List.all_eq_true.mp List.all_takeWhile c hc))
    · cases h
  · rintro ⟨rfl, hc⟩
    have hbefore : ∀ a ∈ before, decide (a ≠ c) = true := fun a ha =>
      decide_eq_true fun heq => hc (heq ▸ ha)
    rw [if_pos (List.mem_append_right _ List.mem_cons_self), List.takeWhile_append_of_pos hbefore,
      List.dropWhile_append_of_pos hbefore, List.takeWhile_cons, List.dropWhile_cons,
      if_neg (by simp), if_neg (by simp), List.append_nil]
    rfl

theorem splitOnce_none : splitOnce c t = none ↔ c ∉ t := by
  unfold splitOnce
  split
  · rename_i h
    exact iff_of_false (fun heq => by cases heq) (not_not_intro h)
  · rename_i h
    exact iff_of_true rfl h

/-- The line, or the line and the carriage return. -/
theorem stripCarriageReturn_cases (line : Text) :
    stripCarriageReturn line = line ∨ line = stripCarriageReturn line ++ ['\r'] := by
  unfold stripCarriageReturn
  split
  · rename_i h
    right
    rw [List.dropLast_append_getLast? _ h]
  · exact .inl rfl

theorem trim_append_return (t : Text) : trim (t ++ ['\r']) = trim t :=
  Fields.trim_append_right fun a ha => by rw [List.mem_singleton.mp ha]; rfl

theorem trim_strip (line : Text) : trim (stripCarriageReturn line) = trim line := by
  rcases stripCarriageReturn_cases line with h | h
  · rw [h]
  · conv_rhs => rw [h]
    rw [trim_append_return]

end Text

/-! ## Lines -/

/-- What stands before the comment. -/
def uncommented (line : Text) : Text := line.takeWhile (· ≠ '#')

/-- The name in a header. -/
def iniHeader (line : Text) : Option Text := sectionHeader (Text.trim (uncommented line))

/-- The entry on a line of the section. -/
def iniEntry (line : Text) : Option (Text × Text) :=
  match iniHeader line with
  | some _ => none
  | none => (Text.splitOnce '=' (Text.trim (uncommented line))).map fun (key, value) =>
      (Text.trim key, Text.trim value)

section Lines

variable {name : Text} {active : Bool} {line : Text} {before after lines : List Text}

theorem parseIniLines_cons (rest : List Text) :
    parseIniLines name active (line :: rest) =
      (if active then (iniEntry line).toList else []) ++
        parseIniLines name (((iniHeader line).map (· == name)).getD active) rest := by
  have hline : line.takeWhile (· ≠ '#') = uncommented line := rfl
  conv_lhs => unfold parseIniLines
  rw [hline]
  unfold iniEntry iniHeader
  by_cases hblank : Text.trim (uncommented line) = []
  · rw [if_pos hblank, hblank]
    cases active <;> rfl
  · rw [if_neg hblank]
    cases hheader : sectionHeader (Text.trim (uncommented line)) with
    | some header => cases active <;> rfl
    | none =>
        cases hsplit : Text.splitOnce '=' (Text.trim (uncommented line)) with
        | none => cases active <;> rfl
        | some parts =>
            obtain ⟨key, value⟩ := parts
            cases active <;> rfl

/-- Whether the section is the one asked for, after some lines. -/
def activeAfter (name : Text) (active : Bool) (lines : List Text) : Bool :=
  lines.foldl (fun active line => ((iniHeader line).map (· == name)).getD active) active

theorem parseIniLines_append :
    parseIniLines name active (before ++ after) =
      parseIniLines name active before ++
        parseIniLines name (activeAfter name active before) after := by
  induction before generalizing active with
  | nil => rfl
  | cons line before ih =>
      rw [List.cons_append, parseIniLines_cons, parseIniLines_cons, ih, List.append_assoc]
      rfl

theorem activeAfter_of_no_header :
    (∀ line ∈ lines, iniHeader line = none) → activeAfter name active lines = active := by
  intro h
  induction lines with
  | nil => rfl
  | cons line lines ih =>
      obtain ⟨hline, hlines⟩ := List.forall_mem_cons.mp h
      rw [activeAfter, List.foldl_cons, hline]
      exact ih hlines

/-- Between two headers every line is for itself. -/
theorem parseIniLines_of_no_header :
    (∀ line ∈ lines, iniHeader line = none) →
    parseIniLines name active lines = if active then lines.filterMap iniEntry else [] := by
  intro h
  induction lines with
  | nil => cases active <;> rfl
  | cons line lines ih =>
      obtain ⟨hline, hlines⟩ := List.forall_mem_cons.mp h
      rw [parseIniLines_cons, hline, Option.map_none, Option.getD_none, ih hlines]
      cases active with
      | false => rfl
      | true =>
          rw [if_pos rfl, if_pos rfl, if_pos rfl]
          cases hentry : iniEntry line with
          | none => rw [List.filterMap_cons_none hentry]; rfl
          | some entry => rw [List.filterMap_cons_some hentry]; rfl

theorem uncommented_eq_self (h : '#' ∉ line) : uncommented line = line :=
  List.takeWhile_eq_self_iff.mpr fun _ hc => decide_eq_true fun heq => h (heq ▸ hc)

theorem iniEntry_of_header {header : Text} (h : iniHeader line = some header) :
    iniEntry line = none := by
  rw [iniEntry, h]

/-- A section, and what stands around it. -/
theorem parseIniLines_section {opened header : Text} {inside : List Text}
    (hheader : iniHeader header = some opened) (hsection : ∀ line ∈ inside, iniHeader line = none) :
    parseIniLines name active (before ++ header :: (inside ++ after)) =
      parseIniLines name active before ++
        ((if opened == name then inside.filterMap iniEntry else []) ++
          parseIniLines name (opened == name) after) := by
  rw [parseIniLines_append, parseIniLines_cons, iniEntry_of_header hheader, hheader,
    parseIniLines_append, parseIniLines_of_no_header hsection, activeAfter_of_no_header hsection]
  cases activeAfter name active before <;> rfl

/-- A carriage return is trimmed, or part of the comment. -/
theorem trim_uncommented_strip (line : Text) :
    Text.trim (uncommented (Text.stripCarriageReturn line)) = Text.trim (uncommented line) := by
  rcases Text.stripCarriageReturn_cases line with h | h
  · rw [h]
  · conv_rhs => rw [h]
    unfold uncommented
    rw [List.takeWhile_append]
    split
    · rename_i hall
      have htake : (Text.stripCarriageReturn line).takeWhile (· ≠ '#') =
          Text.stripCarriageReturn line :=
        List.takeWhile_sublist _ |>.eq_of_length hall
      rw [htake]
      exact (Text.trim_append_return _).symm
    · rfl

theorem iniHeader_strip (line : Text) :
    iniHeader (Text.stripCarriageReturn line) = iniHeader line := by
  rw [iniHeader, trim_uncommented_strip, iniHeader]

theorem iniEntry_strip (line : Text) :
    iniEntry (Text.stripCarriageReturn line) = iniEntry line := by
  rw [iniEntry, iniHeader_strip, trim_uncommented_strip, iniEntry]

theorem parseIniLines_map_strip (lines : List Text) :
    parseIniLines name active (lines.map Text.stripCarriageReturn) =
      parseIniLines name active lines := by
  induction lines generalizing active with
  | nil => rfl
  | cons line lines ih =>
      rw [List.map_cons, parseIniLines_cons, parseIniLines_cons, iniEntry_strip, iniHeader_strip, ih]

theorem parseIniLines_blank (k : Nat) :
    parseIniLines name active (lines ++ List.replicate k []) = parseIniLines name active lines := by
  have hblank : ∀ line ∈ List.replicate k ([] : Text), iniHeader line = none := fun line hline => by
    rw [List.eq_of_mem_replicate hline]
    rfl
  have hnone : (List.replicate k ([] : Text)).filterMap iniEntry = [] := by
    refine List.filterMap_eq_nil_iff.mpr fun line hline => ?_
    rw [List.eq_of_mem_replicate hline]
    rfl
  rw [parseIniLines_append, parseIniLines_of_no_header hblank, hnone, ite_self, List.append_nil]

end Lines

end AutobricksVpn
