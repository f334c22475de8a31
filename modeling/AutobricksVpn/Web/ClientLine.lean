/-
# `AutobricksVpn.Web.ClientLine` — one line of the `[client]` section

The console takes a line apart, and writes it anew.  What the server reads then
is what it read before: the key, the fingerprint in lower case and without
colons, and the login (`entry_of_readClient`).

A comment makes no difference.  The console does not know of comments behind an
entry, so their first words may become parts of a client; but they keep the `#`,
and the server breaks off there as before.
-/
import AutobricksVpn.Config.Bindings
import AutobricksVpn.Web.ClientAddress
import AutobricksVpn.Web.Rewrite

namespace AutobricksVpn

namespace Web

open JsText (Runtime)

open Fields (fields cut)

/-! ## Comments -/

section Comments

variable {a b line t : Text}

theorem hash_not_mem_uncommented : '#' ∉ uncommented t := fun h => by
  have hne := List.mem_takeWhile_imp (p := fun c => decide (c ≠ '#')) h
  exact absurd rfl (of_decide_eq_true hne)

theorem uncommented_append_of_mem (h : '#' ∈ a) (b : Text) :
    uncommented (a ++ b) = uncommented a := by
  unfold uncommented
  rw [List.takeWhile_append, if_neg]
  intro hlength
  have heq := (List.takeWhile_sublist (fun x => decide (x ≠ '#'))).eq_of_length hlength
  rw [← heq] at h
  exact hash_not_mem_uncommented h

theorem uncommented_append (h : '#' ∉ a) (b : Text) :
    uncommented (a ++ b) = a ++ uncommented b :=
  List.takeWhile_append_of_pos fun _ hc => decide_eq_true fun heq => h (heq ▸ hc)

theorem mem_of_mem_uncommented {c : Char} (h : c ∈ uncommented t) : c ∈ t :=
  List.takeWhile_subset _ h

/-- White space is the same for both. -/
def SameSpaces (t : Text) : Prop := ∀ c ∈ t, c ≠ '\u0085' ∧ c ≠ '\uFEFF'

theorem isSpace_of_sameSpaces (h : SameSpaces t) :
    ∀ c ∈ t, JsText.isSpace c = Text.isWhitespace c :=
  fun c hc => JsText.isSpace_eq (h c hc).1 (h c hc).2

theorem trim_eq_of_sameSpaces (h : SameSpaces t) : JsText.trim t = Text.trim t :=
  Fields.trim_congr (isSpace_of_sameSpaces h)

theorem isSpace_hash : JsText.isSpace '#' = false := rfl

/-- What the console trims is nothing to the server. -/
theorem trim_uncommented_trim (h : SameSpaces (uncommented line)) :
    Text.trim (uncommented (JsText.trim line)) = Text.trim (uncommented line) ∧
      SameSpaces (uncommented (JsText.trim line)) := by
  obtain ⟨before, after, heq, hbefore, hafter⟩ := Fields.exists_trim JsText.isSpace line
  change line = before ++ JsText.trim line ++ after at heq
  have hfree : ∀ {l : Text}, (∀ c ∈ l, JsText.isSpace c = true) → '#' ∉ l := fun hl hmem => by
    have := hl _ hmem
    cases this
  have hwhite : ∀ {l : Text}, (∀ c ∈ l, JsText.isSpace c = true) →
      (∀ c ∈ l, c ∈ uncommented line) → ∀ c ∈ l, Text.isWhitespace c = true := by
    intro l hl hin c hc
    rw [← isSpace_of_sameSpaces h c (hin c hc)]
    exact hl c hc
  have hline : uncommented line = before ++ uncommented (JsText.trim line ++ after) := by
    conv_lhs => rw [heq]
    rw [List.append_assoc, uncommented_append (hfree hbefore)]
  have hinBefore : ∀ c ∈ before, c ∈ uncommented line := fun c hc => by
    rw [hline]
    exact List.mem_append_left _ hc
  by_cases hmem : '#' ∈ JsText.trim line
  · rw [uncommented_append_of_mem hmem] at hline
    refine ⟨?_, fun c hc => h c (hline ▸ List.mem_append_right _ hc)⟩
    rw [hline]
    exact (Fields.trim_append_left (hwhite hbefore hinBefore)).symm
  · rw [uncommented_append hmem, uncommented_eq_self (hfree hafter), ← List.append_assoc] at hline
    rw [uncommented_eq_self hmem]
    have hinAfter : ∀ c ∈ after, c ∈ uncommented line := fun c hc => by
      rw [hline]
      exact List.mem_append_right _ hc
    refine ⟨?_, fun c hc => h c ?_⟩
    · rw [hline]
      exact (Fields.trim_append (hwhite hbefore hinBefore) (hwhite hafter hinAfter)).symm
    · rw [hline]
      exact List.mem_append_left _ (List.mem_append_right _ hc)

end Comments

/-! ## Reading a line -/

section Reading

variable {js : Runtime} {line key value t : Text}

theorem parseLine_some (h : parseLine line = some (key, value)) :
    ∃ left right, JsText.trim line = left ++ '=' :: right ∧ '=' ∉ left ∧
      key = JsText.trim left ∧ value = JsText.trim right := by
  unfold parseLine at h
  dsimp only at h
  split at h
  · cases h
  · obtain ⟨⟨left, right⟩, hsplit, heq⟩ := Option.map_eq_some_iff.mp h
    obtain ⟨rfl, rfl⟩ := Prod.mk.inj heq
    obtain ⟨htrim, hleft⟩ := Text.splitOnce_some.mp hsplit
    exact ⟨left, right, htrim, hleft, rfl, rfl⟩

/-- The server cuts at the equals sign, if it is not in the comment. -/
theorem splitOnce_trim {left right : Text} (h : '=' ∉ left) :
    Text.splitOnce '=' (Text.trim (left ++ '=' :: right)) =
      some (left.dropWhile Text.isWhitespace, right.rdropWhile Text.isWhitespace) := by
  rw [Text.trim_eq, Fields.trim_append_cons rfl]
  exact Text.splitOnce_some.mpr ⟨rfl, fun hmem => h (List.dropWhile_subset _ hmem)⟩

/-- What the server reads of a line that is an entry for the console. -/
theorem iniEntry_of_parseLine (hplain : PlainLine line) (hparse : parseLine line = some (key, value)) :
    ('#' ∈ key ∧ iniEntry line = none ∧
        Text.trim (uncommented key) = Text.trim (uncommented line)) ∨
      ('#' ∉ key ∧ ∃ v, iniEntry line = some (key, v) ∧
        Text.splitWhitespace v = (cut '#' (fields JsText.isSpace value)).filter (· ≠ [])) := by
  obtain ⟨left, right, hcontent, hleft, rfl, rfl⟩ := parseLine_some hparse
  have hequals : '=' ∈ line := Fields.mem_of_mem_trim (p := JsText.isSpace) <| by
    change '=' ∈ JsText.trim line
    rw [hcontent]
    exact List.mem_append_right _ List.mem_cons_self
  obtain ⟨htrim, hspaces⟩ := trim_uncommented_trim (hplain.spaces hequals)
  rw [hcontent] at htrim hspaces
  by_cases hhash : '#' ∈ left
  · left
    rw [uncommented_append_of_mem hhash] at htrim hspaces
    refine ⟨(Fields.mem_trim_iff isSpace_hash).mpr hhash, ?_, ?_⟩
    · have hnone : Text.splitOnce '=' (Text.trim (uncommented line)) = none := by
        rw [← htrim]
        exact Text.splitOnce_none.mpr fun hmem =>
          hleft (mem_of_mem_uncommented (Fields.mem_of_mem_trim hmem))
      rw [iniEntry, hplain.noHeader, hnone]
      rfl
    · rw [(trim_uncommented_trim hspaces).1, htrim]
  · right
    have hequals : '#' ∉ left ++ ['='] := fun hmem => by
      rcases List.mem_append.mp hmem with hmem | hmem
      · exact hhash hmem
      · cases List.mem_singleton.mp hmem
    rw [List.append_cons, uncommented_append hequals, ← List.append_cons] at htrim hspaces
    have hsameLeft : SameSpaces left := fun c hc => hspaces c (List.mem_append_left _ hc)
    have hsameRight : SameSpaces (uncommented right) := fun c hc =>
      hspaces c (List.mem_append_right _ (List.mem_cons_of_mem _ hc))
    refine ⟨fun hmem => hhash (Fields.mem_of_mem_trim hmem),
      Text.trim ((uncommented right).rdropWhile Text.isWhitespace), ?_, ?_⟩
    · have hkey : Text.trim (left.dropWhile Text.isWhitespace) = JsText.trim left := by
        rw [trim_eq_of_sameSpaces hsameLeft]
        exact Fields.trim_dropWhile
      rw [iniEntry, hplain.noHeader]
      dsimp only
      rw [← htrim, splitOnce_trim hleft, Option.map_some, hkey]
    · have hvalue : Text.trim ((uncommented right).rdropWhile Text.isWhitespace) =
          Text.trim (uncommented right) := Fields.trim_rdropWhile
      rw [hvalue, Text.splitWhitespace_trim, Text.splitWhitespace_eq,
        ← Fields.fields_congr (isSpace_of_sameSpaces hsameRight), uncommented,
        Fields.fields_takeWhile isSpace_hash, JsText.trim, Fields.fields_trim]

/-- A line that is nothing to the console is no binding for the server. -/
theorem iniEntry_of_parseLine_none (hplain : PlainLine line) (hparse : parseLine line = none) :
    ∀ entry, iniEntry line = some entry → entry.1.head? = some ';' := by
  intro entry hentry
  rw [iniEntry, hplain.noHeader] at hentry
  dsimp only at hentry
  have hequals : '=' ∈ line := by
    obtain ⟨⟨left, right⟩, hsplit, -⟩ := Option.map_eq_some_iff.mp hentry
    have hin : '=' ∈ Text.trim (uncommented line) := by
      rw [(Text.splitOnce_some.mp hsplit).1]
      exact List.mem_append_right _ List.mem_cons_self
    exact mem_of_mem_uncommented (Fields.mem_of_mem_trim hin)
  obtain ⟨htrim, -⟩ := trim_uncommented_trim (hplain.spaces hequals)
  rw [← htrim] at hentry
  obtain ⟨⟨left, right⟩, hsplit, rfl⟩ := Option.map_eq_some_iff.mp hentry
  obtain ⟨heq, hleft⟩ := Text.splitOnce_some.mp hsplit
  have hmem : '=' ∈ JsText.trim line := by
    have hin : '=' ∈ Text.trim (uncommented (JsText.trim line)) := by
      rw [heq]
      exact List.mem_append_right _ List.mem_cons_self
    exact mem_of_mem_uncommented (Fields.mem_of_mem_trim hin)
  unfold parseLine at hparse
  dsimp only at hparse
  split at hparse
  · rename_i hskipped
    rcases hskipped with hnil | hcomment | hsemicolon
    · rw [hnil] at hmem
      cases hmem
    · obtain ⟨rest, hrest⟩ := List.head?_eq_some_iff.mp hcomment
      rw [hrest] at heq
      cases left <;> cases heq
    · obtain ⟨rest, hrest⟩ := List.head?_eq_some_iff.mp hsemicolon
      -- The semicolon stays where it is.
      have hstart : Text.trim (uncommented (JsText.trim line)) =
          ';' :: (uncommented rest).rdropWhile Text.isWhitespace := by
        have hsplit : uncommented (';' :: rest) = [] ++ ';' :: uncommented rest :=
          uncommented_append (a := [';']) (by decide) rest
        rw [hrest, hsplit, Text.trim_eq, Fields.trim_append_cons rfl]
        rfl
      rw [hstart] at heq
      cases left with
      | nil => cases heq
      | cons c left =>
          obtain ⟨rfl, -⟩ := List.cons.inj heq
          dsimp only
          have hkey : Text.trim ([] ++ ';' :: left) = ';' :: left.rdropWhile Text.isWhitespace := by
            rw [Text.trim_eq, Fields.trim_append_cons rfl]
            rfl
          rw [List.nil_append] at hkey
          rw [hkey]
          rfl
  · have hnone := Option.map_eq_none_iff.mp hparse
    exact absurd hmem (Text.splitOnce_none.mp hnone)

end Reading

/-! ## Fields -/

section Values

variable {js : Runtime} {t field : Text} {rest : List Text} {client : Client}

theorem splitSpaces_eq (hne : t ≠ []) (hhead : ∀ c ∈ t.head?, JsText.isSpace c = false)
    (hlast : ∀ c ∈ t.getLast?, JsText.isSpace c = false) :
    JsText.splitSpaces t = fields JsText.isSpace t := by
  obtain ⟨first, rest, heq⟩ := List.exists_cons_of_ne_nil (List.splitOnP_ne_nil JsText.isSpace t)
  have hfirst : decide (first ≠ []) = true :=
    decide_eq_true (Fields.first_ne_nil hne hhead heq)
  have hend := Fields.last_ne_nil hne hlast
  unfold JsText.splitSpaces fields
  rw [heq] at hend ⊢
  rw [List.filter_cons, if_pos hfirst]
  rcases List.eq_nil_or_concat rest with rfl | ⟨init, last, rfl⟩
  · rfl
  · rw [List.concat_eq_append] at hend ⊢
    rw [← List.cons_append, List.getLast?_concat] at hend
    have hdrop : (init ++ [last]).drop ((init ++ [last]).length - 1) = [last] :=
      List.drop_left' (by simp)
    have hlast : decide (last ≠ []) = true := decide_eq_true fun h => hend (congrArg some h)
    cases init with
    | nil =>
        rw [List.nil_append, List.filter_cons, if_pos hlast]
        rfl
    | cons second init =>
        change first :: (((second :: init) ++ [last]).dropLast.filter (· ≠ []) ++
          ((second :: init) ++ [last]).drop (((second :: init) ++ [last]).length - 1)) = _
        rw [hdrop, List.dropLast_concat, List.filter_append]
        congr 2
        rw [List.filter_cons, if_pos hlast]
        rfl

theorem mem_of_mem_splitSpaces {piece : Text} {c : Char} :
    piece ∈ JsText.splitSpaces t → c ∈ piece → c ∈ t := by
  intro hpiece hc
  refine Fields.mem_of_mem_splitOnP (p := JsText.isSpace) (?_ : piece ∈ _) hc
  unfold JsText.splitSpaces at hpiece
  split at hpiece
  · cases hpiece
  · rename_i heq
    rw [heq]
    exact hpiece
  · rename_i first rest hrest heq
    rw [heq]
    rcases List.mem_cons.mp hpiece with rfl | hpiece
    · exact List.mem_cons_self
    · refine List.mem_cons_of_mem _ ?_
      rcases List.mem_append.mp hpiece with hpiece | hpiece
      · exact List.dropLast_subset _ (List.mem_filter.mp hpiece).1
      · exact List.drop_subset _ _ hpiece

/-- The fingerprint as it is written. -/
def lowerDigits (field : Text) : Text := Text.toAsciiLowercase (field.filter (· ≠ ':'))

theorem mem_lowerDigits (h : IsFingerprint field) :
    lowerDigits field ≠ [] ∧ ∀ c ∈ lowerDigits field, Text.isHexDigit c = true := by
  constructor
  · intro hnil
    have hlength := congrArg List.length hnil
    rw [lowerDigits, toAsciiLowercase_eq, List.length_map, h.1] at hlength
    cases hlength
  · intro c hc
    rw [lowerDigits, toAsciiLowercase_eq] at hc
    obtain ⟨d, hd, rfl⟩ := List.mem_map.mp hc
    rw [isHexDigit_toLower]
    exact h.2 d hd

theorem isHexDigit_toNat {c : Char} (h : Text.isHexDigit c = true) : 48 ≤ c.toNat ∧ c.toNat ≤ 102 := by
  rw [Text.isHexDigit, Bool.or_eq_true, Bool.or_eq_true, Bool.and_eq_true, Bool.and_eq_true,
    decide_eq_true_eq, decide_eq_true_eq, decide_eq_true_eq, decide_eq_true_eq] at h
  rcases h with (h | ⟨hlo, hhi⟩) | ⟨hlo, hhi⟩
  · have hdigit := digit_bounds h
    omega
  · have hlo : 97 ≤ c.toNat := hlo
    have hhi : c.toNat ≤ 102 := hhi
    omega
  · have hlo : 65 ≤ c.toNat := hlo
    have hhi : c.toNat ≤ 70 := hhi
    omega

theorem not_isWhitespace_of_toNat {c : Char} (hlo : 33 ≤ c.toNat) (hhi : c.toNat ≤ 126) :
    Text.isWhitespace c = false := by
  unfold Text.isWhitespace
  simp only [Bool.or_eq_false_iff, Bool.and_eq_false_iff, decide_eq_false_iff_not, beq_eq_false_iff_ne]
  omega

theorem hexDigits_plain (h : ∀ c ∈ t, Text.isHexDigit c = true) :
    '#' ∉ t ∧ '\n' ∉ t ∧ (∀ c ∈ t, c.toNat < 128) ∧ ∀ c ∈ t, Text.isWhitespace c = false := by
  have hbounds : ∀ c ∈ t, 48 ≤ c.toNat ∧ c.toNat ≤ 102 := fun c hc => isHexDigit_toNat (h c hc)
  refine ⟨fun hmem => ?_, fun hmem => ?_, fun c hc => ?_, fun c hc => ?_⟩
  · exact absurd (hbounds _ hmem) (by decide)
  · exact absurd (hbounds _ hmem) (by decide)
  · have := hbounds c hc
    omega
  · have := hbounds c hc
    exact not_isWhitespace_of_toNat (by omega) (by omega)

theorem normalized_eq (js : Runtime) (h : IsFingerprint field) :
    normalized js field = lowerDigits field :=
  JsText.toLowerCase_ascii js (hexDigits_plain h.2).2.2.1

/-- With a comment that follows without a space. -/
theorem normalized_comment (js : Runtime) (h : IsFingerprint field) (comment : Text) :
    ∃ lower, normalized js (field ++ '#' :: comment) = lowerDigits field ++ '#' :: lower := by
  have hascii : ∀ c ∈ field.filter (· ≠ ':') ++ ['#'], c.toNat < 128 := by
    intro c hc
    rcases List.mem_append.mp hc with hc | hc
    · exact (hexDigits_plain h.2).2.2.1 c hc
    · rw [List.mem_singleton.mp hc]
      decide
  obtain ⟨lower, hlower, -⟩ := js.toLowerCase_append _ (comment.filter (· ≠ ':')) hascii
  refine ⟨lower, ?_⟩
  have hfilter : (field ++ '#' :: comment).filter (· ≠ ':') =
      field.filter (· ≠ ':') ++ ['#'] ++ comment.filter (· ≠ ':') := by
    rw [List.filter_append, List.filter_cons, if_pos (by decide), List.append_assoc]
    rfl
  rw [normalized, hfilter, hlower, toAsciiLowercase_eq, List.map_append, List.append_assoc]
  rfl

/-- What is written begins with the fingerprint. -/
theorem value_append (client : Client) : ∃ tail, client.value = client.fingerprint ++ tail := by
  unfold Client.value
  split
  · exact ⟨[], (List.append_nil _).symm⟩
  · exact ⟨[], (List.append_nil _).symm⟩
  · exact ⟨_, List.append_assoc _ _ _⟩

end Values

/-! ## Writing a line -/

section Writing

variable {js : Runtime} {key value right field t : Text} {rest : List Text}

theorem uncommented_hash (h : '#' ∉ t) (after : Text) : uncommented (t ++ '#' :: after) = t := by
  rw [uncommented_append h, uncommented, List.takeWhile_cons, if_neg (by decide), List.append_nil]

/-- A word before a space, and what comes after. -/
theorem splitWhitespace_word {word : Text} (hne : word ≠ []) (hhash : '#' ∉ word)
    (hspace : ∀ c ∈ word, Text.isWhitespace c = false) (after : Text) :
    Text.splitWhitespace (uncommented (word ++ ' ' :: after)) =
      word :: Text.splitWhitespace (uncommented after) := by
  have hgap : '#' ∉ word ++ [' '] := by simpa using hhash
  rw [List.append_cons, uncommented_append hgap, ← List.append_cons, Text.splitWhitespace_eq,
    Fields.fields_word_append hne rfl hspace]
  rfl

/-- Up to the comment a word is none or one. -/
theorem cut_hash {word : Text} (h : '#' ∈ word) (words : List Text) :
    (cut '#' (word :: words)).filter (· ≠ []) = [uncommented word].filter (· ≠ []) := by
  rw [cut, if_pos h]
  rfl

theorem cut_plain {word : Text} (hne : word ≠ []) (h : '#' ∉ word) (words : List Text) :
    (cut '#' (word :: words)).filter (· ≠ []) = word :: (cut '#' words).filter (· ≠ []) := by
  rw [cut, if_neg h, List.filter_cons, if_pos (decide_eq_true hne)]

/-- The last word that counts. -/
theorem splitWhitespace_last {word : Text} {words : List Text} (hne : word ≠ [])
    (hwords : (cut '#' (word :: words)).filter (· ≠ []) = [field])
    (hspace : ∀ c ∈ field, Text.isWhitespace c = false) :
    Text.splitWhitespace (uncommented word) = [field] := by
  by_cases hmem : '#' ∈ word
  · rw [cut_hash hmem, List.filter_cons, List.filter_nil] at hwords
    split at hwords
    · rename_i hkept
      obtain ⟨rfl, -⟩ := List.cons.inj hwords
      exact Fields.fields_of_all_not (of_decide_eq_true hkept) hspace
    · cases hwords
  · rw [cut_plain hne hmem] at hwords
    obtain ⟨rfl, -⟩ := List.cons.inj hwords
    rw [uncommented_eq_self hmem]
    exact Fields.fields_of_all_not hne hspace

/-- The second and the third word, which are a login or a comment. -/
theorem splitWhitespace_login {second : Text} {words : List Text}
    (hne : ∀ word ∈ second :: words, word ≠ [])
    (hwords : (cut '#' (second :: words)).filter (· ≠ []) = rest)
    (hfields : rest = [] ∨ ∃ id password, rest = [id, password])
    (hspace : ∀ word ∈ rest, ∀ c ∈ word, Text.isWhitespace c = false) :
    Text.splitWhitespace (uncommented (second ++ ' ' :: words[0]?.getD "undefined".toList)) = rest := by
  have hsecond := hne second List.mem_cons_self
  rcases hfields with rfl | ⟨id, password, rfl⟩
  · -- The comment begins with this word.
    by_cases hmem : '#' ∈ second
    · rw [cut_hash hmem, List.filter_cons, List.filter_nil] at hwords
      split at hwords
      · cases hwords
      · rename_i hempty
        have hstop : uncommented second = [] := not_not.mp fun h => hempty (decide_eq_true h)
        rw [uncommented_append_of_mem hmem, hstop]
        rfl
    · rw [cut_plain hsecond hmem] at hwords
      cases hwords
  · by_cases hmem : '#' ∈ second
    · rw [cut_hash hmem, List.filter_cons, List.filter_nil] at hwords
      split at hwords <;> cases hwords
    · rw [cut_plain hsecond hmem] at hwords
      obtain ⟨rfl, hpassword⟩ := List.cons.inj hwords
      cases words with
      | nil => cases hpassword
      | cons third words =>
          rw [splitWhitespace_word hsecond hmem (hspace second List.mem_cons_self)]
          refine congrArg (second :: ·) ?_
          exact splitWhitespace_last (hne third (by simp)) hpassword (hspace password (by simp))

/-- The first word, with the fingerprint in it. -/
theorem fingerprint_of_cut (js : Runtime) {first : Text} {words : List Text} (hmem : '#' ∈ first)
    (hwords : (cut '#' (first :: words)).filter (· ≠ []) = field :: rest)
    (hfingerprint : IsFingerprint field) :
    rest = [] ∧ ∃ lower, normalized js first = lowerDigits field ++ '#' :: lower := by
  rw [cut_hash hmem, List.filter_cons, List.filter_nil] at hwords
  split at hwords
  · obtain ⟨rfl, rfl⟩ := List.cons.inj hwords
    have hparts : uncommented first ++ first.dropWhile (· ≠ '#') = first :=
      List.takeWhile_append_dropWhile
    cases hd : first.dropWhile (· ≠ '#') with
    | nil =>
        have hmem := List.dropWhile_eq_nil_iff.mp hd '#' hmem
        exact absurd hmem (by decide)
    | cons c comment =>
        have hc := Fields.head?_dropWhile (p := (· ≠ '#')) c (by rw [hd]; rfl)
        rw [hd, not_not.mp (of_decide_eq_false hc)] at hparts
        obtain ⟨lower, hlower⟩ := normalized_comment js hfingerprint comment
        exact ⟨rfl, lower, by rw [← hlower, hparts]⟩
  · cases hwords

/-- The words of the console, up to the comment, are the words that the server
reads of what is written. -/
theorem splitWhitespace_value (hright : value = JsText.trim right)
    (hwords : (cut '#' (fields JsText.isSpace value)).filter (· ≠ []) = field :: rest)
    (hfields : rest = [] ∨ ∃ id password, rest = [id, password])
    (hfingerprint : IsFingerprint field)
    (hspace : ∀ word ∈ rest, ∀ c ∈ word, Text.isWhitespace c = false) :
    Text.splitWhitespace (uncommented (readClient js (key, value)).value) =
      lowerDigits field :: rest := by
  obtain ⟨hdigitsNe, hdigits⟩ := mem_lowerDigits hfingerprint
  obtain ⟨hdigitsHash, -, -, hdigitsSpace⟩ := hexDigits_plain hdigits
  have hvalueNe : value ≠ [] := by
    rintro rfl
    cases hwords
  have hspaces : JsText.splitSpaces value = fields JsText.isSpace value := by
    rw [hright] at hvalueNe ⊢
    exact splitSpaces_eq hvalueNe Fields.head?_trim Fields.getLast?_trim
  have hclient : readClient js (key, value) =
      { vpnAddress := key
        fingerprint := normalized js ((fields JsText.isSpace value).headD [])
        loginId := (fields JsText.isSpace value)[1]?
        password := (fields JsText.isSpace value)[2]? } := by
    rw [← hspaces]
    rfl
  have hne : ∀ word ∈ fields JsText.isSpace value, word ≠ [] := fun word hword =>
    (Fields.mem_fields hword).1
  cases hall : fields JsText.isSpace value with
  | nil =>
      rw [hall] at hwords
      cases hwords
  | cons first words =>
      rw [hall] at hwords hclient hne
      by_cases hmem : '#' ∈ first
      · obtain ⟨rfl, lower, hlower⟩ := fingerprint_of_cut js hmem hwords hfingerprint
        obtain ⟨tail, htail⟩ := value_append (readClient js (key, value))
        rw [htail, hclient, List.headD_cons, hlower, List.append_assoc, List.cons_append,
          uncommented_hash hdigitsHash]
        exact Fields.fields_of_all_not hdigitsNe hdigitsSpace
      · rw [cut_plain (hne first List.mem_cons_self) hmem] at hwords
        obtain ⟨rfl, hrest⟩ := List.cons.inj hwords
        have hstart := normalized_eq js hfingerprint
        rw [Client.value, hclient]
        cases words with
        | nil =>
            obtain rfl : rest = [] := hrest.symm
            change Text.splitWhitespace (uncommented (normalized js first)) = _
            rw [hstart, uncommented_eq_self hdigitsHash]
            exact Fields.fields_of_all_not hdigitsNe hdigitsSpace
        | cons second words =>
            have hlogin := splitWhitespace_login (fun word hword => hne word (List.mem_cons_of_mem _ hword))
              hrest hfields hspace
            cases second with
            | nil => exact absurd rfl (hne [] (by simp))
            | cons c second =>
                change Text.splitWhitespace (uncommented (normalized js first ++ ' ' :: c :: second ++
                  ' ' :: words[0]?.getD "undefined".toList)) = _
                rw [hstart, List.append_assoc, List.cons_append,
                  splitWhitespace_word hdigitsNe hdigitsHash hdigitsSpace, hlogin]

/-- The marks of an address. -/
def AddressText (key : Text) : Prop := key ≠ [] ∧ ∀ c ∈ key, c.isDigit = true ∨ c = '.'

theorem addressText_of_number {address : Ipv4Addr} (h : ipv4Number key = some address) :
    AddressText key := by
  refine ⟨?_, mem_of_ipv4Number h⟩
  rintro rfl
  cases h

theorem addressText_of_parse {address : Ipv4Addr} (h : Text.parseIpv4 key = some address) :
    AddressText key :=
  addressText_of_number (parseIpv4_iff.mp h).1

theorem AddressText.bounds (h : AddressText key) : ∀ c ∈ key, 46 ≤ c.toNat ∧ c.toNat ≤ 57 := by
  intro c hc
  rcases h.2 c hc with hdigit | rfl
  · have hbounds := digit_bounds hdigit
    omega
  · decide

theorem AddressText.plain (h : AddressText key) :
    '#' ∉ key ∧ '=' ∉ key ∧ '\n' ∉ key ∧ ∀ c ∈ key, Text.isWhitespace c = false := by
  have hbounds := h.bounds
  refine ⟨fun hmem => ?_, fun hmem => ?_, fun hmem => ?_, fun c hc => ?_⟩
  · exact absurd (hbounds _ hmem) (by decide)
  · exact absurd (hbounds _ hmem) (by decide)
  · exact absurd (hbounds _ hmem) (by decide)
  · have := hbounds c hc
    exact not_isWhitespace_of_toNat (by omega) (by omega)

theorem sectionHeader_none (h : t.head? ≠ some '[') : sectionHeader t = none := by
  unfold sectionHeader
  exact if_neg fun hboth => h hboth.1

/-- The entry of an address is read as it was written. -/
theorem iniEntry_line (hkey : AddressText key) (value : Text) :
    iniHeader (key ++ " = ".toList ++ value) = none ∧
      isSectionLine (key ++ " = ".toList ++ value) = false ∧
      iniEntry (key ++ " = ".toList ++ value) = some (key, Text.trim (uncommented value)) := by
  obtain ⟨hhash, hequals, -, hspace⟩ := hkey.plain
  obtain ⟨first, key', rfl⟩ := List.exists_cons_of_ne_nil hkey.1
  have hfirst : Text.isWhitespace first = false := hspace first List.mem_cons_self
  have hbracket : first ≠ '[' := fun heq =>
    absurd (hkey.bounds first List.mem_cons_self) (by rw [heq]; decide)
  have hline : ∀ after : Text, (first :: key') ++ " = ".toList ++ after =
      (first :: key' ++ [' ']) ++ '=' :: ' ' :: after := by
    intro after
    simp
  have hstart : (first :: key' ++ [' ']).dropWhile Text.isWhitespace = first :: key' ++ [' '] := by
    rw [List.cons_append, List.dropWhile_cons, hfirst]
    rfl
  have htrim : ∀ after : Text, Text.trim ((first :: key') ++ " = ".toList ++ after) =
      (first :: key' ++ [' ']) ++ '=' :: (' ' :: after).rdropWhile Text.isWhitespace := by
    intro after
    rw [hline, Text.trim_eq, Fields.trim_append_cons rfl, hstart]
  have hopen : ∀ after : Text, sectionHeader (Text.trim ((first :: key') ++ " = ".toList ++ after)) =
      none := by
    intro after
    refine sectionHeader_none ?_
    rw [htrim]
    exact fun heq => hbracket (Option.some.inj heq)
  have huncommented : uncommented ((first :: key') ++ " = ".toList ++ value) =
      (first :: key') ++ " = ".toList ++ uncommented value := by
    refine uncommented_append ?_ value
    intro hmem
    rcases List.mem_append.mp hmem with hmem | hmem
    · exact hhash hmem
    · exact absurd hmem (by decide)
  have hheader : iniHeader ((first :: key') ++ " = ".toList ++ value) = none := by
    rw [iniHeader, huncommented]
    exact hopen _
  refine ⟨hheader, ?_, ?_⟩
  · rw [isSectionLine, hopen]
    rfl
  · have hleft : '=' ∉ first :: key' ++ [' '] := by
      intro hmem
      rcases List.mem_append.mp hmem with hmem | hmem
      · exact hequals hmem
      · exact absurd hmem (by decide)
    have hkeyTrim : Text.trim ((first :: key') ++ [' ']) = first :: key' := by
      have hspaceAfter : ∀ c ∈ [' '], Text.isWhitespace c = true := fun c hc => by
        rw [List.mem_singleton.mp hc]
        rfl
      rw [Text.trim_eq, Fields.trim_append_right hspaceAfter]
      refine Fields.trim_eq_self (fun c hc => ?_) fun c hc => ?_
      · exact hspace c (List.mem_of_mem_head? hc)
      · exact hspace c (List.mem_of_mem_getLast? hc)
    have hvalueTrim : Text.trim ((' ' :: uncommented value).rdropWhile Text.isWhitespace) =
        Text.trim (uncommented value) := by
      have hspaceBefore : ∀ c ∈ [' '], Text.isWhitespace c = true := fun c hc => by
        rw [List.mem_singleton.mp hc]
        rfl
      rw [Text.trim_eq, Fields.trim_rdropWhile]
      exact Fields.trim_append_left hspaceBefore
    rw [iniEntry, hheader]
    dsimp only
    rw [huncommented, hline, splitOnce_trim hleft, hstart, Option.map_some, hkeyTrim, hvalueTrim]

end Writing

/-! ## Entries that say the same -/

/-- Two entries of one address, the second with the fingerprint in the spelling
of the console. -/
def SameEntry (entry other : Text × Text) : Prop :=
  other.1 = entry.1 ∧ ∃ field rest, Text.splitWhitespace entry.2 = field :: rest ∧
    Text.splitWhitespace other.2 = lowerDigits field :: rest

/-- What the server asks of one entry alone. -/
structure Readable (entry : Text × Text) : Prop where
  address : ∃ address, Text.parseIpv4 entry.1 = some address
  fingerprint : IsFingerprint (firstField entry.2)
  login : HasLoginFields entry

section Same

variable {js : Runtime} {entry other : Text × Text} {line key value field : Text} {network : Ipv4Addr}
  {prefixLen : Nat} {serverAddress : Ipv4Addr}

theorem lowerDigits_lowerDigits (h : IsFingerprint field) :
    IsFingerprint (lowerDigits field) ∧ lowerDigits (lowerDigits field) = lowerDigits field := by
  obtain ⟨-, hdigits⟩ := mem_lowerDigits h
  have hfilter : (lowerDigits field).filter (· ≠ ':') = lowerDigits field := by
    refine List.filter_eq_self.mpr fun c hc => decide_eq_true ?_
    rintro rfl
    exact absurd (hdigits _ hc) (by decide)
  have hmap : (lowerDigits field).map toLower = lowerDigits field := by
    rw [lowerDigits, toAsciiLowercase_eq, List.map_map]
    refine List.map_congr_left fun c _ => ?_
    exact if_neg (not_capital_toLower c)
  refine ⟨⟨?_, ?_⟩, ?_⟩
  · rw [hfilter, lowerDigits, toAsciiLowercase_eq, List.length_map]
    exact h.1
  · rw [hfilter]
    exact hdigits
  · conv_lhs => rw [lowerDigits, hfilter, toAsciiLowercase_eq, hmap]

section

variable (hsame : SameEntry entry other)

include hsame

theorem SameEntry.firstFields :
    firstField other.2 = lowerDigits (firstField entry.2) := by
  obtain ⟨-, field, rest, hentry, hother⟩ := hsame
  rw [firstField, firstField, hentry, hother]
  rfl

theorem SameEntry.fingerprintOf (h : IsFingerprint (firstField entry.2)) :
    IsFingerprint (firstField other.2) ∧ fingerprintOf other.2 = fingerprintOf entry.2 := by
  obtain ⟨hfingerprint, hidem⟩ := lowerDigits_lowerDigits h
  refine ⟨hsame.firstFields ▸ hfingerprint, ?_⟩
  change lowerDigits (firstField other.2) = lowerDigits (firstField entry.2)
  rw [hsame.firstFields, hidem]

theorem SameEntry.proper (h : Proper serverAddress network prefixLen entry) :
    Proper serverAddress network prefixLen other := by
  obtain ⟨address, haddress, hinside, hserver, hfingerprint⟩ := h
  exact ⟨address, hsame.1 ▸ haddress, hinside, hserver, (hsame.fingerprintOf hfingerprint).1⟩

theorem SameEntry.entryLogin : entryLogin other = entryLogin entry := by
  obtain ⟨hkey, field, rest, hentry, hother⟩ := hsame
  unfold AutobricksVpn.entryLogin
  rw [hentry, hother, hkey]
  rcases rest with _ | ⟨id, _ | ⟨password, _ | ⟨_, _⟩⟩⟩ <;> rfl

theorem SameEntry.hasLoginFields (h : HasLoginFields entry) : HasLoginFields other := by
  obtain ⟨hkey, field, rest, hentry, hother⟩ := hsame
  rcases h with ⟨f, hf⟩ | ⟨f, id, password, address, hf, haddress⟩
  · rw [hentry] at hf
    obtain ⟨rfl, rfl⟩ := List.cons.inj hf
    exact .inl ⟨_, hother⟩
  · rw [hentry] at hf
    obtain ⟨rfl, rfl⟩ := List.cons.inj hf
    exact .inr ⟨_, id, password, address, hother, hkey ▸ haddress⟩

end

/-- **A line.**  What the server reads of a line before and after the console has
written it anew. -/
theorem entry_of_readClient (js : Runtime) (hplain : PlainLine line) (hparse : parseLine line = some (key, value))
    (hread : ∀ entry, iniEntry line = some entry → Readable entry) :
    (iniEntry line = none ∧ iniHeader (readClient js (key, value)).line = none ∧
        iniEntry (readClient js (key, value)).line = none) ∨
      ∃ entry other, iniEntry line = some entry ∧ entry.1 = key ∧
        iniHeader (readClient js (key, value)).line = none ∧
        iniEntry (readClient js (key, value)).line = some other ∧ SameEntry entry other := by
  obtain ⟨left, right, -, -, -, hright⟩ := parseLine_some hparse
  have hline : (readClient js (key, value)).line =
      key ++ " = ".toList ++ (readClient js (key, value)).value := rfl
  rcases iniEntry_of_parseLine hplain hparse with ⟨hhash, hnone, htrim⟩ | ⟨-, v, hentry, hwords⟩
  · left
    have hsame : Text.trim (uncommented (readClient js (key, value)).line) =
        Text.trim (uncommented line) := by
      rw [hline, List.append_assoc, uncommented_append_of_mem hhash, htrim]
    have hheader : iniHeader (readClient js (key, value)).line = none := by
      rw [iniHeader, hsame]
      exact hplain.noHeader
    refine ⟨hnone, hheader, ?_⟩
    rw [iniEntry, hheader, hsame]
    rw [iniEntry, hplain.noHeader] at hnone
    exact hnone
  · right
    obtain ⟨⟨address, haddress⟩, hfingerprint, hlogin⟩ := hread _ hentry
    have hkey : AddressText key := addressText_of_parse haddress
    obtain ⟨hheader, -, hwritten⟩ := iniEntry_line hkey (readClient js (key, value)).value
    refine ⟨(key, v), _, hentry, rfl, hheader, hwritten, rfl, ?_⟩
    have hspace : ∀ word ∈ Text.splitWhitespace v, ∀ c ∈ word, Text.isWhitespace c = false :=
      fun word hword => (Fields.mem_fields hword).2
    have hfields : ∃ field rest, Text.splitWhitespace v = field :: rest ∧
        (rest = [] ∨ ∃ id password, rest = [id, password]) := by
      rcases hlogin with ⟨field, hf⟩ | ⟨field, id, password, -, hf, -⟩
      · exact ⟨field, [], hf, .inl rfl⟩
      · exact ⟨field, [id, password], hf, .inr ⟨id, password, rfl⟩⟩
    obtain ⟨field, rest, hv, hrest⟩ := hfields
    rw [firstField, hv] at hfingerprint
    refine ⟨field, rest, hv, ?_⟩
    dsimp only
    rw [Text.splitWhitespace_trim]
    refine splitWhitespace_value hright (hwords.symm.trans hv) hrest hfingerprint fun word hword => ?_
    exact hspace word (hv ▸ List.mem_cons_of_mem _ hword)

/-- A line that is nothing to the console is nothing to the server. -/
theorem iniEntry_none_of_parseLine (hplain : PlainLine line) (hparse : parseLine line = none)
    (hread : ∀ entry, iniEntry line = some entry → Readable entry) : iniEntry line = none := by
  rw [Option.eq_none_iff_forall_ne_some]
  intro entry hentry
  have hsemicolon := iniEntry_of_parseLine_none hplain hparse entry hentry
  obtain ⟨⟨address, haddress⟩, -, -⟩ := hread entry hentry
  have hbounds := (addressText_of_parse haddress).bounds ';' (List.mem_of_mem_head? hsemicolon)
  exact absurd hbounds (by decide)

/-- No newline comes in. -/
theorem newline_not_mem_line (hline : '\n' ∉ line) (hparse : parseLine line = some (key, value)) :
    '\n' ∉ (readClient js (key, value)).line := by
  obtain ⟨left, right, hcontent, -, rfl, rfl⟩ := parseLine_some hparse
  have hin : ∀ c ∈ left ++ '=' :: right, c ∈ line := fun c hc =>
    Fields.mem_of_mem_trim (p := JsText.isSpace) (by rwa [← hcontent] at hc)
  have hkey : '\n' ∉ JsText.trim left := fun hmem =>
    hline (hin _ (List.mem_append_left _ (Fields.mem_of_mem_trim hmem)))
  have hvalue : '\n' ∉ JsText.trim right := fun hmem =>
    hline (hin _ (List.mem_append_right _ (List.mem_cons_of_mem _ (Fields.mem_of_mem_trim hmem))))
  have hword : ∀ word ∈ JsText.splitSpaces (JsText.trim right), '\n' ∉ word := fun word hword hmem =>
    hvalue (mem_of_mem_splitSpaces hword hmem)
  have hfingerprint : '\n' ∉ (readClient js (JsText.trim left, JsText.trim right)).fingerprint := by
    refine js.toLowerCase_newline _ fun hmem => ?_
    have hmem := (List.mem_filter.mp hmem).1
    change '\n' ∈ (JsText.splitSpaces (JsText.trim right)).headD [] at hmem
    cases hwords : JsText.splitSpaces (JsText.trim right) with
    | nil =>
        rw [hwords] at hmem
        cases hmem
    | cons first rest =>
        rw [hwords] at hmem
        exact hword first (hwords ▸ List.mem_cons_self) hmem
  have hpassword : '\n' ∉
      (readClient js (JsText.trim left, JsText.trim right)).password.getD "undefined".toList := by
    change '\n' ∉ ((JsText.splitSpaces (JsText.trim right))[2]?).getD "undefined".toList
    cases hthird : (JsText.splitSpaces (JsText.trim right))[2]? with
    | none => decide
    | some third => exact hword third (List.mem_of_getElem? hthird)
  have hequals : '\n' ∉ " = ".toList := by decide
  have hvalueText : '\n' ∉ (readClient js (JsText.trim left, JsText.trim right)).value := by
    unfold Client.value
    split
    · exact hfingerprint
    · exact hfingerprint
    · rename_i loginId hne hlogin
      have hid : '\n' ∉ loginId := hword loginId (List.mem_of_getElem? hlogin)
      simp only [List.mem_append, List.mem_cons, not_or]
      exact ⟨⟨hfingerprint, by decide, hid⟩, by decide, hpassword⟩
  unfold Client.line
  rw [List.mem_append, List.mem_append, not_or, not_or]
  exact ⟨⟨hkey, hequals⟩, hvalueText⟩

/-- The lines of the clients are without newlines. -/
theorem newline_not_mem_readClients {text : Text} {client : Client} :
    client ∈ readClients js text → '\n' ∉ client.line := by
  intro hclient
  rw [readClients_eq] at hclient
  obtain ⟨⟨key, value⟩, hparsed, rfl⟩ := List.mem_map.mp hclient
  obtain ⟨line, hline, hparse⟩ := List.mem_filterMap.mp hparsed
  refine newline_not_mem_line ?_ hparse
  unfold sectionLines at hline
  split at hline
  · cases hline
  · exact newline_not_mem_lines line (List.take_subset _ _ (List.drop_subset _ _ hline))

end Same

end Web

end AutobricksVpn
