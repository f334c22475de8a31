/-
# `AutobricksVpn.Lib.Fields` — texts cut at separators

Lists over an alphabet some of whose elements, those with `p`, separate the
others: a list without the separators at its ends (`trim`) and the pieces
between them (`fields`).

    fields p (x ++ c :: y) = fields p x ++ fields p y     if p c      (`fields_append_cons`)

Two kinds of separators that agree on the elements of a list give the same
(`trim_congr`, `fields_congr`).
-/
import Mathlib.Data.List.DropRight

namespace Fields

variable {α : Type} {p q : α → Bool} {t before after : List α}

/-! ## Trimming -/

def trim (p : α → Bool) (t : List α) : List α := ((t.dropWhile p).reverse.dropWhile p).reverse

theorem dropWhile_congr : (∀ a ∈ t, p a = q a) → t.dropWhile p = t.dropWhile q := by
  intro h
  induction t with
  | nil => rfl
  | cons a t ih =>
      obtain ⟨ha, ht⟩ := List.forall_mem_cons.mp h
      rw [List.dropWhile_cons, List.dropWhile_cons, ha, ih ht]

theorem takeWhile_congr : (∀ a ∈ t, p a = q a) → t.takeWhile p = t.takeWhile q := by
  intro h
  induction t with
  | nil => rfl
  | cons a t ih =>
      obtain ⟨ha, ht⟩ := List.forall_mem_cons.mp h
      rw [List.takeWhile_cons, List.takeWhile_cons, ha, ih ht]

theorem trim_congr : (∀ a ∈ t, p a = q a) → trim p t = trim q t := by
  intro h
  unfold trim
  rw [dropWhile_congr h]
  refine congrArg List.reverse (dropWhile_congr fun a ha => h a ?_)
  exact List.dropWhile_subset q (List.mem_reverse.mp ha)

theorem dropWhile_append_all :
    (∀ a ∈ before, p a = true) → (before ++ t).dropWhile p = t.dropWhile p := by
  intro h
  induction before with
  | nil => rfl
  | cons a before ih =>
      obtain ⟨ha, hbefore⟩ := List.forall_mem_cons.mp h
      rw [List.cons_append, List.dropWhile_cons, if_pos ha]
      exact ih hbefore

/-- The list that is left, and what was taken off. -/
theorem exists_trim (p : α → Bool) (t : List α) :
    ∃ before after, t = before ++ trim p t ++ after ∧ (∀ a ∈ before, p a = true) ∧
      ∀ a ∈ after, p a = true := by
  have htake : ∀ l : List α, ∀ a ∈ l.takeWhile p, p a = true := fun l a ha =>
    List.all_eq_true.mp List.all_takeWhile a ha
  refine ⟨t.takeWhile p, ((t.dropWhile p).reverse.takeWhile p).reverse, ?_, htake t, fun a ha => ?_⟩
  · unfold trim
    rw [List.append_assoc, ← List.reverse_append, List.takeWhile_append_dropWhile,
      List.reverse_reverse, List.takeWhile_append_dropWhile]
  · exact htake _ a (List.mem_reverse.mp ha)

theorem mem_of_mem_trim {a : α} : a ∈ trim p t → a ∈ t := by
  intro h
  obtain ⟨before, after, heq, -, -⟩ := exists_trim p t
  rw [heq]
  exact List.mem_append_left _ (List.mem_append_right _ h)

theorem mem_trim_iff {c : α} (hc : p c = false) : c ∈ trim p t ↔ c ∈ t := by
  refine ⟨mem_of_mem_trim, fun h => ?_⟩
  obtain ⟨before, after, heq, hbefore, hafter⟩ := exists_trim p t
  rw [heq] at h
  rcases List.mem_append.mp h with h | h
  · rcases List.mem_append.mp h with h | h
    · rw [hbefore c h] at hc
      cases hc
    · exact h
  · rw [hafter c h] at hc
    cases hc

theorem dropWhile_eq_self : (∀ a ∈ t.head?, p a = false) → t.dropWhile p = t := by
  intro h
  cases t with
  | nil => rfl
  | cons a t =>
      rw [List.dropWhile_cons, h a rfl]
      rfl

/-- Nothing is taken off between two other elements. -/
theorem trim_eq_self :
    (∀ a ∈ t.head?, p a = false) → (∀ a ∈ t.getLast?, p a = false) → trim p t = t := by
  intro hhead hlast
  have hreverse : ∀ a ∈ t.reverse.head?, p a = false := by
    rw [List.head?_reverse]
    exact hlast
  unfold trim
  rw [dropWhile_eq_self hhead, dropWhile_eq_self hreverse, List.reverse_reverse]

theorem head?_dropWhile : ∀ a ∈ (t.dropWhile p).head?, p a = false := by
  induction t with
  | nil => exact fun a ha => by cases ha
  | cons b t ih =>
      rw [List.dropWhile_cons]
      split
      · exact ih
      · rename_i hb
        intro a ha
        obtain rfl := Option.some.inj ha
        exact eq_false_of_ne_true hb

theorem getLast?_trim : ∀ a ∈ (trim p t).getLast?, p a = false := by
  unfold trim
  rw [List.getLast?_reverse]
  exact head?_dropWhile

theorem head?_trim : ∀ a ∈ (trim p t).head?, p a = false := by
  intro a ha
  obtain ⟨after, heq⟩ : ∃ after, t.dropWhile p = trim p t ++ after := by
    refine ⟨((t.dropWhile p).reverse.takeWhile p).reverse, ?_⟩
    unfold trim
    rw [← List.reverse_append, List.takeWhile_append_dropWhile, List.reverse_reverse]
  refine head?_dropWhile (t := t) a ?_
  cases h : trim p t with
  | nil =>
      rw [h] at ha
      cases ha
  | cons b rest =>
      rw [h] at ha
      rw [heq, h]
      exact ha

theorem trim_append (hbefore : ∀ a ∈ before, p a = true) (hafter : ∀ a ∈ after, p a = true) :
    trim p (before ++ t ++ after) = trim p t := by
  have hreverse : ∀ a ∈ after.reverse, p a = true := fun a ha => hafter a (List.mem_reverse.mp ha)
  unfold trim
  rw [List.append_assoc, dropWhile_append_all hbefore]
  by_cases hall : ∀ a ∈ t, p a = true
  · have hnil : ∀ l : List α, (∀ a ∈ l, p a = true) → l.dropWhile p = [] := fun l h => by
      simpa using dropWhile_append_all (t := []) h
    rw [dropWhile_append_all hall, hnil _ hafter, hnil _ hall]
  · have hne : t.dropWhile p ≠ [] := by
      intro hnil
      refine hall fun a ha => ?_
      exact List.dropWhile_eq_nil_iff.mp hnil a ha
    rw [List.dropWhile_append, if_neg (by simpa using hne), List.reverse_append,
      dropWhile_append_all hreverse]

theorem trim_append_right (hafter : ∀ a ∈ after, p a = true) : trim p (t ++ after) = trim p t :=
  have hnone : ∀ a ∈ ([] : List α), p a = true := fun _ h => absurd h List.not_mem_nil
  trim_append hnone hafter

theorem trim_append_left (hbefore : ∀ a ∈ before, p a = true) :
    trim p (before ++ t) = trim p t := by
  have hnone : ∀ a ∈ ([] : List α), p a = true := fun _ h => absurd h List.not_mem_nil
  rw [← List.append_nil (before ++ t)]
  exact trim_append hbefore hnone

theorem dropWhile_append_cons {c : α} (hc : p c = false) (x y : List α) :
    (x ++ c :: y).dropWhile p = x.dropWhile p ++ c :: y := by
  induction x with
  | nil => rw [List.nil_append, List.dropWhile_cons, hc]; rfl
  | cons a x ih =>
      rw [List.cons_append, List.dropWhile_cons, List.dropWhile_cons, ih]
      split <;> rfl

/-- On either side of a mark, one end is trimmed. -/
theorem trim_append_cons {c : α} (hc : p c = false) (x y : List α) :
    trim p (x ++ c :: y) = x.dropWhile p ++ c :: y.rdropWhile p := by
  unfold trim
  rw [dropWhile_append_cons hc, List.reverse_append, List.reverse_cons, List.append_assoc,
    List.singleton_append, dropWhile_append_cons hc, List.reverse_append, List.reverse_cons,
    List.reverse_reverse, List.append_assoc, List.singleton_append]
  rfl

theorem trim_dropWhile : trim p (t.dropWhile p) = trim p t := by
  unfold trim
  rw [List.dropWhile_idempotent]

theorem trim_rdropWhile : trim p (t.rdropWhile p) = trim p t := by
  have hparts : t.rdropWhile p ++ t.rtakeWhile p = t := List.rdropWhile_append_rtakeWhile
  have hall : ∀ a ∈ t.rtakeWhile p, p a = true := fun a ha => List.mem_rtakeWhile_imp ha
  conv_rhs => rw [← hparts]
  exact (trim_append_right hall).symm

/-! ## Fields -/

def fields (p : α → Bool) (t : List α) : List (List α) := (t.splitOnP p).filter (· ≠ [])

theorem splitOnP_congr : (∀ a ∈ t, p a = q a) → t.splitOnP p = t.splitOnP q := by
  intro h
  induction t with
  | nil => rfl
  | cons a t ih =>
      obtain ⟨ha, ht⟩ := List.forall_mem_cons.mp h
      rw [List.splitOnP_cons_eq_if_modifyHead, List.splitOnP_cons_eq_if_modifyHead, ha, ih ht]

theorem fields_congr (h : ∀ a ∈ t, p a = q a) : fields p t = fields q t := by
  rw [fields, splitOnP_congr h, fields]

theorem fields_append_cons {c : α} (hc : p c = true) (x y : List α) :
    fields p (x ++ c :: y) = fields p x ++ fields p y := by
  unfold fields
  rw [List.splitOnP_append_cons x y hc, List.filter_append]

theorem fields_nil : fields p [] = [] := rfl

theorem fields_cons_sep {c : α} (hc : p c = true) (t : List α) : fields p (c :: t) = fields p t := by
  have h := fields_append_cons hc [] t
  rwa [fields_nil, List.nil_append, List.nil_append] at h

/-- A piece without a separator is one field. -/
theorem fields_of_all_not (hne : t ≠ []) : (∀ a ∈ t, p a = false) → fields p t = [t] := by
  intro h
  rw [fields, List.splitOnP_eq_singleton h, List.filter_cons, if_pos (decide_eq_true hne),
    List.filter_nil]

theorem fields_word_append {c : α} {word : List α} (hne : word ≠ []) (hc : p c = true)
    (h : ∀ a ∈ word, p a = false) (t : List α) :
    fields p (word ++ c :: t) = word :: fields p t := by
  rw [fields_append_cons hc, fields_of_all_not hne h]
  rfl

theorem fields_append_all_left :
    (∀ a ∈ before, p a = true) → fields p (before ++ t) = fields p t := by
  intro h
  induction before with
  | nil => rfl
  | cons a before ih =>
      obtain ⟨ha, hbefore⟩ := List.forall_mem_cons.mp h
      rw [List.cons_append, fields_cons_sep ha]
      exact ih hbefore

theorem fields_append_all_right :
    (∀ a ∈ after, p a = true) → fields p (t ++ after) = fields p t := by
  intro h
  cases after with
  | nil => rw [List.append_nil]
  | cons a after =>
      obtain ⟨ha, hafter⟩ := List.forall_mem_cons.mp h
      have hnone := fields_append_all_left (t := []) hafter
      rw [List.append_nil] at hnone
      rw [fields_append_cons ha, hnone, fields_nil, List.append_nil]

/-- The separators at the ends are between no fields. -/
theorem fields_trim : fields p (trim p t) = fields p t := by
  obtain ⟨before, after, heq, hbefore, hafter⟩ := exists_trim p t
  conv_rhs => rw [heq]
  rw [fields_append_all_right hafter, fields_append_all_left hbefore]

theorem not_sep_of_mem_splitOnP {piece : List α} {a : α} :
    piece ∈ t.splitOnP p → a ∈ piece → p a = false := by
  induction t generalizing piece with
  | nil =>
      intro h ha
      obtain rfl := List.mem_singleton.mp h
      cases ha
  | cons b t ih =>
      intro h ha
      rw [List.splitOnP_cons_eq_if_modifyHead] at h
      split at h
      · rcases List.mem_cons.mp h with rfl | h
        · cases ha
        · exact ih h ha
      · rename_i hb
        obtain ⟨first, rest, heq⟩ := List.exists_cons_of_ne_nil (List.splitOnP_ne_nil p t)
        rw [heq, List.modifyHead_cons] at h
        rcases List.mem_cons.mp h with rfl | h
        · rcases List.mem_cons.mp ha with rfl | ha
          · exact eq_false_of_ne_true hb
          · exact ih (heq ▸ List.mem_cons_self) ha
        · exact ih (heq ▸ List.mem_cons_of_mem _ h) ha

/-- A field is not empty and has no separator in it. -/
theorem mem_fields {word : List α} (h : word ∈ fields p t) :
    word ≠ [] ∧ ∀ a ∈ word, p a = false := by
  obtain ⟨hpiece, hne⟩ := List.mem_filter.mp h
  exact ⟨of_decide_eq_true hne, fun a ha => not_sep_of_mem_splitOnP hpiece ha⟩

theorem mem_of_mem_splitOnP {piece : List α} {a : α} :
    piece ∈ t.splitOnP p → a ∈ piece → a ∈ t := by
  induction t generalizing piece with
  | nil =>
      intro h ha
      obtain rfl := List.mem_singleton.mp h
      cases ha
  | cons b t ih =>
      intro h ha
      rw [List.splitOnP_cons_eq_if_modifyHead] at h
      split at h
      · rcases List.mem_cons.mp h with rfl | h
        · cases ha
        · exact List.mem_cons_of_mem _ (ih h ha)
      · obtain ⟨first, rest, heq⟩ := List.exists_cons_of_ne_nil (List.splitOnP_ne_nil p t)
        rw [heq, List.modifyHead_cons] at h
        rcases List.mem_cons.mp h with rfl | h
        · rcases List.mem_cons.mp ha with rfl | ha
          · exact List.mem_cons_self
          · exact List.mem_cons_of_mem _ (ih (heq ▸ List.mem_cons_self) ha)
        · exact List.mem_cons_of_mem _ (ih (heq ▸ List.mem_cons_of_mem _ h) ha)

/-- A list that starts with no separator starts with a piece. -/
theorem first_ne_nil {first : List α} {rest : List (List α)} (hne : t ≠ [])
    (hhead : ∀ a ∈ t.head?, p a = false) (heq : t.splitOnP p = first :: rest) : first ≠ [] := by
  cases t with
  | nil => exact absurd rfl hne
  | cons a t =>
      rw [List.splitOnP_cons_eq_if_modifyHead, if_neg (by simp [hhead a rfl])] at heq
      obtain ⟨piece, pieces, hpieces⟩ := List.exists_cons_of_ne_nil (List.splitOnP_ne_nil p t)
      rw [hpieces, List.modifyHead_cons] at heq
      rw [← (List.cons.inj heq).1]
      exact List.cons_ne_nil a piece

/-- And one that ends with no separator ends with one. -/
theorem last_ne_nil (hne : t ≠ []) (hlast : ∀ a ∈ t.getLast?, p a = false) :
    (t.splitOnP p).getLast? ≠ some [] := by
  induction t with
  | nil => exact absurd rfl hne
  | cons a t ih =>
      rw [List.splitOnP_cons_eq_if_modifyHead]
      cases t with
      | nil =>
          rw [if_neg (by simp [hlast a rfl]), List.splitOnP_nil, List.modifyHead_cons]
          intro h
          cases h
      | cons b t =>
          have hrest := ih (List.cons_ne_nil b t) fun c hc => hlast c (by rwa [List.getLast?_cons_cons])
          obtain ⟨piece, pieces, hpieces⟩ :=
            List.exists_cons_of_ne_nil (List.splitOnP_ne_nil p (b :: t))
          rw [hpieces] at hrest ⊢
          split
          · rwa [List.getLast?_cons_cons]
          · rw [List.modifyHead_cons]
            cases pieces with
            | nil =>
                intro h
                cases h
            | cons second pieces => rwa [List.getLast?_cons_cons] at hrest ⊢

/-! ### A list that breaks off -/

section Cut

variable [DecidableEq α] {c : α}

/-- The pieces up to an element. -/
def cut (c : α) : List (List α) → List (List α)
  | [] => []
  | piece :: rest => if c ∈ piece then [piece.takeWhile (· ≠ c)] else piece :: cut c rest

theorem splitOnP_takeWhile (hc : p c = false) :
    (t.takeWhile (· ≠ c)).splitOnP p = cut c (t.splitOnP p) := by
  induction t with
  | nil => rfl
  | cons a t ih =>
      obtain ⟨first, rest, heq⟩ := List.exists_cons_of_ne_nil (List.splitOnP_ne_nil p t)
      rw [List.takeWhile_cons, List.splitOnP_cons_eq_if_modifyHead]
      by_cases ha : a = c
      · rw [if_neg (by simpa using ha), ha, hc, if_neg (by decide), heq, List.modifyHead_cons, cut,
          if_pos List.mem_cons_self, List.takeWhile_cons, if_neg (by simp)]
        rfl
      · rw [if_pos (decide_eq_true ha), List.splitOnP_cons_eq_if_modifyHead, ih]
        split
        · rw [cut, if_neg List.not_mem_nil]
        · rw [heq, List.modifyHead_cons, cut, cut]
          have hmem : c ∈ a :: first ↔ c ∈ first :=
            List.mem_cons.trans (or_iff_right (Ne.symm ha))
          by_cases hfirst : c ∈ first
          · rw [if_pos hfirst, if_pos (hmem.mpr hfirst), List.modifyHead_cons, List.takeWhile_cons,
              if_pos (decide_eq_true ha)]
          · rw [if_neg hfirst, if_neg (fun h => hfirst (hmem.mp h)), List.modifyHead_cons]

theorem cut_filter (pieces : List (List α)) :
    (cut c (pieces.filter (· ≠ []))).filter (· ≠ []) = (cut c pieces).filter (· ≠ []) := by
  induction pieces with
  | nil => rfl
  | cons piece rest ih =>
      rw [List.filter_cons]
      by_cases hpiece : piece = []
      · rw [hpiece, if_neg (by simp), ih, cut, if_neg List.not_mem_nil, List.filter_cons,
          if_neg (by simp)]
      · rw [if_pos (decide_eq_true hpiece), cut, cut]
        split
        · rfl
        · rw [List.filter_cons, if_pos (decide_eq_true hpiece), List.filter_cons,
            if_pos (decide_eq_true hpiece), ih]

/-- The fields before an element that is no separator. -/
theorem fields_takeWhile (hc : p c = false) (t : List α) :
    fields p (t.takeWhile (· ≠ c)) = (cut c (fields p t)).filter (· ≠ []) := by
  rw [fields, splitOnP_takeWhile hc, fields, cut_filter]

end Cut

end Fields
