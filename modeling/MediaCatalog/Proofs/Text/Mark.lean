import Mathlib.Data.List.Infix

/-!
# Marks — where a mark stands in a text, and what becomes of it

An occurrence of a mark does not reach over a character that the mark lacks
(`infix_append_cons_iff`). So a mark behind such a character is the only one if there is none
before it (`OnlyAtEnd.append_cons`). Replacing a mark is described without a procedure
(`Replaced`).
-/

namespace MediaCatalog.Text
variable {mark back : List Char} {sep : Char}

/-! ## 1. Occurrences -/

theorem prefix_of_prefix_append_cons (hsep : sep ∉ mark) (front : List Char)
    (h : mark <+: front ++ sep :: back) : mark <+: front := by
  rcases List.prefix_or_prefix_of_prefix h (List.prefix_append front (sep :: back)) with
    h' | ⟨rest, rfl⟩
  · exact h'
  · -- A mark that is longer than the front goes on with the separator.
    rw [List.prefix_append_right_inj] at h
    cases rest with
    | nil => rw [List.append_nil]
    | cons c rest =>
      obtain ⟨rfl, -⟩ := List.cons_prefix_cons.mp h
      exact absurd (List.mem_append_right front List.mem_cons_self) hsep

theorem infix_append_cons_iff (hsep : sep ∉ mark) {front : List Char} :
    mark <:+: front ++ sep :: back ↔ mark <:+: front ∨ mark <:+: back := by
  constructor
  · intro h
    induction front with
    | nil =>
      rcases List.infix_cons_iff.mp h with h | h
      · exact Or.inl (prefix_of_prefix_append_cons hsep [] h).isInfix
      · exact Or.inr h
    | cons c front ih =>
      rcases List.infix_cons_iff.mp h with h | h
      · exact Or.inl (prefix_of_prefix_append_cons hsep (c :: front) h).isInfix
      · exact (ih h).imp_left List.infix_cons
  · rintro (h | h)
    · exact h.trans (List.prefix_append front (sep :: back)).isInfix
    · exact h.trans ((List.suffix_cons sep back).trans (List.suffix_append front _)).isInfix

/-- The mark stands in the text once, and that is at its end. -/
structure OnlyAtEnd (mark text : List Char) : Prop where
  atEnd : mark <:+ text
  once : ∀ front back, text = front ++ mark ++ back → back = []

theorem OnlyAtEnd.append_cons (hsep : sep ∉ mark) {front : List Char} (h : ¬mark <:+: front) :
    OnlyAtEnd mark (front ++ sep :: mark) := by
  have hne : mark ≠ [] := by
    rintro rfl
    exact h List.nil_infix
  refine ⟨(List.suffix_cons sep mark).trans (List.suffix_append front _), ?_⟩
  intro before after htext
  by_contra hafter
  -- An occurrence that is not at the end is one in the text without its last character.
  have hdropped : mark <:+: (front ++ sep :: mark).dropLast := by
    rw [htext, List.dropLast_append_of_ne_nil hafter]
    exact List.infix_append before mark after.dropLast
  rw [List.dropLast_append_of_ne_nil (List.cons_ne_nil sep mark),
    List.dropLast_cons_of_ne_nil hne, infix_append_cons_iff hsep] at hdropped
  rcases hdropped with hfront | hmark
  · exact h hfront
  · have hlength := hmark.length_le
    have hpos := List.length_pos_iff.mpr hne
    rw [List.length_dropLast] at hlength
    omega

/-! ## 2. Replacement -/

/-- Every occurrence of a mark is replaced: the first, and those in the rest of the text behind
it. The first may overlap others, but none that begins before it. -/
inductive Replaced (mark instead : List Char) : (text replaced : List Char) → Prop where
  | none {text : List Char} (hnone : ¬mark <:+: text) : Replaced mark instead text text
  | first {front text replaced : List Char} (hfirst : ¬mark <:+: front ++ mark.dropLast)
      (more : Replaced mark instead text replaced) :
      Replaced mark instead (front ++ mark ++ text) (front ++ instead ++ replaced)

/-- An occurrence that begins before another ends before the last character of that. -/
theorem prefix_cons_append_iff {c : Char} {front text : List Char} :
    mark <+: c :: (front ++ mark ++ text) ↔ mark <+: c :: (front ++ mark.dropLast) := by
  have hdropped : c :: (front ++ mark.dropLast) <+: c :: (front ++ mark ++ text) := by
    rw [List.cons_prefix_cons, List.append_assoc, List.prefix_append_right_inj]
    exact ⟨rfl, (List.dropLast_prefix mark).trans (List.prefix_append mark text)⟩
  constructor
  · intro h
    refine List.prefix_of_prefix_length_le h hdropped ?_
    rw [List.length_cons, List.length_append, List.length_dropLast]
    omega
  · exact fun h => h.trans hdropped

/-- A character before a text is kept if no occurrence begins with it. -/
theorem Replaced.cons {instead text replaced : List Char}
    (h : Replaced mark instead text replaced) {c : Char} (hc : ¬mark <+: c :: text) :
    Replaced mark instead (c :: text) (c :: replaced) := by
  cases h with
  | none hnone => exact .none (mt List.infix_cons_iff.mp (not_or.mpr ⟨hc, hnone⟩))
  | @first front text replaced hfirst more =>
    show Replaced mark instead ((c :: front) ++ mark ++ text) ((c :: front) ++ instead ++ replaced)
    refine .first ?_ more
    rw [List.cons_append, List.infix_cons_iff, not_or]
    exact ⟨mt prefix_cons_append_iff.mpr hc, hfirst⟩

end MediaCatalog.Text
