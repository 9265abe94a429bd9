import MediaCatalog.Text.Blank

/-!
# White space — the one-line form of a text

The words of a text hold all of its characters that are not blank, in order (`flatten_words`), and
none of them is empty. So the one-line form has no blanks but single spaces, and it is empty just
when the whole text is blank. Of two texts one behind the other only the second is trimmed at its
end (`trimEnd_append`).
-/

namespace MediaCatalog.Text

theorem flatten_consWord (word : List Char) (words : List (List Char)) :
    (consWord word words).flatten = word ++ words.flatten := by
  cases word <;> rfl

theorem ne_nil_of_mem_consWord {word w : List Char} {words : List (List Char)}
    (h : w ∈ consWord word words) : w ≠ [] ∨ w ∈ words := by
  unfold consWord at h
  cases word with
  | nil => exact Or.inr h
  | cons c word =>
    rcases List.mem_cons.mp h with rfl | h
    · exact Or.inl (List.cons_ne_nil c word)
    · exact Or.inr h

theorem flatten_splitWords (text : List Char) :
    (splitWords text).1 ++ (splitWords text).2.flatten = text.filter fun c => !isBlank c := by
  induction text with
  | nil => rfl
  | cons c rest ih =>
    rw [splitWords]
    dsimp only
    cases hblank : isBlank c with
    | true =>
      rw [if_pos rfl, List.filter_cons_of_neg (by simp [hblank]), flatten_consWord, ih]
      rfl
    | false =>
      rw [if_neg Bool.false_ne_true, List.filter_cons_of_pos (by simp [hblank]), List.cons_append,
        ih]

theorem ne_nil_of_mem_splitWords {text w : List Char} (h : w ∈ (splitWords text).2) : w ≠ [] := by
  induction text with
  | nil => cases h
  | cons c rest ih =>
    rw [splitWords] at h
    dsimp only at h
    split at h
    · exact (ne_nil_of_mem_consWord h).elim id ih
    · exact ih h

theorem flatten_words (text : List Char) :
    (words text).flatten = text.filter fun c => !isBlank c := by
  rw [words, flatten_consWord, flatten_splitWords]

theorem ne_nil_of_mem_words {text w : List Char} (h : w ∈ words text) : w ≠ [] :=
  (ne_nil_of_mem_consWord h).elim id ne_nil_of_mem_splitWords

/-- The text has no characters but blanks. -/
def AllBlank (text : String) : Prop :=
  ∀ c ∈ text.toList, isBlank c = true

instance (text : String) : Decidable (AllBlank text) :=
  List.decidableBAll _ text.toList

theorem allBlank_append {front back : String} :
    AllBlank (front ++ back) ↔ AllBlank front ∧ AllBlank back := by
  rw [AllBlank, String.toList_append, List.forall_mem_append]
  rfl

theorem not_allBlank_iff {text : String} :
    ¬AllBlank text ↔ ∃ c ∈ text.toList, isBlank c = false := by
  simp [AllBlank]

theorem of_mem_intercalate {sep : String} {parts : List String} {c : Char}
    (h : c ∈ (sep.intercalate parts).toList) :
    c ∈ sep.toList ∨ ∃ part ∈ parts, c ∈ part.toList := by
  induction parts with
  | nil => simp at h
  | cons part rest ih =>
    cases rest with
    | nil => exact Or.inr ⟨part, List.mem_cons_self, by simpa using h⟩
    | cons next rest =>
      rw [String.intercalate_cons_cons, String.toList_append, String.toList_append,
        List.mem_append, List.mem_append] at h
      obtain (h | h) | h := h
      · exact Or.inr ⟨part, List.mem_cons_self, h⟩
      · exact Or.inl h
      · exact (ih h).imp_right fun ⟨p, hp, hc⟩ => ⟨p, List.mem_cons_of_mem part hp, hc⟩

theorem mem_intercalate_of_mem {sep : String} {parts : List String} {part : String} {c : Char}
    (hpart : part ∈ parts) (hc : c ∈ part.toList) : c ∈ (sep.intercalate parts).toList := by
  induction parts with
  | nil => cases hpart
  | cons first rest ih =>
    cases rest with
    | nil =>
      rw [List.mem_singleton] at hpart
      simpa [hpart] using hc
    | cons next rest =>
      rw [String.intercalate_cons_cons, String.toList_append, List.mem_append]
      rcases List.mem_cons.mp hpart with rfl | hpart
      · exact Or.inl (by simp [hc])
      · exact Or.inr (ih hpart)

theorem mem_oneLine {text : String} {c : Char} (h : c ∈ (oneLine text).toList) :
    c = ' ' ∨ c ∈ text.toList ∧ isBlank c = false := by
  rcases of_mem_intercalate h with h | ⟨part, hpart, hc⟩
  · exact Or.inl (List.mem_singleton.mp h)
  · obtain ⟨w, hw, rfl⟩ := List.mem_map.mp hpart
    rw [String.toList_ofList] at hc
    have hmem := List.mem_flatten_of_mem hw hc
    rw [flatten_words, List.mem_filter, Bool.not_eq_true'] at hmem
    exact Or.inr hmem

theorem mem_oneLine_of_mem {text : String} {c : Char} (h : c ∈ text.toList)
    (hc : isBlank c = false) : c ∈ (oneLine text).toList := by
  have hmem : c ∈ (words text.toList).flatten := by
    rw [flatten_words, List.mem_filter, Bool.not_eq_true']
    exact ⟨h, hc⟩
  obtain ⟨w, hw, hc⟩ := List.mem_flatten.mp hmem
  exact mem_intercalate_of_mem (List.mem_map_of_mem hw) (by rwa [String.toList_ofList])

theorem oneLine_eq_empty_iff {text : String} : oneLine text = "" ↔ AllBlank text := by
  constructor
  · intro h c hc
    cases hblank : isBlank c with
    | true => rfl
    | false =>
      have hmem := mem_oneLine_of_mem hc hblank
      rw [h] at hmem
      cases hmem
  · intro h
    have hnil : words text.toList = [] := by
      refine List.eq_nil_iff_forall_not_mem.mpr fun w hw => ne_nil_of_mem_words hw ?_
      refine List.eq_nil_iff_forall_not_mem.mpr fun c hc => ?_
      have hmem := List.mem_flatten_of_mem hw hc
      rw [flatten_words, List.mem_filter] at hmem
      simp [h c hmem.1] at hmem
    rw [oneLine, hnil]
    rfl

/-- At the start there is nothing to drop. -/
theorem trim_eq_trimEnd {text : String} (h : ∃ c ∈ text.toList.head?, isBlank c = false) :
    trim text = trimEnd text := by
  obtain ⟨c, hc, hblank⟩ := h
  obtain ⟨rest, hrest⟩ := List.head?_eq_some_iff.mp hc
  have hstart : text.toList.dropWhile isBlank = text.toList := by
    rw [hrest]
    exact List.dropWhile_cons_of_neg (by simp [hblank])
  rw [trim, hstart, trimEnd]

/-- Only the last part of a text is trimmed, if something is left of it. -/
theorem trimEnd_append (front : String) {back : String} (h : trimEnd back ≠ "") :
    trimEnd (front ++ back) = front ++ trimEnd back := by
  have hback : (back.toList.reverse.dropWhile isBlank).isEmpty = false := by
    rw [List.isEmpty_eq_false_iff]
    intro hnil
    exact h (by rw [trimEnd, hnil]; rfl)
  rw [← String.toList_inj, String.toList_append, trimEnd, trimEnd, String.toList_ofList,
    String.toList_ofList, String.toList_append, List.reverse_append, List.dropWhile_append, hback]
  simp

end MediaCatalog.Text
