import Mathlib.Data.List.Infix
import MediaCatalog.Proofs.Text.Blank

/-!
# Words — what is between the blanks of a text

The words of a text are described without a splitter (`Words`), and `words` finds exactly these.
The one-line form puts single spaces between them and has no other blanks (`HasSingleSpaces`).
-/

namespace MediaCatalog.Text

/-- The parts of a text between its runs of blanks, in order. -/
inductive Words : (text : List Char) → (words : List (List Char)) → Prop where
  | nil : Words [] []
  | blank {c : Char} {text : List Char} {words : List (List Char)} (hc : isBlank c = true)
      (more : Words text words) : Words (c :: text) words
  | word {word text : List Char} {words : List (List Char)} (hne : word ≠ [])
      (hword : ∀ c ∈ word, isBlank c = false) (hmaximal : ∀ c ∈ text.head?, isBlank c = true)
      (more : Words text words) : Words (word ++ text) (word :: words)

/-! ## 1. Splitting a text into its words -/

theorem splitWords_of_blank {text : List Char} (h : ∀ c ∈ text.head?, isBlank c = true) :
    (splitWords text).1 = [] := by
  cases text with
  | nil => rfl
  | cons c text =>
    rw [splitWords]
    dsimp only
    rw [if_pos (h c rfl)]

theorem splitWords_append {word : List Char} (hword : ∀ c ∈ word, isBlank c = false)
    (text : List Char) :
    splitWords (word ++ text) = (word ++ (splitWords text).1, (splitWords text).2) := by
  induction word with
  | nil => rfl
  | cons c word ih =>
    obtain ⟨hc, hword⟩ := List.forall_mem_cons.mp hword
    rw [List.cons_append, splitWords, ih hword]
    dsimp only
    rw [if_neg (by simp [hc])]
    rfl

theorem words_blank {c : Char} (hc : isBlank c = true) (text : List Char) :
    words (c :: text) = words text := by
  rw [words, splitWords]
  dsimp only
  rw [if_pos hc]
  rfl

theorem words_word {word text : List Char} (hne : word ≠ [])
    (hword : ∀ c ∈ word, isBlank c = false) (hmaximal : ∀ c ∈ text.head?, isBlank c = true) :
    words (word ++ text) = word :: words text := by
  have hnil := splitWords_of_blank hmaximal
  have hwords : words text = (splitWords text).2 := by
    rw [words, hnil]
    rfl
  rw [words, splitWords_append hword, hnil, List.append_nil, hwords, consWord,
    if_neg (by simpa using hne)]

theorem words_of_words {text : List Char} {ws : List (List Char)} (h : Words text ws) :
    words text = ws := by
  induction h with
  | nil => rfl
  | blank hc _ ih => rw [words_blank hc, ih]
  | word hne hword hmaximal _ ih => rw [words_word hne hword hmaximal, ih]

theorem Words.consWord {word text : List Char} {ws : List (List Char)} (h : Words text ws)
    (hword : ∀ c ∈ word, isBlank c = false) (hmaximal : ∀ c ∈ text.head?, isBlank c = true) :
    Words (word ++ text) (consWord word ws) := by
  cases word with
  | nil => exact h
  | cons c word => exact .word (List.cons_ne_nil c word) hword hmaximal h

/-- The first part of a split is what stands before the first blank, and the others are the words
behind it. -/
theorem exists_behind_splitWords (text : List Char) :
    ∃ rest, text = (splitWords text).1 ++ rest ∧ (∀ c ∈ (splitWords text).1, isBlank c = false) ∧
      (∀ c ∈ rest.head?, isBlank c = true) ∧ Words rest (splitWords text).2 := by
  induction text with
  | nil => exact ⟨[], rfl, by simp [splitWords], by simp, .nil⟩
  | cons c text ih =>
    obtain ⟨rest, htext, hword, hmaximal, hrest⟩ := ih
    rw [splitWords]
    dsimp only
    by_cases hc : isBlank c = true
    · -- What stood before the first blank of the rest is a word now, if there was anything.
      rw [if_pos hc]
      refine ⟨c :: text, rfl, by simp, by simpa using hc, .blank hc ?_⟩
      have hwords := hrest.consWord hword hmaximal
      rwa [← htext] at hwords
    · rw [if_neg hc]
      rw [Bool.not_eq_true] at hc
      exact ⟨rest, congrArg (c :: ·) htext, List.forall_mem_cons.mpr ⟨hc, hword⟩, hmaximal, hrest⟩

theorem words_iff {text : List Char} {ws : List (List Char)} :
    Words text ws ↔ words text = ws := by
  refine ⟨words_of_words, ?_⟩
  rintro rfl
  obtain ⟨rest, htext, hword, hmaximal, hrest⟩ := exists_behind_splitWords text
  have hwords := hrest.consWord hword hmaximal
  rwa [← htext] at hwords

/-- A word has characters, and none of them is a blank. -/
def IsWord (word : List Char) : Prop :=
  word ≠ [] ∧ ∀ c ∈ word, isBlank c = false

theorem Words.isWord {text : List Char} {ws : List (List Char)} (h : Words text ws) :
    ∀ w ∈ ws, IsWord w := by
  induction h with
  | nil => simp
  | blank _ _ ih => exact ih
  | word hne hword _ _ ih => exact List.forall_mem_cons.mpr ⟨⟨hne, hword⟩, ih⟩

/-! ## 2. The one-line form -/

/-- Every blank is a space, and no two of them stand together. -/
structure HasSingleSpaces (text : List Char) : Prop where
  space : ∀ c ∈ text, isBlank c = true → c = ' '
  single : ¬[' ', ' '] <:+: text

theorem oneLine_toList (text : String) :
    (oneLine text).toList = [' '].intercalate (words text.toList) := by
  have hlist : ((words text.toList).map String.ofList).map String.toList = words text.toList := by
    simp
  rw [oneLine, String.toList_intercalate, hlist]
  rfl

/-- What is done at every separator by itself is done part by part. -/
theorem map_intercalate {f : List Char → List Char} {sep : Char} (hnil : f [] = [])
    (h : ∀ front back, f (front ++ sep :: back) = f front ++ sep :: f back)
    (parts : List (List Char)) : f ([sep].intercalate parts) = [sep].intercalate (parts.map f) := by
  induction parts with
  | nil => exact hnil
  | cons part parts ih =>
    cases parts with
    | nil => simp
    | cons next parts =>
      show _ = [sep].intercalate (f part :: (next :: parts).map f)
      rw [List.intercalate_cons_cons, List.append_assoc, List.singleton_append, h, ih,
        List.intercalate_cons_of_ne_nil (by simp), List.append_assoc, List.singleton_append]

theorem intercalate_concat {sep : Char} {parts : List (List Char)} (hne : parts ≠ [])
    (last : List Char) :
    [sep].intercalate (parts ++ [last]) = [sep].intercalate parts ++ sep :: last := by
  induction parts with
  | nil => exact absurd rfl hne
  | cons part parts ih =>
    cases parts with
    | nil => simp
    | cons next parts =>
      rw [List.cons_append, List.cons_append, List.intercalate_cons_cons, ← List.cons_append,
        ih (List.cons_ne_nil next parts), List.intercalate_cons_cons]
      simp only [List.append_assoc]

namespace HasSingleSpaces

theorem word {text : List Char} (h : ∀ c ∈ text, isBlank c = false) : HasSingleSpaces text := by
  constructor
  · intro c hc hblank
    rw [h c hc] at hblank
    cases hblank
  · intro hspaces
    exact absurd (h ' ' (hspaces.subset List.mem_cons_self)) (by decide)

/-- A word, and a text behind a space that begins with a word. -/
theorem append {word text : List Char} (hword : ∀ c ∈ word, isBlank c = false)
    (hfirst : ∀ c ∈ text.head?, isBlank c = false) (h : HasSingleSpaces text) :
    HasSingleSpaces (word ++ ' ' :: text) := by
  constructor
  · intro c hc hblank
    rcases List.mem_append.mp hc with hc | hc
    · rw [hword c hc] at hblank
      cases hblank
    · exact (List.mem_cons.mp hc).elim id fun hc => h.space c hc hblank
  · intro hspaces
    -- By induction on the word: two spaces that stand together are not in it.
    induction word with
    | nil =>
      rcases List.infix_cons_iff.mp hspaces with hspaces | hspaces
      · obtain ⟨rest, hrest⟩ := (List.cons_prefix_cons.mp hspaces).2
        exact absurd (hfirst ' ' (hrest ▸ rfl)) (by decide)
      · exact h.single hspaces
    | cons c word ih =>
      obtain ⟨hc, hword⟩ := List.forall_mem_cons.mp hword
      rcases List.infix_cons_iff.mp hspaces with hspaces | hspaces
      · obtain ⟨rfl, -⟩ := List.cons_prefix_cons.mp hspaces
        exact absurd hc (by decide)
      · exact ih hword hspaces

theorem intercalate {ws : List (List Char)} (h : ∀ w ∈ ws, IsWord w) :
    HasSingleSpaces ([' '].intercalate ws) := by
  induction ws with
  | nil => exact word (by simp)
  | cons w ws ih =>
    obtain ⟨hw, hws⟩ := List.forall_mem_cons.mp h
    cases ws with
    | nil =>
      rw [List.intercalate_singleton]
      exact word hw.2
    | cons next ws =>
      obtain ⟨⟨hne, hnext⟩, -⟩ := List.forall_mem_cons.mp hws
      obtain ⟨c, next, rfl⟩ := List.exists_cons_of_ne_nil hne
      have hfirst : ∀ d ∈ ([' '].intercalate ((c :: next) :: ws)).head?, isBlank d = false := by
        cases ws <;> simp [hnext c]
      rw [List.intercalate_cons_cons, List.append_assoc, List.singleton_append]
      exact append hw.2 hfirst (ih hws)

end HasSingleSpaces

end MediaCatalog.Text
