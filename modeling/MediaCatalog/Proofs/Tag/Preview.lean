import MediaCatalog.Proofs.Tag.Repair

/-!
# Previews — which rows are repaired, and what is told of them

A row is repaired if the name of some tag holds an escape as the database looks for it
(`Escape.IsRaw`), whether or not the decoder knows this escape. A preview of such a row fails as the
repair does, and tells how many tags the repair removes; any other row is shown as it is.
-/

namespace MediaCatalog

namespace Escape

/-! ## 1. Names that ask for decoding -/

/-- A backslash with `x` and two digits or with `u` and four. The letter is in either case, and a
digit is a hexadecimal letter in either case or a decimal digit of any script. -/
def IsRaw (text : List Char) : Prop :=
  ∃ letter digits, text = '\\' :: letter :: digits ∧
    (letter ∈ ['x', 'X'] ∧ digits.length = 2 ∨ letter ∈ ['u', 'U'] ∧ digits.length = 4) ∧
      ∀ c ∈ digits, Text.isDecimalDigit c = true ∨ 'a' ≤ c ∧ c ≤ 'f' ∨ 'A' ≤ c ∧ c ≤ 'F'

theorem isDigitLike_iff {c : Char} : isDigitLike c = true ↔
    Text.isDecimalDigit c = true ∨ 'a' ≤ c ∧ c ≤ 'f' ∨ 'A' ≤ c ∧ c ≤ 'F' := by
  simp [isDigitLike, or_assoc]

theorem startsWithDigits_iff {count : Nat} {text : List Char} :
    startsWithDigits count text = true ↔ ∃ digits rest, text = digits ++ rest ∧
      digits.length = count ∧ ∀ c ∈ digits, isDigitLike c = true := by
  rw [startsWithDigits, Bool.and_eq_true, decide_eq_true_eq, List.all_eq_true]
  constructor
  · rintro ⟨hlength, hall⟩
    exact ⟨text.take count, text.drop count, (List.take_append_drop count text).symm,
      List.length_take_of_le hlength, hall⟩
  · rintro ⟨digits, rest, rfl, rfl, hall⟩
    rw [List.take_left]
    exact ⟨by simp, hall⟩

theorem startsWithEscape_backslash {letter : Char} {rest : List Char} :
    startsWithEscape ('\\' :: letter :: rest) = true ↔
      letter ∈ ['x', 'X'] ∧ startsWithDigits 2 rest = true ∨
        letter ∈ ['u', 'U'] ∧ startsWithDigits 4 rest = true := by
  simp [startsWithEscape]

theorem startsWithEscape_iff {text : List Char} :
    startsWithEscape text = true ↔ ∃ found, IsRaw found ∧ found <+: text := by
  constructor
  · intro h
    have hshape : ∃ letter rest, text = '\\' :: letter :: rest := by
      unfold startsWithEscape at h
      split at h
      next letter rest => exact ⟨letter, rest, rfl⟩
      next => cases h
    obtain ⟨letter, rest, rfl⟩ := hshape
    rw [startsWithEscape_backslash, startsWithDigits_iff, startsWithDigits_iff] at h
    rcases h with ⟨hletter, digits, back, rfl, hlength, hall⟩ |
      ⟨hletter, digits, back, rfl, hlength, hall⟩
    · exact ⟨_, ⟨letter, digits, rfl, Or.inl ⟨hletter, hlength⟩,
        fun c hc => isDigitLike_iff.mp (hall c hc)⟩, back, rfl⟩
    · exact ⟨_, ⟨letter, digits, rfl, Or.inr ⟨hletter, hlength⟩,
        fun c hc => isDigitLike_iff.mp (hall c hc)⟩, back, rfl⟩
  · rintro ⟨_, ⟨letter, digits, rfl, hkind, hall⟩, back, rfl⟩
    have hdigits : startsWithDigits digits.length (digits ++ back) = true :=
      startsWithDigits_iff.mpr
        ⟨digits, back, rfl, rfl, fun c hc => isDigitLike_iff.mpr (hall c hc)⟩
    refine startsWithEscape_backslash.mpr ?_
    rcases hkind with ⟨hletter, hlength⟩ | ⟨hletter, hlength⟩
    · rw [hlength] at hdigits
      exact Or.inl ⟨hletter, hdigits⟩
    · rw [hlength] at hdigits
      exact Or.inr ⟨hletter, hdigits⟩

/-- The search looks at every place of a text. -/
theorem containsEscape_iff {text : List Char} :
    containsEscape text = true ↔ ∃ found, IsRaw found ∧ found <:+: text := by
  induction text with
  | nil =>
    refine iff_of_false (by simp [containsEscape]) ?_
    rintro ⟨found, ⟨letter, digits, rfl, -⟩, hfound⟩
    exact absurd (List.eq_nil_of_infix_nil hfound) (by simp)
  | cons c text ih =>
    rw [containsEscape, Bool.or_eq_true, startsWithEscape_iff, ih]
    simp only [List.infix_cons_iff, and_or_left, exists_or]

theorem needsDecoding_iff {name : String} :
    needsDecoding name = true ↔ ∃ found, IsRaw found ∧ found <:+: name.toList :=
  containsEscape_iff

end Escape

namespace Tag

/-- The tag has a name that holds an escape, as the database looks for it. -/
def AsksForDecoding (tag : Tag) : Prop :=
  ∃ name, tag.name? = some name ∧ ∃ found, Escape.IsRaw found ∧ found <:+: name.toList

theorem needsDecoding_iff {tag : Tag} : tag.needsDecoding = true ↔ tag.AsksForDecoding := by
  rw [needsDecoding, AsksForDecoding]
  cases tag.name? with
  | none => simp
  | some name => simp [Escape.needsDecoding_iff]

theorem any_needsDecoding_iff {tags : List Tag} :
    tags.any needsDecoding = true ↔ ∃ tag ∈ tags, tag.AsksForDecoding := by
  simp only [List.any_eq_true, needsDecoding_iff]

/-! ## 2. How many tags are removed -/

/-- How many tags have a key that an earlier tag has. -/
def repeats {κ : Type} [DecidableEq κ] (key : Tag → κ) (tags : List Tag) : Nat :=
  (tags.zip tags.inits).countP fun p => key p.1 ∈ p.2.map key

theorem repeats_add_length_firstOfEach {κ : Type} [DecidableEq κ] (key : Tag → κ)
    (tags : List Tag) : repeats key tags + (firstOfEach key tags).length = tags.length := by
  have hlength : (tags.zip tags.inits).length = tags.length := by
    rw [List.length_zip, List.length_inits]
    omega
  have hsplit := List.length_eq_countP_add_countP (fun p => decide (key p.1 ∈ p.2.map key))
    (l := tags.zip tags.inits)
  rw [repeats, firstOfEach, List.length_map, ← List.countP_eq_length_filter, ← hlength, hsplit]
  simp only [decide_eq_true_eq]

/-! ## 3. The preview of a row -/

/-- What the preview of a row tells. -/
structure Previewed (tags : List Tag) (p : Preview) : Prop where
  before : p.before = tags
  selected : p.selected = true ↔ ∃ tag ∈ tags, tag.AsksForDecoding
  /-- A row that is not selected stays as it is, whatever its names and its duplicates. -/
  unchanged : p.selected = false → p.after = p.before ∧ p.decoded = 0 ∧ p.removed = 0
  repaired : p.selected = true → repair p.before = .ok p.after
  removed : p.selected = true → ∃ decoded, List.Forall₂ Decoded p.before decoded ∧
    p.removed = repeats key decoded
  /-- The count of the removed tags is that of those which are missing. -/
  removed_add : p.removed + p.after.length = p.before.length

theorem preview_of_asks {tags : List Tag} (h : ∃ tag ∈ tags, tag.AsksForDecoding) :
    preview tags = (repair tags).map fun after =>
      ⟨true, tags, after, tags.countP needsDecoding, tags.length - after.length⟩ := by
  rw [preview, if_pos (any_needsDecoding_iff.mpr h)]
  cases repair tags <;> rfl

theorem preview_of_not_asks {tags : List Tag} (h : ¬∃ tag ∈ tags, tag.AsksForDecoding) :
    preview tags = .ok ⟨false, tags, tags, 0, 0⟩ := by
  rw [preview, if_neg (any_needsDecoding_iff.not.mpr h)]

theorem preview_eq_error_iff {tags : List Tag} {u : Undecodable} :
    preview tags = .error u ↔ (∃ tag ∈ tags, tag.AsksForDecoding) ∧ repair tags = .error u := by
  by_cases h : ∃ tag ∈ tags, tag.AsksForDecoding
  · rw [preview_of_asks h]
    cases repair tags <;> simp [Except.map, h]
  · rw [preview_of_not_asks h]
    simp [h]

/-- What a repair leaves is as much as the tags without those whose key an earlier tag has. -/
theorem exists_repeats_of_repair {tags after : List Tag} (h : repair tags = .ok after) :
    ∃ decoded, List.Forall₂ Decoded tags decoded ∧
      repeats key decoded + after.length = tags.length := by
  obtain ⟨decoded, hdecoded, rfl⟩ := repair_eq_ok_iff.mp h
  refine ⟨decoded, hdecoded, ?_⟩
  rw [keepFirst_nil, repeats_add_length_firstOfEach, hdecoded.length_eq]

theorem previewed_of_preview {tags : List Tag} {p : Preview} (h : preview tags = .ok p) :
    Previewed tags p := by
  by_cases hasks : ∃ tag ∈ tags, tag.AsksForDecoding
  · rw [preview_of_asks hasks] at h
    cases hrepair : repair tags with
    | error u =>
      rw [hrepair] at h
      cases h
    | ok after =>
      rw [hrepair] at h
      cases h
      obtain ⟨decoded, hdecoded, hcount⟩ := exists_repeats_of_repair hrepair
      have hremoved : tags.length - after.length = repeats key decoded := by omega
      have hadd : tags.length - after.length + after.length = tags.length := by omega
      exact {
        before := rfl
        selected := iff_of_true rfl hasks
        unchanged := fun h => by cases h
        repaired := fun _ => hrepair
        removed := fun _ => ⟨decoded, hdecoded, hremoved⟩
        removed_add := hadd }
  · rw [preview_of_not_asks hasks] at h
    cases h
    exact {
      before := rfl
      selected := iff_of_false Bool.false_ne_true hasks
      unchanged := fun _ => ⟨rfl, rfl, rfl⟩
      repaired := fun h => by cases h
      removed := fun h => by cases h
      removed_add := Nat.zero_add _ }

/-- A preview fails exactly if the row asks for its repair and some name of it cannot be decoded,
which need not be the name that asks, and then as the repair does. Otherwise it tells what the
repair makes of the row, and how many tags it removes. -/
theorem preview_characterized (tags : List Tag) :
    ((∃ u, preview tags = .error u) ↔ (∃ tag ∈ tags, tag.AsksForDecoding) ∧
      ∃ tag ∈ tags, ∃ u, tag.IsUndecodable u) ∧
    (∀ u, preview tags = .error u → repair tags = .error u) ∧
    ∀ p, preview tags = .ok p → Previewed tags p := by
  refine ⟨?_, fun u h => (preview_eq_error_iff.mp h).2, fun p h => previewed_of_preview h⟩
  simp only [preview_eq_error_iff, exists_and_left, exists_repair_error_iff]

end Tag

end MediaCatalog
