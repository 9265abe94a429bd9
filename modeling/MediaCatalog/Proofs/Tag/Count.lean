import MediaCatalog.CommandLine.PreviewTags
import MediaCatalog.Proofs.Tag.Unchanged

/-!
# Counting — which names a preview counts as decoded

A preview counts the names that ask for their repair (`Tag.AsksForDecoding`), and not those that
decoding changes (`Tag.IsChanged`). The two differ where an escape is written with `X`, which the
decoder does not know, and where the decoder knows an escape that no row is selected for.
-/

namespace MediaCatalog

namespace Escape

/-! ## 1. Escapes that ask, and escapes that the decoder knows -/

theorem HasNoEscape.not_isSpecial_of_pair {c : Char} {text : List Char} (h : HasNoEscape text)
    (hc : ['\\', c] <:+: text) : ¬IsSpecial c := by
  obtain ⟨front, back, rfl⟩ := hc
  obtain ⟨d, hd, hspecial⟩ := h front (c :: back) (by simp)
  exact Option.some.inj hd ▸ hspecial

/-- If decoding changes nothing, only an `X` can have asked for it. -/
theorem IsKept.upper_of_isRaw {found text : List Char} (h : IsKept text) (hraw : IsRaw found)
    (hfound : found <:+: text) : ['\\', 'X'] <+: found := by
  obtain ⟨letter, digits, rfl, hkind, -⟩ := hraw
  have hpair : ['\\', letter] <+: '\\' :: letter :: digits := ⟨digits, rfl⟩
  have hnot := h.1.not_isSpecial_of_pair (hpair.isInfix.trans hfound)
  simp only [List.mem_cons, List.not_mem_nil, or_false] at hkind
  rcases hkind with ⟨rfl | rfl, -⟩ | ⟨rfl | rfl, -⟩
  · exact absurd (by decide) hnot
  · exact hpair
  · exact absurd (by decide) hnot
  · exact absurd (by decide) hnot

theorem isDigitLike_of_isDigit {c : Char} {d : Nat} (h : Text.IsDigit 16 c d) :
    isDigitLike c = true := by
  have hzero : '0'.toNat = 48 := rfl
  have hnine : '9'.toNat = 57 := rfl
  have hlower : 'a'.toNat = 97 ∧ 'f'.toNat = 102 := ⟨rfl, rfl⟩
  have hupper : 'A'.toNat = 65 ∧ 'F'.toNat = 70 := ⟨rfl, rfl⟩
  have hle (c c' : Char) : c ≤ c' ↔ c.toNat ≤ c'.toNat := UInt32.le_iff_toNat_le
  obtain ⟨hlt, ⟨hten, hc⟩ | ⟨hten, hc⟩⟩ := h
  · have hdigit : c.isDigit = true := Char.isDigit_iff_toNat.mpr (by omega)
    exact isDigitLike_iff.mpr (Or.inl (Text.isDecimalDigit_of_isDigit hdigit))
  · refine isDigitLike_iff.mpr (Or.inr ?_)
    simp only [hle]
    omega

/-- An escape with the hexadecimal digits that the decoder takes begins with one that asks. -/
theorem exists_isRaw_of_hex {letter : Char} {width code : Nat} {fault : Fault}
    {digits : List Char} (h : (letter, width, fault) ∈ hexEscapes)
    (numeral : Text.IsNumeral 16 digits code) (length : digits.length = width) :
    ∃ found, IsRaw found ∧ found <+: '\\' :: letter :: digits := by
  have hall : ∀ p ∈ hexEscapes, p.1 ∈ ['x', 'X'] ∧ 2 ≤ p.2.1 ∨ p.1 ∈ ['u', 'U'] ∧ 4 ≤ p.2.1 := by
    decide
  have hdigits (count : Nat) : ∀ c ∈ digits.take count,
      Text.isDecimalDigit c = true ∨ 'a' ≤ c ∧ c ≤ 'f' ∨ 'A' ≤ c ∧ c ≤ 'F' := by
    intro c hc
    obtain ⟨d, hd⟩ := numeral.exists_digit c (List.mem_of_mem_take hc)
    exact isDigitLike_iff.mp (isDigitLike_of_isDigit hd)
  have hprefix (count : Nat) : '\\' :: letter :: digits.take count <+: '\\' :: letter :: digits :=
    ⟨digits.drop count, by simp⟩
  subst length
  rcases hall _ h with ⟨hletter, hwidth⟩ | ⟨hletter, hwidth⟩
  · have hlength := List.length_take_of_le hwidth
    exact ⟨_, ⟨letter, _, rfl, Or.inl ⟨hletter, hlength⟩, hdigits 2⟩, hprefix 2⟩
  · have hlength := List.length_take_of_le hwidth
    exact ⟨_, ⟨letter, _, rfl, Or.inr ⟨hletter, hlength⟩, hdigits 4⟩, hprefix 4⟩

/-- If only these escapes stand in a name, the first of them asks. -/
theorem exists_isRaw_of_unescape {text decoded : List Char}
    (h : unescape (narrow text) = .ok decoded) (hmem : '\\' ∈ text)
    (hpairs : ∀ c, ['\\', c] <:+: text → c ∈ ['x', 'u', 'U']) :
    ∃ found, IsRaw found ∧ found <:+: text := by
  obtain ⟨front, rest, rfl, hfront⟩ := List.eq_append_cons_of_mem hmem
  have hnarrow : narrow (front ++ '\\' :: rest) = narrow front ++ '\\' :: narrow rest :=
    narrow_append front ('\\' :: rest)
  have hback : ¬∃ fault, unescape ('\\' :: narrow rest) = .error fault := by
    rintro ⟨fault, hfault⟩
    rw [hnarrow, unescape_append (spells_self hfront).tokens (notOctal_backslash _), hfault] at h
    cases h
  cases rest with
  | nil => exact absurd ⟨_, unescape_broken .unfinished⟩ hback
  | cons letter rest =>
    have hletter := hpairs letter ⟨front, rest, by simp⟩
    obtain ⟨width, fault, hhex⟩ : ∃ width fault, (letter, width, fault) ∈ hexEscapes := by
      simp only [List.mem_cons, List.not_mem_nil, or_false] at hletter
      rcases hletter with rfl | rfl | rfl
      · exact ⟨2, .shortByte, by decide⟩
      · exact ⟨4, .shortUnit, by decide⟩
      · exact ⟨8, .shortPoint, by decide⟩
    have hle : letter.toNat ≤ 0xFF := by
      have hlt := toNat_lt_of_mem_hexEscapes hhex
      omega
    rw [narrow_cons, narrowChar_of_le hle, List.singleton_append] at hback
    by_cases hdigits : ∃ digits after code, narrow rest = digits ++ after ∧
        digits.length = width ∧ Text.IsNumeral 16 digits code
    · obtain ⟨digits, after, code, hsplit, hlength, numeral⟩ := hdigits
      obtain ⟨back, rfl, -⟩ :=
        exists_of_narrow_eq_append (numeral.backslash_not_mem (by decide)) hsplit
      obtain ⟨found, hraw, hfound⟩ := exists_isRaw_of_hex hhex numeral hlength
      exact ⟨found, hraw, hfound.isInfix.trans ⟨front, back, by simp⟩⟩
    · exact absurd ⟨fault, unescape_broken (.short hhex hdigits)⟩ hback

end Escape

namespace Tag

/-! ## 2. The names of a row -/

/-- The tag has a name that is decoded to another. -/
def IsChanged (tag : Tag) : Prop :=
  ∃ name name', tag.name? = some name ∧ Escape.decode name = .ok name' ∧ name' ≠ name

instance : DecidablePred AsksForDecoding := fun _ => decidable_of_iff _ needsDecoding_iff

theorem isChanged_iff {tag : Tag} : tag.IsChanged ↔
    ∃ name ∈ tag.name?, ∃ name' ∈ (Escape.decode name).toOption, name' ≠ name := by
  have hdecode (name name' : String) :
      name' ∈ (Escape.decode name).toOption ↔ Escape.decode name = .ok name' := by
    cases Escape.decode name <;> simp [Except.toOption]
  simp only [IsChanged, hdecode, Option.mem_def, exists_and_left]

instance : DecidablePred IsChanged := fun _ => decidable_of_iff _ isChanged_iff.symm

theorem isChanged_iff_not_isKept {tag decoded : Tag} (h : tag.Decoded decoded) :
    tag.IsChanged ↔ ¬tag.IsKept := by
  constructor
  · rintro ⟨name, name', hname, hdecode, hne⟩ hkept
    rw [Escape.decode_eq_self_iff.mpr (hkept name hname), Except.ok.injEq] at hdecode
    exact hne hdecode.symm
  · intro hkept
    simp only [IsKept, not_forall] at hkept
    obtain ⟨name, hname, hnot⟩ := hkept
    obtain ⟨name', -, hdecode⟩ := h.exists_name hname
    refine ⟨name, name', hname, hdecode, ?_⟩
    rintro rfl
    exact hnot (Escape.decode_eq_self_iff.mp hdecode)

/-- Every backslash in the name of the tag stands before one of the letters of long escapes. -/
def HasLongEscapes (tag : Tag) : Prop :=
  ∀ name, tag.name? = some name → ∀ c, ['\\', c] <:+: name.toList → c ∈ ['x', 'u', 'U']

theorem asksForDecoding_iff_isChanged {tag decoded : Tag} (h : tag.Decoded decoded)
    (hlong : tag.HasLongEscapes) : tag.AsksForDecoding ↔ tag.IsChanged := by
  rw [isChanged_iff_not_isKept h]
  constructor
  · -- An `X` would stand behind a backslash, and here no backslash stands before one.
    rintro ⟨name, hname, found, hraw, hfound⟩ hkept
    have hupper := (hkept name hname).upper_of_isRaw hraw hfound
    exact absurd (hlong name hname 'X' (hupper.isInfix.trans hfound)) (by decide)
  · intro hkept
    simp only [IsKept, not_forall] at hkept
    obtain ⟨name, hname, hnot⟩ := hkept
    obtain ⟨name', -, hdecode⟩ := h.exists_name hname
    have hmem : '\\' ∈ name.toList := by
      by_contra hplain
      exact hnot (Escape.isKept_of_not_mem hplain)
    rw [Escape.decode_eq_ok_iff, ← Escape.unescape_eq_ok_iff] at hdecode
    exact ⟨name, hname, Escape.exists_isRaw_of_unescape hdecode hmem (hlong name hname)⟩

/-! ## 3. The count -/

theorem exists_decoded_of_preview {tags : List Tag} {p : Preview} (h : preview tags = .ok p)
    (hselected : p.selected = true) : ∀ tag ∈ tags, ∃ decoded, tag.Decoded decoded := by
  have hpreviewed := previewed_of_preview h
  have hrepair := hpreviewed.before ▸ hpreviewed.repaired hselected
  obtain ⟨decoded, hdecoded, -⟩ := repair_eq_ok_iff.mp hrepair
  intro tag htag
  obtain ⟨tag', -, htag'⟩ := exists_decoded_of_mem hdecoded htag
  exact ⟨tag', htag'⟩

theorem decoded_eq_countP {tags : List Tag} {p : Preview} (h : preview tags = .ok p)
    (hselected : p.selected = true) : p.decoded = tags.countP fun tag => tag.AsksForDecoding := by
  have hasks := (previewed_of_preview h).selected.mp hselected
  rw [preview_of_asks hasks] at h
  cases hrepair : repair tags with
  | error u =>
    rw [hrepair] at h
    cases h
  | ok after =>
    rw [hrepair] at h
    cases h
    exact List.countP_congr fun tag _ => by rw [needsDecoding_iff, decide_eq_true_eq]

/-- A preview that selects its row counts, and prints, the tags whose names ask for their repair.
Such a name is changed, unless the escapes that ask are all written with `X`. The count is that of
the changed names if every backslash stands before one of the letters of long escapes. -/
theorem preview_counts_asking {tags : List Tag} {p : Preview} (h : preview tags = .ok p)
    (hselected : p.selected = true) :
    (p.decoded = tags.countP fun tag => tag.AsksForDecoding) ∧
    (∀ number, ∃ items, CommandLine.previewText number p =
      CommandLine.Report.line s!"Row {number}: {p.decoded} decoded, {p.removed} removed" ++
        items) ∧
    (∀ tag ∈ tags, tag.IsChanged ↔ ¬tag.IsKept) ∧
    (∀ tag ∈ tags, tag.AsksForDecoding → ¬tag.IsChanged → ∀ name, tag.name? = some name →
      ∀ found, Escape.IsRaw found → found <:+: name.toList → ['\\', 'X'] <+: found) ∧
    ((∀ tag ∈ tags, tag.HasLongEscapes) →
      p.decoded = tags.countP fun tag => tag.IsChanged) := by
  have hdecoded := exists_decoded_of_preview h hselected
  have hcount := decoded_eq_countP h hselected
  refine ⟨hcount, fun number => ⟨_, if_pos hselected⟩, fun tag htag => ?_, ?_, fun hlong => ?_⟩
  · obtain ⟨tag', htag'⟩ := hdecoded tag htag
    exact isChanged_iff_not_isKept htag'
  · intro tag htag _ hsame name hname found hraw hfound
    obtain ⟨tag', htag'⟩ := hdecoded tag htag
    rw [isChanged_iff_not_isKept htag', not_not] at hsame
    exact (hsame name hname).upper_of_isRaw hraw hfound
  · rw [hcount]
    refine List.countP_congr fun tag htag => ?_
    obtain ⟨tag', htag'⟩ := hdecoded tag htag
    rw [decide_eq_true_eq, decide_eq_true_eq]
    exact asksForDecoding_iff_isChanged htag' (hlong tag htag)

/-- One name is counted and not changed, one is changed and not counted, one is both. -/
theorem preview_counts_asking_letters :
    preview [create "MUS\\XE9O" "flickr" none, create "tab\\there" "flickr" none,
        create "mus\\xe9o" "flickr" none] =
      .ok ⟨true, [create "MUS\\XE9O" "flickr" none, create "tab\\there" "flickr" none,
          create "mus\\xe9o" "flickr" none],
        [create "MUS\\XE9O" "flickr" none, create "tab\there" "flickr" none,
          create "muséo" "flickr" none], 2, 0⟩ ∧
    [create "MUS\\XE9O" "flickr" none, create "tab\\there" "flickr" none,
      create "mus\\xe9o" "flickr" none].countP (fun tag => tag.AsksForDecoding) = 2 := by
  have hpreview : preview [create "MUS\\XE9O" "flickr" none, create "tab\\there" "flickr" none,
        create "mus\\xe9o" "flickr" none] =
      .ok ⟨true, [create "MUS\\XE9O" "flickr" none, create "tab\\there" "flickr" none,
          create "mus\\xe9o" "flickr" none],
        [create "MUS\\XE9O" "flickr" none, create "tab\there" "flickr" none,
          create "muséo" "flickr" none], 2, 0⟩ := by
    decide +kernel
  exact ⟨hpreview, (preview_counts_asking hpreview rfl).1.symm⟩

/-- The count is not that of the names that change: the decoder does not know `X`. -/
theorem preview_counts_unchanged_name :
    ¬∀ (tags : List Tag) (p : Preview), preview tags = .ok p → p.selected = true →
      p.decoded = tags.countP fun tag => tag.IsChanged := by
  have hpreview : preview [⟨some "\\XE9", none, none, []⟩] =
      .ok ⟨true, [⟨some "\\XE9", none, none, []⟩], [⟨some "\\XE9", none, none, []⟩], 1, 0⟩ := by
    decide +kernel
  have hnone : [(⟨some "\\XE9", none, none, []⟩ : Tag)].countP (fun tag => tag.IsChanged) = 0 := by
    decide +kernel
  intro h
  have hcount := h _ _ hpreview rfl
  rw [hnone] at hcount
  exact absurd hcount Nat.one_ne_zero

end Tag

end MediaCatalog
