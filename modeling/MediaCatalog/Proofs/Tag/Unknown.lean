import MediaCatalog.Proofs.Tag.Spelling

/-!
# Unknown escapes — what becomes of a backslash without a meaning

A backslash that gives the character behind it no meaning is kept, and so is the character. But a
name is narrowed first: a character beyond U+00FF is then an escape with a backslash of its own, and
two backslashes are the escape of one. So behind such a backslash the letters of its escape are
kept, and the character itself is lost (`spellOut`).
-/

namespace MediaCatalog.Escape

/-! ## 1. Texts without an escape -/

/-- Every backslash has a character behind it that it gives no meaning. -/
def HasNoEscape (text : List Char) : Prop :=
  ∀ front rest, text = front ++ '\\' :: rest → ∃ c, rest.head? = some c ∧ ¬IsSpecial c

/-- A character beyond U+00FF behind a backslash is written as the escape that narrowing makes of
it, and the backslash is that of the escape. -/
def spellOut : List Char → List Char
  | [] => []
  | '\\' :: c :: rest => (if c.toNat ≤ 0xFF then ['\\', c] else narrowChar c) ++ spellOut rest
  | c :: rest => c :: spellOut rest

theorem isSpecial_iff {c : Char} : IsSpecial c ↔ c = '\n' ∨ (simple? c).isSome ∨
    (Text.digitIn? 8 c).isSome ∨ c ∈ ['x', 'u', 'U', 'N'] := by
  simp only [IsSpecial, isOctal_iff, ← simple?_eq_some_iff, Option.isSome_iff_exists]

instance : DecidablePred IsSpecial := fun _ => decidable_of_iff _ isSpecial_iff.symm

theorem ne_backslash_of_not_isSpecial {c : Char} (h : ¬IsSpecial c) : c ≠ '\\' := by
  rintro rfl
  exact h (by decide)

namespace HasNoEscape
variable {c : Char} {text : List Char}

theorem nil : HasNoEscape [] := by
  intro front rest hsplit
  simp at hsplit

theorem plain (hc : c ≠ '\\') (h : HasNoEscape text) : HasNoEscape (c :: text) := by
  intro front rest hsplit
  cases front with
  | nil => exact absurd (List.cons.inj hsplit).1 hc
  | cons _ front => exact h front rest (List.cons.inj hsplit).2

theorem unknown (hc : ¬IsSpecial c) (h : HasNoEscape text) : HasNoEscape ('\\' :: c :: text) := by
  intro front rest hsplit
  cases front with
  | nil =>
    rw [← (List.cons.inj hsplit).2]
    exact ⟨c, rfl, hc⟩
  | cons _ front =>
    exact plain (ne_backslash_of_not_isSpecial hc) h front rest (List.cons.inj hsplit).2

theorem tail (h : HasNoEscape (c :: text)) : HasNoEscape text := by
  intro front rest hsplit
  rw [hsplit] at h
  exact h (c :: front) rest rfl

theorem not_isSpecial (h : HasNoEscape ('\\' :: c :: text)) : ¬IsSpecial c := by
  obtain ⟨d, hd, hspecial⟩ := h [] _ rfl
  rwa [← Option.some.inj hd] at hspecial

/-- A backslash is never the last character. -/
theorem ne_backslash (h : HasNoEscape (c :: text))
    (hpair : ∀ d rest, c = '\\' → text = d :: rest → False) : c ≠ '\\' := by
  rintro rfl
  obtain ⟨d, hd, -⟩ := h [] text rfl
  obtain ⟨rest, rfl⟩ := List.head?_eq_some_iff.mp hd
  exact hpair d rest rfl rfl

end HasNoEscape

/-! ## 2. Decoding them -/

theorem unescape_narrow_plain {c : Char} (hc : c ≠ '\\') (rest : List Char) :
    unescape (narrow (c :: rest)) = (unescape (narrow rest)).map ([c] ++ ·) :=
  unescape_token (.narrowChar hc (narrow rest))

theorem unescape_narrow_unknown {c : Char} (hc : ¬IsSpecial c) (rest : List Char) :
    unescape (narrow ('\\' :: c :: rest)) = (unescape (narrow rest)).map
      ((if c.toNat ≤ 0xFF then ['\\', c] else narrowChar c) ++ ·) := by
  have hback : narrow ('\\' :: c :: rest) = '\\' :: (narrowChar c ++ narrow rest) := rfl
  by_cases hnarrow : c.toNat ≤ 0xFF
  · have hescape : escape c (narrow rest) = _ := escape_of_not_isSpecial hc
    rw [hback, if_pos hnarrow, narrowChar_of_le hnarrow, List.singleton_append,
      unescape_of_escape hescape]
  · -- The backslash of the text and that of the escape are one escape, the rest is plain.
    obtain ⟨letter, _, _, digits, hwide, hletter, numeral, -⟩ := exists_narrowChar hnarrow
    have hplain := backslash_not_mem_of_mem_hexEscapes hletter numeral
    have hescape : escape '\\' (letter :: digits ++ narrow rest) = _ := escape_of_simple rfl
    rw [hback, if_neg hnarrow, hwide, List.cons_append, unescape_of_escape hescape,
      unescape_plain_append hplain, map_append_map]
    rfl

theorem unescape_of_hasNoEscape {text : List Char} (h : HasNoEscape text) :
    unescape (narrow text) = .ok (spellOut text) := by
  fun_induction spellOut text with
  | case1 => rw [narrow, List.flatMap_nil, unescape]
  | case2 c rest ih =>
    rw [unescape_narrow_unknown h.not_isSpecial, ih h.tail.tail]
    rfl
  | case3 c rest hpair ih =>
    rw [unescape_narrow_plain (h.ne_backslash hpair), ih h.tail]
    rfl

/-- Nothing is spelled out exactly if no backslash stands before a character beyond U+00FF. -/
theorem spellOut_eq_self_iff {text : List Char} (h : HasNoEscape text) :
    spellOut text = text ↔ ∀ c, ['\\', c] <:+: text → c.toNat ≤ 0xFF := by
  fun_induction spellOut text with
  | case1 => simp
  | case2 c rest ih =>
    by_cases hc : c.toNat ≤ 0xFF
    · -- What stands behind a backslash here is `c`, or stands so in the rest of the text.
      have hne := ne_backslash_of_not_isSpecial h.not_isSpecial
      have hpairs (d : Char) :
          ['\\', d] <:+: '\\' :: c :: rest ↔ d = c ∨ ['\\', d] <:+: rest := by
        simp [List.infix_cons_iff, List.cons_prefix_cons, hne.symm]
      have hself : ['\\', c] ++ spellOut rest = '\\' :: c :: rest ↔ spellOut rest = rest := by
        simp
      rw [if_pos hc, hself, ih h.tail.tail]
      simp only [hpairs]
      constructor
      · rintro hall d (rfl | hd)
        · exact hc
        · exact hall d hd
      · exact fun hall d hd => hall d (Or.inr hd)
    · obtain ⟨letter, _, _, digits, hnarrow, hletter, -⟩ := exists_narrowChar hc
      rw [if_neg hc, hnarrow]
      refine iff_of_false (fun heq => hc ?_) fun hall => hc (hall c ⟨[], rest, rfl⟩)
      have hlt := toNat_lt_of_mem_hexEscapes hletter
      have hfirst : letter = c := (List.cons.inj (List.cons.inj heq).2).1
      rw [hfirst] at hlt
      omega
  | case3 c rest hpair ih =>
    have hne := h.ne_backslash hpair
    have hpairs (d : Char) : ['\\', d] <:+: c :: rest ↔ ['\\', d] <:+: rest := by
      simp [List.infix_cons_iff, List.cons_prefix_cons, hne.symm]
    have hself : c :: spellOut rest = c :: rest ↔ spellOut rest = rest := by simp
    rw [hself, ih h.tail]
    simp only [hpairs]

/-! ## 3. Names -/

theorem decode_of_hasNoEscape {name : String} (h : HasNoEscape name.toList) :
    decode name = .ok (String.ofList (spellOut name.toList)) := by
  rw [decode, unescape_of_hasNoEscape h]

/-- A name without an escape is decoded to itself exactly if no backslash of it stands before a
character beyond U+00FF. In any case the decoder keeps all of it, but writes each such character
as the letters of its escape. -/
theorem decode_without_escape (name : String) (h : HasNoEscape name.toList) :
    decode name = .ok (String.ofList (spellOut name.toList)) ∧
      (decode name = .ok name ↔ ∀ c, ['\\', c] <:+: name.toList → c.toNat ≤ 0xFF) := by
  have hdecode := decode_of_hasNoEscape h
  refine ⟨hdecode, ?_⟩
  have hname : String.ofList (spellOut name.toList) = name ↔
      spellOut name.toList = name.toList := by
    rw [← String.toList_inj, String.toList_ofList]
  rw [hdecode, Except.ok.injEq, hname, spellOut_eq_self_iff h]

/-- A backslash before a letter with an accent, and a character beyond U+00FF without one. -/
theorem decode_without_escape_accent :
    HasNoEscape "\\é東".toList ∧ decode "\\é東" = .ok "\\é東" := by
  have hnone : HasNoEscape "\\é東".toList := .unknown (by decide) (.plain (by decide) .nil)
  refine ⟨hnone, (decode_without_escape "\\é東" hnone).2.mpr ?_⟩
  intro c hc
  have hpair : c = 'é' := by
    simpa [List.infix_cons_iff, List.cons_prefix_cons] using hc
  rw [hpair]
  decide

/-- Before a character beyond U+00FF the backslash is kept and the character is not. -/
theorem decode_spells_out_unknown :
    ¬∀ name : String, HasNoEscape name.toList → decode name = .ok name := by
  have hnone : HasNoEscape "\\東".toList := .unknown (by decide) .nil
  have hdecode : decode "\\東" = .ok "\\u6771" := by decide +kernel
  intro h
  have hself := h _ hnone
  rw [hdecode, Except.ok.injEq] at hself
  exact absurd hself (by decide)

end MediaCatalog.Escape
