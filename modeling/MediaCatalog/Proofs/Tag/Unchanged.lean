import MediaCatalog.Proofs.Tag.Joining
import MediaCatalog.Proofs.Tag.Preview
import MediaCatalog.Proofs.Tag.Unknown

/-!
# Unchanged names — what decoding and repair leave as it is

Character by character the decoder follows the name (`Step`): it keeps what it reads, or falls
behind, or writes more than it reads. Once the two have parted they never come together again
(`eq_nil_of_unescape`), so a name that is decoded to itself has no escape (`decode_eq_self_iff`). A
repair leaves a list as it is if it leaves the names and no two tags are alike.
-/

namespace MediaCatalog

namespace Escape

/-! ## 1. One step of the decoder, on the name itself -/

/-- What the decoder takes first of a name, and what it makes of that. -/
inductive Step : (taken value : List Char) → Prop where
  | plain {c : Char} (h : c ≠ '\\') : Step [c] [c]
  | kept {c : Char} (h : ¬IsSpecial c) (hc : c.toNat ≤ 0xFF) : Step ['\\', c] ['\\', c]
  | spelledOut {c : Char} (hc : ¬c.toNat ≤ 0xFF) : Step ['\\', c] (narrowChar c)
  | special {c : Char} {behind value : List Char} (h : IsSpecial c) (hvalue : value.length ≤ 1) :
      Step ('\\' :: c :: behind) value

theorem IsSpecial.toNat_le {c : Char} (h : IsSpecial c) : c.toNat ≤ 0xFF := by
  rcases h with rfl | ⟨value, hvalue⟩ | ⟨d, hd⟩ | hletter
  · decide
  · have hall : ∀ p ∈ simpleEscapes, p.1.toNat ≤ 0xFF := by decide
    exact hall _ hvalue
  · have hlt := hd.toNat_lt (by decide)
    omega
  · simp only [List.mem_cons, List.not_mem_nil, or_false] at hletter
    rcases hletter with rfl | rfl | rfl | rfl <;> decide

theorem narrow_backslash {c : Char} (hc : c.toNat ≤ 0xFF) (text : List Char) :
    narrow ('\\' :: c :: text) = '\\' :: c :: narrow text := by
  have hcons : narrow ('\\' :: c :: text) = '\\' :: (narrowChar c ++ narrow text) := rfl
  rw [hcons, narrowChar_of_le hc, List.singleton_append]

/-- What a narrowed text begins with was there before, if it has no backslash. -/
theorem exists_of_narrow_eq_append {text front rest : List Char} (hfront : '\\' ∉ front)
    (h : narrow text = front ++ rest) : ∃ back, text = front ++ back ∧ narrow back = rest := by
  induction front generalizing text with
  | nil => exact ⟨text, rfl, h⟩
  | cons c front ih =>
    rw [List.mem_cons, not_or] at hfront
    cases text with
    | nil => cases h
    | cons d text =>
      rw [narrow_cons] at h
      by_cases hd : d.toNat ≤ 0xFF
      · rw [narrowChar_of_le hd] at h
        obtain ⟨rfl, hrest⟩ := List.cons.inj h
        obtain ⟨back, rfl, hback⟩ := ih hfront.2 hrest
        exact ⟨back, rfl, hback⟩
      · obtain ⟨letter, _, _, digits, hescape, -⟩ := exists_narrowChar hd
        rw [hescape] at h
        exact absurd (List.cons.inj h).1 hfront.1

/-- An escape with a meaning takes two characters or more and leaves one at most. -/
theorem exists_step_of_isSpecial {c : Char} {text decoded : List Char} (hc : IsSpecial c)
    (h : unescape (narrow ('\\' :: c :: text)) = .ok decoded) :
    ∃ taken rest value more, '\\' :: c :: text = taken ++ rest ∧ Step taken value ∧
      decoded = value ++ more ∧ unescape (narrow rest) = .ok more := by
  rw [narrow_backslash hc.toNat_le, unescape_eq_ok_iff] at h
  generalize hread : '\\' :: c :: narrow text = read at h
  cases h with
  | nil => cases hread
  | @cons first value rest more token htokens =>
    have hmore := unescape_of_tokens htokens
    -- The token has the backslash, the character behind it, and digits of the name.
    have htaken (digits : List Char) (hplain : '\\' ∉ digits) (hvalue : value.length ≤ 1)
        (hrest : narrow text = digits ++ rest) :
        ∃ taken rest' value' more', '\\' :: c :: text = taken ++ rest' ∧ Step taken value' ∧
          value ++ more = value' ++ more' ∧ unescape (narrow rest') = .ok more' := by
      obtain ⟨back, rfl, rfl⟩ := exists_of_narrow_eq_append hplain hrest
      exact ⟨'\\' :: c :: digits, back, value, more, rfl, .special hc hvalue, rfl, hmore⟩
    cases token with
    | plain hne => exact absurd (List.cons.inj hread).1.symm hne
    | lineEnd =>
      have hrest := (List.cons.inj (List.cons.inj hread).2).2
      exact htaken [] List.not_mem_nil (Nat.zero_le 1) hrest
    | simple hsimple =>
      have hrest := (List.cons.inj (List.cons.inj hread).2).2
      exact htaken [] List.not_mem_nil (Nat.le_refl 1) hrest
    | @octal digits code numeral atLeast atMost greedy =>
      have hplain := numeral.backslash_not_mem (by decide)
      cases digits with
      | nil => simp at atLeast
      | cons digit digits =>
        have hrest := (List.cons.inj (List.cons.inj hread).2).2
        exact htaken digits (fun hmem => hplain (List.mem_cons_of_mem _ hmem)) (Nat.le_refl 1) hrest
    | @hex letter width fault digits code hletter numeral length scalar =>
      have hrest := (List.cons.inj (List.cons.inj hread).2).2
      exact htaken digits (numeral.backslash_not_mem (by decide)) (Nat.le_refl 1) hrest
    | other hnot =>
      obtain ⟨rfl, -⟩ := List.cons.inj (List.cons.inj hread).2
      exact absurd hc hnot

/-- Every name that can be decoded is decoded step by step. -/
theorem exists_step {text decoded : List Char} (hne : text ≠ [])
    (h : unescape (narrow text) = .ok decoded) :
    ∃ taken rest value more, text = taken ++ rest ∧ Step taken value ∧
      decoded = value ++ more ∧ unescape (narrow rest) = .ok more := by
  obtain ⟨c, tail, rfl⟩ := List.exists_cons_of_ne_nil hne
  have hmap (value rest : List Char)
      (hread : (unescape (narrow rest)).map (value ++ ·) = .ok decoded) :
      ∃ more, decoded = value ++ more ∧ unescape (narrow rest) = .ok more := by
    cases hmore : unescape (narrow rest) with
    | error fault =>
      rw [hmore] at hread
      cases hread
    | ok more =>
      rw [hmore] at hread
      exact ⟨more, (Except.ok.inj hread).symm, rfl⟩
  by_cases hc : c = '\\'
  swap
  · rw [unescape_narrow_plain hc] at h
    obtain ⟨more, hdecoded, hmore⟩ := hmap _ _ h
    exact ⟨[c], tail, [c], more, rfl, .plain hc, hdecoded, hmore⟩
  subst hc
  cases tail with
  | nil =>
    have hbroken : unescape (narrow ['\\']) = _ := unescape_broken .unfinished
    rw [hbroken] at h
    cases h
  | cons next tail =>
    by_cases hspecial : IsSpecial next
    · exact exists_step_of_isSpecial hspecial h
    · rw [unescape_narrow_unknown hspecial] at h
      obtain ⟨more, hdecoded, hmore⟩ := hmap _ _ h
      refine ⟨['\\', next], tail, _, more, rfl, ?_, hdecoded, hmore⟩
      by_cases hnext : next.toNat ≤ 0xFF
      · rw [if_pos hnext]
        exact .kept hspecial hnext
      · rw [if_neg hnext]
        exact .spelledOut hnext

/-! ## 2. The decoder never catches up -/

/-- Of two equal texts, the one with the shorter beginning has more left. -/
theorem exists_ahead {value more word rest : List Char} (h : value ++ more = word ++ rest)
    (hlt : value.length < word.length) : ∃ ahead, ahead ≠ [] ∧ more = ahead ++ rest := by
  rcases List.append_eq_append_iff.mp h with ⟨ahead, rfl, hmore⟩ | ⟨behind, rfl, -⟩
  · refine ⟨ahead, ?_, hmore⟩
    rintro rfl
    simp at hlt
  · rw [List.length_append] at hlt
    omega

theorem Step.length_lt {taken value : List Char} (h : Step taken value) (rest : List Char) :
    rest.length < (taken ++ rest).length := by
  have hpos : 0 < taken.length := by cases h <;> simp
  rw [List.length_append]
  omega

/-- If there is more than the name before a step, there is more than its rest behind it. -/
theorem Step.exists_ahead {taken value more front rest : List Char} (h : Step taken value)
    (hfront : front ≠ []) (hsplit : value ++ more = front ++ taken ++ rest) :
    ∃ ahead, ahead ≠ [] ∧ more = ahead ++ rest := by
  have hpos := List.length_pos_iff.mpr hfront
  refine Escape.exists_ahead hsplit ?_
  cases h with
  | plain | kept =>
    rw [List.length_append]
    omega
  | special _ hvalue =>
    rw [List.length_append, List.length_cons, List.length_cons]
    omega
  | @spelledOut c hc =>
    -- The escape of `c` has one backslash only, so it ends before the one in the name.
    obtain ⟨letter, _, _, digits, hescape, hletter, numeral, -⟩ := exists_narrowChar hc
    have hplain := backslash_not_mem_of_mem_hexEscapes hletter numeral
    obtain ⟨first, front, rfl⟩ := List.exists_cons_of_ne_nil hfront
    rw [hescape] at hsplit ⊢
    refine Nat.lt_of_not_le fun hle => hplain ?_
    have hword : first :: front ++ ['\\', c] <+: '\\' :: letter :: digits :=
      List.prefix_of_prefix_length_le ⟨rest, hsplit.symm⟩ (List.prefix_append _ more) hle
    have hmem : '\\' ∈ front ++ ['\\', c] := by simp
    exact (List.cons_prefix_cons.mp hword).2.subset hmem

/-- What the decoder returns is never the name with something before it. -/
theorem eq_nil_of_unescape {front text : List Char}
    (h : unescape (narrow text) = .ok (front ++ text)) : front = [] := by
  by_contra hfront
  -- By induction on the name: what is ahead before a step is replaced by what is ahead behind it.
  induction hlength : text.length using Nat.strong_induction_on generalizing front text with
  | _ n ih =>
    by_cases htext : text = []
    · have hnil : unescape (narrow []) = .ok [] := by rw [narrow, List.flatMap_nil, unescape]
      rw [htext, hnil, List.append_nil] at h
      exact hfront (Except.ok.inj h).symm
    · obtain ⟨taken, rest, value, more, rfl, hstep, hdecoded, hmore⟩ := exists_step htext h
      rw [← List.append_assoc] at hdecoded
      obtain ⟨ahead, hahead, rfl⟩ := hstep.exists_ahead hfront hdecoded.symm
      exact ih _ (hlength ▸ hstep.length_lt rest) hmore hahead rfl

/-! ## 3. Names that are decoded to themselves -/

/-- Every backslash has a character behind it, up to U+00FF, that it gives no meaning. -/
def IsKept (text : List Char) : Prop :=
  HasNoEscape text ∧ ∀ c, ['\\', c] <:+: text → c.toNat ≤ 0xFF

theorem isKept_of_not_mem {text : List Char} (h : '\\' ∉ text) : IsKept text := by
  refine ⟨fun front rest hsplit => ?_, fun c hc => ?_⟩
  · rw [hsplit] at h
    exact absurd (List.mem_append_right front List.mem_cons_self) h
  · exact absurd (hc.subset List.mem_cons_self) h

theorem hasNoEscape_of_unescape {text : List Char} (h : unescape (narrow text) = .ok text) :
    HasNoEscape text := by
  induction hlength : text.length using Nat.strong_induction_on generalizing text with
  | _ n ih =>
    by_cases htext : text = []
    · exact htext ▸ .nil
    obtain ⟨taken, rest, value, more, rfl, hstep, hdecoded, hmore⟩ := exists_step htext h
    have hlt : rest.length < n := hlength ▸ hstep.length_lt rest
    cases hstep with
    | plain hc =>
      obtain rfl := List.append_cancel_left hdecoded
      exact .plain hc (ih _ hlt hmore rfl)
    | kept hc =>
      obtain rfl := List.append_cancel_left hdecoded
      exact .unknown hc (ih _ hlt hmore rfl)
    | @spelledOut c hc =>
      obtain ⟨letter, _, _, digits, hescape, hletter, -⟩ := exists_narrowChar hc
      have hlt := toNat_lt_of_mem_hexEscapes hletter
      rw [hescape] at hdecoded
      have hfirst : c = letter := (List.cons.inj (List.cons.inj hdecoded).2).1
      rw [hfirst] at hc
      omega
    | @special c behind _ _ hvalue =>
      have hless : value.length < ('\\' :: c :: behind).length := by
        rw [List.length_cons, List.length_cons]
        omega
      obtain ⟨ahead, hahead, rfl⟩ := exists_ahead hdecoded.symm hless
      exact absurd (eq_nil_of_unescape hmore) hahead

theorem unescape_eq_self_iff {text : List Char} :
    unescape (narrow text) = .ok text ↔ IsKept text := by
  constructor
  · intro h
    have hnone := hasNoEscape_of_unescape h
    rw [unescape_of_hasNoEscape hnone, Except.ok.injEq] at h
    exact ⟨hnone, (spellOut_eq_self_iff hnone).mp h⟩
  · rintro ⟨hnone, hwide⟩
    rw [unescape_of_hasNoEscape hnone, (spellOut_eq_self_iff hnone).mpr hwide]

theorem decode_eq_self_iff {name : String} : decode name = .ok name ↔ IsKept name.toList := by
  rw [decode_eq_ok_iff, ← unescape_eq_ok_iff, unescape_eq_self_iff]

end Escape

namespace Tag

/-! ## 4. Lists that are repaired to themselves -/

theorem Decoded.exists_name {tag decoded : Tag} {name : String} (h : tag.Decoded decoded)
    (hname : tag.name? = some name) :
    ∃ name', decoded.name? = some name' ∧ Escape.decode name = .ok name' := by
  cases h with
  | nameless hnone =>
    rw [hnone] at hname
    cases hname
  | named hname' hdecode =>
    obtain rfl := Option.some.inj (hname'.symm.trans hname)
    exact ⟨_, rfl, hdecode⟩

/-- The tag has no name, or one that is decoded to itself. -/
def IsKept (tag : Tag) : Prop :=
  ∀ name, tag.name? = some name → Escape.IsKept name.toList

theorem decoded_self_iff {tag : Tag} : tag.Decoded tag ↔ tag.IsKept := by
  constructor
  · intro h name hname
    obtain ⟨name', hname', hdecode⟩ := h.exists_name hname
    obtain rfl := Option.some.inj (hname'.symm.trans hname)
    exact Escape.decode_eq_self_iff.mp hdecode
  · intro h
    cases hname : tag.name? with
    | none => exact .nameless hname
    | some name =>
      have hdecoded := Decoded.named hname (Escape.decode_eq_self_iff.mpr (h name hname))
      rwa [← hname] at hdecoded

theorem keepFirst_of_nodup {seen : List (Option String × Option String)} {tags : List Tag}
    (hnodup : (tags.map key).Nodup) (hseen : ∀ tag ∈ tags, tag.key ∉ seen) :
    keepFirst seen tags = tags := by
  induction tags generalizing seen with
  | nil => rfl
  | cons tag rest ih =>
    rw [List.map_cons, List.nodup_cons] at hnodup
    obtain ⟨htag, hrest⟩ := List.forall_mem_cons.mp hseen
    rw [keepFirst, if_neg htag, ih hnodup.2 fun t ht => ?_]
    rw [List.mem_cons, not_or]
    exact ⟨fun heq => hnodup.1 (heq ▸ List.mem_map_of_mem ht), hrest t ht⟩

/-- A repair leaves a list as it is exactly if it leaves all names and no two tags are alike. -/
theorem repair_eq_self_iff {tags : List Tag} :
    repair tags = .ok tags ↔ (∀ tag ∈ tags, tag.IsKept) ∧ (tags.map key).Nodup := by
  simp only [← decoded_self_iff, ← List.forall₂_same, repair_eq_ok_iff]
  constructor
  · rintro ⟨decoded, hdecoded, hkept⟩
    have hsublist : tags.Sublist decoded := hkept ▸ keepFirst_sublist [] decoded
    obtain rfl := hsublist.eq_of_length hdecoded.length_eq
    exact ⟨hdecoded, hkept ▸ nodup_keepFirst [] tags⟩
  · rintro ⟨hdecoded, hnodup⟩
    exact ⟨tags, hdecoded, (keepFirst_of_nodup hnodup fun tag _ => List.not_mem_nil).symm⟩

theorem not_asksForDecoding_of_plain {tag : Tag}
    (hplain : ∀ name, tag.name? = some name → '\\' ∉ name.toList) : ¬tag.AsksForDecoding := by
  rintro ⟨name, hname, _, ⟨letter, digits, rfl, -⟩, hfound⟩
  exact hplain name hname (hfound.subset List.mem_cons_self)

/-- A list that was repaired is repaired to itself exactly if its names are decoded to themselves.
If none of them has a backslash, a second preview also finds nothing to do. -/
theorem repair_twice {tags result : List Tag} (h : repair tags = .ok result) :
    (repair result = .ok result ↔ ∀ tag ∈ result, tag.IsKept) ∧
    ((∀ tag ∈ result, ∀ name, tag.name? = some name → '\\' ∉ name.toList) →
      repair result = .ok result ∧ preview result = .ok ⟨false, result, result, 0, 0⟩) := by
  have hkept : repair result = .ok result ↔ ∀ tag ∈ result, tag.IsKept := by
    obtain ⟨decoded, -, rfl⟩ := repair_eq_ok_iff.mp h
    rw [repair_eq_self_iff, and_iff_left (nodup_keepFirst [] decoded)]
  refine ⟨hkept, fun hplain => ⟨hkept.mpr fun tag htag name hname => ?_, ?_⟩⟩
  · exact Escape.isKept_of_not_mem (hplain tag htag name hname)
  · refine preview_of_not_asks ?_
    rintro ⟨tag, htag, hasks⟩
    exact not_asksForDecoding_of_plain (hplain tag htag) hasks

/-- Two spellings of one name, and the name itself with another provider. -/
theorem repair_twice_accent :
    repair [create "mus\\xe9o" "flickr" none, create "mus\\u00E9o" "flickr" none,
      create "muséo" "recognition" none] =
        .ok [create "muséo" "flickr" none, create "muséo" "recognition" none] ∧
    repair [create "muséo" "flickr" none, create "muséo" "recognition" none] =
      .ok [create "muséo" "flickr" none, create "muséo" "recognition" none] ∧
    preview [create "muséo" "flickr" none, create "muséo" "recognition" none] =
      .ok ⟨false, [create "muséo" "flickr" none, create "muséo" "recognition" none],
        [create "muséo" "flickr" none, create "muséo" "recognition" none], 0, 0⟩ := by
  have hrepair : repair [create "mus\\xe9o" "flickr" none, create "mus\\u00E9o" "flickr" none,
      create "muséo" "recognition" none] =
        .ok [create "muséo" "flickr" none, create "muséo" "recognition" none] := by
    decide +kernel
  refine ⟨hrepair, (repair_twice hrepair).2 ?_⟩
  decide +kernel

end Tag

end MediaCatalog
