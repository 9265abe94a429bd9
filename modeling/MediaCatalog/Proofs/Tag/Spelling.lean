import MediaCatalog.Proofs.Tag.Grammar

/-!
# Spellings — every way to write a name is read as that name

A character stands for itself, or is written as an escape, and most characters have several escapes.
Whatever is chosen for each character of a name, the text decodes to the name (`decode_of_spells`):
a spelling is one token, also after narrowing, and its neighbours cannot change a token.
-/

namespace MediaCatalog.Escape

/-! ## 1. Spellings -/

/-- One way to write a character. Each digit of an escape is in either case. -/
inductive Spelling (c : Char) : (text : List Char) → Prop where
  | itself (h : c ≠ '\\') : Spelling c [c]
  | doubled (h : c = '\\') : Spelling c ['\\', '\\']
  | octal {digits : List Char} (numeral : Text.IsNumeral 8 digits c.toNat)
      (length : digits.length = 3) : Spelling c ('\\' :: digits)
  | hex {letter : Char} {width : Nat} {fault : Fault} {digits : List Char}
      (h : (letter, width, fault) ∈ hexEscapes) (numeral : Text.IsNumeral 16 digits c.toNat)
      (length : digits.length = width) : Spelling c ('\\' :: letter :: digits)

/-- A text writes a name: its characters one after the other, each in some spelling. -/
inductive Spells : (name text : List Char) → Prop where
  | nil : Spells [] []
  | cons {c : Char} {first name text : List Char} (spelling : Spelling c first)
      (more : Spells name text) : Spells (c :: name) (first ++ text)

/-- The hexadecimal escapes of a character are those with room for its code. -/
theorem exists_hex_iff (c : Char) (width : Nat) :
    (∃ digits, digits.length = width ∧ Text.IsNumeral 16 digits c.toNat) ↔
      c.toNat < 16 ^ width := by
  constructor
  · rintro ⟨digits, rfl, numeral⟩
    exact numeral.lt (by decide)
  · intro h
    exact ⟨_, Text.length_hexDigits width _, Text.isNumeral_hexDigits h⟩

/-- Three octal digits reach up to U+01FF. -/
theorem exists_octal_iff (c : Char) :
    (∃ digits, digits.length = 3 ∧ Text.IsNumeral 8 digits c.toNat) ↔ c.toNat ≤ 0x1FF := by
  constructor
  · rintro ⟨digits, hlength, numeral⟩
    have hlt := numeral.lt (by decide)
    rw [hlength] at hlt
    omega
  · intro h
    have hzero : c.toNat / 8 / 8 / 8 = 0 := by omega
    have hfirst : Text.IsNumeral 8 [] (c.toNat / 8 / 8 / 8) := hzero ▸ Text.isNumeral_nil 8
    have hall := ((hfirst.concat (by decide) (by decide)).concat (by decide) (by decide)).concat
      (by decide) (by decide)
    exact ⟨_, rfl, hall⟩

/-! ## 2. A spelling is a token -/

theorem narrow_append (text rest : List Char) :
    narrow (text ++ rest) = narrow text ++ narrow rest :=
  List.flatMap_append

/-- An escape is made of characters that narrowing keeps. -/
theorem narrow_eq_self {text : List Char} (h : ∀ c ∈ text, c.toNat < 128) :
    narrow text = text := by
  induction text with
  | nil => rfl
  | cons c text ih =>
    obtain ⟨hc, htext⟩ := List.forall_mem_cons.mp h
    have hchar : narrowChar c = [c] := if_pos (by omega)
    rw [narrow, List.flatMap_cons, hchar]
    exact congrArg (c :: ·) (ih htext)

theorem narrowChar_of_le {c : Char} (h : c.toNat ≤ 0xFF) : narrowChar c = [c] :=
  if_pos h

/-- A character that narrowing changes becomes one escape, with as many digits as it needs. -/
theorem exists_narrowChar {c : Char} (h : ¬c.toNat ≤ 0xFF) :
    ∃ letter width fault digits, narrowChar c = '\\' :: letter :: digits ∧
      (letter, width, fault) ∈ hexEscapes ∧ Text.IsNumeral 16 digits c.toNat ∧
        digits.length = width := by
  have hbound : c.toNat < 16 ^ 8 := by
    have hvalid : c.toNat.isValidChar := c.valid
    rcases hvalid with hlow | ⟨-, hhigh⟩ <;> omega
  have hunit : ('u', 4, Fault.shortUnit) ∈ hexEscapes := by decide
  have hpoint : ('U', 8, Fault.shortPoint) ∈ hexEscapes := by decide
  rw [narrowChar, if_neg h]
  split
  next hle =>
    exact ⟨_, _, _, _, rfl, hunit, Text.isNumeral_hexDigits (by omega), Text.length_hexDigits 4 _⟩
  next =>
    exact ⟨_, _, _, _, rfl, hpoint, Text.isNumeral_hexDigits hbound, Text.length_hexDigits 8 _⟩

theorem toNat_lt_of_mem_hexEscapes {letter : Char} {width : Nat} {fault : Fault}
    (h : (letter, width, fault) ∈ hexEscapes) : letter.toNat < 128 := by
  have hall : ∀ p ∈ hexEscapes, p.1.toNat < 128 := by decide
  exact hall _ h

theorem backslash_not_mem_of_mem_hexEscapes {letter : Char} {width n : Nat} {fault : Fault}
    {digits : List Char} (h : (letter, width, fault) ∈ hexEscapes)
    (numeral : Text.IsNumeral 16 digits n) : '\\' ∉ letter :: digits := by
  have hall : ∀ p ∈ hexEscapes, p.1 ≠ '\\' := by decide
  rw [List.mem_cons, not_or]
  exact ⟨(hall _ h).symm, numeral.backslash_not_mem (by decide)⟩

theorem Token.hexOf {c letter : Char} {width : Nat} {fault : Fault} {digits rest : List Char}
    (h : (letter, width, fault) ∈ hexEscapes) (numeral : Text.IsNumeral 16 digits c.toNat)
    (length : digits.length = width) : Token rest ('\\' :: letter :: digits) [c] := by
  have hscalar : c.toNat.isValidChar := c.valid
  have htoken : Token rest ('\\' :: letter :: digits) [Char.ofNat c.toNat] :=
    .hex h numeral length hscalar
  rwa [Char.ofNat_toNat] at htoken

/-- A character that stands for itself is a token, also where narrowing makes an escape of it. -/
theorem Token.narrowChar {c : Char} (h : c ≠ '\\') (rest : List Char) :
    Token rest (narrowChar c) [c] := by
  by_cases hc : c.toNat ≤ 0xFF
  · rw [narrowChar_of_le hc]
    exact .plain h
  · obtain ⟨letter, width, fault, digits, hescape, hletter, numeral, length⟩ :=
      exists_narrowChar hc
    rw [hescape]
    exact .hexOf hletter numeral length

theorem Spelling.token {c : Char} {text : List Char} (h : Spelling c text) (rest : List Char) :
    Token rest (narrow text) [c] := by
  have hback : '\\'.toNat < 128 := by decide
  cases h with
  | itself h =>
    rw [narrow, List.flatMap_singleton]
    exact .narrowChar h rest
  | doubled h =>
    have hnarrow : narrow ['\\', '\\'] = ['\\', '\\'] := narrow_eq_self (by simp)
    rw [hnarrow, h]
    exact .simple (by decide)
  | @octal digits numeral length =>
    have hnarrow : narrow ('\\' :: digits) = '\\' :: digits :=
      narrow_eq_self (List.forall_mem_cons.mpr ⟨hback, numeral.toNat_lt (by decide)⟩)
    have htoken : Token rest ('\\' :: digits) [Char.ofNat c.toNat] :=
      .octal numeral (by omega) (by omega) (Or.inl length)
    rw [hnarrow]
    rwa [Char.ofNat_toNat] at htoken
  | @hex letter width fault digits h numeral length =>
    have hletter := toNat_lt_of_mem_hexEscapes h
    have hnarrow : narrow ('\\' :: letter :: digits) = '\\' :: letter :: digits :=
      narrow_eq_self (List.forall_mem_cons.mpr
        ⟨hback, List.forall_mem_cons.mpr ⟨hletter, numeral.toNat_lt (by decide)⟩⟩)
    rw [hnarrow]
    exact .hexOf h numeral length

/-! ## 3. Names -/

theorem Spells.tokens {name text : List Char} (h : Spells name text) :
    Tokens (narrow text) name := by
  induction h with
  | nil => exact .nil
  | @cons c first name text spelling _ ih =>
    rw [narrow_append]
    exact .cons (spelling.token (narrow text)) ih

theorem decode_of_spells {name text : String} (h : Spells name.toList text.toList) :
    decode text = .ok name :=
  decode_eq_ok_iff.mpr h.tokens

theorem spells_self {name : List Char} (h : '\\' ∉ name) : Spells name name := by
  induction name with
  | nil => exact .nil
  | cons c name ih =>
    rw [List.mem_cons, not_or] at h
    exact .cons (.itself (Ne.symm h.1)) (ih h.2)

/-- Every text that writes a name decodes to it, so all texts that write it decode alike, and a name
without a backslash is such a text itself. An escape with digits can be chosen for exactly those
characters whose code has no more digits. -/
theorem decode_spelled :
    (∀ name text : String, Spells name.toList text.toList → decode text = .ok name) ∧
    (∀ name : String, '\\' ∉ name.toList → decode name = .ok name) ∧
    (∀ name text text' : String, Spells name.toList text.toList →
      Spells name.toList text'.toList → decode text = decode text') ∧
    (∀ c : Char, (∃ digits, digits.length = 3 ∧ Text.IsNumeral 8 digits c.toNat) ↔
      c.toNat ≤ 0x1FF) ∧
    ∀ (c : Char) (letter : Char) (width : Nat) (fault : Fault),
      (letter, width, fault) ∈ hexEscapes →
        ((∃ digits, digits.length = width ∧ Text.IsNumeral 16 digits c.toNat) ↔
          c.toNat < 16 ^ width) := by
  refine ⟨?_, ?_, ?_, exists_octal_iff, ?_⟩
  · intro name text h
    exact decode_of_spells h
  · intro name h
    exact decode_of_spells (spells_self h)
  · intro name text text' h h'
    rw [decode_of_spells h, decode_of_spells h']
  · intro c letter width fault _
    exact exists_hex_iff c width

/-- An accent in upper-case digits, a backslash, a character as it is, octal digits. -/
theorem decode_mixed_spelling :
    Spells "é\\😀A".toList "\\u00E9\\\\😀\\101".toList ∧
      decode "\\u00E9\\\\😀\\101" = .ok "é\\😀A" := by
  have hunit : ('u', 4, Fault.shortUnit) ∈ hexEscapes := by decide
  have haccent : Spelling 'é' "\\u00E9".toList :=
    .hex hunit ((Text.readDigits?_zero_iff (by decide)).mp rfl) rfl
  have hbackslash : Spelling '\\' "\\\\".toList := .doubled rfl
  have hsmiley : Spelling '😀' "😀".toList := .itself (by decide)
  have hletter : Spelling 'A' "\\101".toList :=
    .octal ((Text.readDigits?_zero_iff (by decide)).mp rfl) rfl
  have hspells : Spells "é\\😀A".toList "\\u00E9\\\\😀\\101".toList :=
    .cons haccent (.cons hbackslash (.cons hsmiley (.cons hletter .nil)))
  exact ⟨hspells, decode_spelled.1 _ _ hspells⟩

end MediaCatalog.Escape
