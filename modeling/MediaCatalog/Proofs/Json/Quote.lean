import Mathlib.Algebra.BigOperators.Group.List.Basic
import MediaCatalog.Json.Printer
import MediaCatalog.Json.Reader
import MediaCatalog.Proofs.Text.Hex

/-!
# Quoted strings — what is written in quotes is read back

Reading takes an escaped character for that character, whatever follows it, and stops at the
closing quote (`stringText_escaped`). A quoted string is therefore told apart from what follows it.
-/

namespace MediaCatalog.Json

namespace Reader

/-! ## 1. Escapes of four digits -/

theorem length_le_byteLength (text : List Char) : text.length ≤ byteLength text := by
  have hsizes : ∀ n ∈ text.map Char.utf8Size, 1 ≤ n := by
    intro n hn
    obtain ⟨c, -, rfl⟩ := List.mem_map.mp hn
    exact c.utf8Size_pos
  rw [byteLength, ← List.sum_eq_foldl_nat]
  simpa using List.length_le_sum_of_one_le _ hsizes

theorem stringBody_hexDigit {digits value d : Nat} {rest : List Char} (hdigits : digits < 3)
    (hd : d < 16) (hrest : 3 ≤ digits + rest.length) :
    stringBody (.hex none digits value) (Text.hexDigit d :: rest) =
      stringBody (.hex none (digits + 1) (value * 16 + d)) rest := by
  have hlength := length_le_byteLength (Text.hexDigit d :: rest)
  rw [List.length_cons] at hlength
  rw [stringBody, if_neg (by omega), Text.digitIn?_hexDigit hd]
  exact if_pos hdigits

theorem stringBody_lastHexDigit {value d : Nat} {rest : List Char} (hd : d < 16)
    (hvalue : value * 16 + d < 0xD800) :
    stringBody (.hex none 3 value) (Text.hexDigit d :: rest) =
      (stringBody .none rest).map (Prod.map (Char.ofNat (value * 16 + d) :: ·) id) := by
  have hlength := length_le_byteLength (Text.hexDigit d :: rest)
  rw [List.length_cons] at hlength
  have hescape : hexEscape none (value * 16 + d) = .ok (.inl (Char.ofNat (value * 16 + d))) := by
    have hlow : isLowSurrogate (value * 16 + d) = false := by
      rw [isLowSurrogate, Bool.and_eq_false_iff]
      exact Or.inl (decide_eq_false (by omega))
    have hhigh : isHighSurrogate (value * 16 + d) = false := by
      rw [isHighSurrogate, Bool.and_eq_false_iff]
      exact Or.inl (decide_eq_false (by omega))
    simp only [hexEscape, hlow, hhigh, Bool.false_eq_true, if_false]
  rw [stringBody, if_neg (by omega), Text.digitIn?_hexDigit hd]
  dsimp only
  rw [if_neg (by decide), hescape]
  cases stringBody .none rest <;> rfl

theorem stringBody_hexDigits {n : Nat} (hn : n < 0xD800) (rest : List Char) :
    stringBody (.hex none 0 0) (Text.hexDigits 4 n ++ rest) =
      (stringBody .none rest).map (Prod.map (Char.ofNat n :: ·) id) := by
  have hdigits : Text.hexDigits 4 n = [Text.hexDigit (n / 16 / 16 / 16 % 16),
      Text.hexDigit (n / 16 / 16 % 16), Text.hexDigit (n / 16 % 16), Text.hexDigit (n % 16)] := rfl
  have hvalue : (((0 * 16 + n / 16 / 16 / 16 % 16) * 16 + n / 16 / 16 % 16) * 16 + n / 16 % 16) * 16
      + n % 16 = n := by omega
  rw [hdigits]
  simp only [List.cons_append, List.nil_append]
  rw [stringBody_hexDigit (by decide) (by omega) (by simp only [List.length_cons]; omega),
    stringBody_hexDigit (by decide) (by omega) (by simp only [List.length_cons]; omega),
    stringBody_hexDigit (by decide) (by omega) (by simp only [List.length_cons]; omega),
    stringBody_lastHexDigit (by omega) (by omega), hvalue]

/-! ## 2. Strings -/

theorem stringBody_simple {c letter : Char} (hletter : letter ≠ 'u')
    (h : simpleEscape? letter = some c) (rest : List Char) :
    stringBody .none ('\\' :: letter :: rest) =
      (stringBody .none rest).map (Prod.map (c :: ·) id) := by
  rw [stringBody, stringBody, h]
  · cases stringBody .none rest <;> rfl
  · exact hletter

theorem stringBody_plain {c : Char} (hquote : c ≠ '"') (hbackslash : c ≠ '\\')
    (hcontrol : ¬c.toNat < 0x20) (rest : List Char) :
    stringBody .none (c :: rest) = (stringBody .none rest).map (Prod.map (c :: ·) id) := by
  rw [stringBody, if_neg hcontrol]
  · cases stringBody .none rest <;> rfl
  · exact hquote
  · exact hbackslash

theorem stringBody_escapeChar (c : Char) (rest : List Char) :
    stringBody .none (escapeChar c ++ rest) =
      (stringBody .none rest).map (Prod.map (c :: ·) id) := by
  have hsimple (letter c : Char) (hletter : letter ≠ 'u')
      (h : simpleEscape? letter = some c) := stringBody_simple hletter h rest
  unfold escapeChar
  split
  next h => exact h ▸ hsimple '"' '"' (by decide) rfl
  next hquote =>
  split
  next h => exact h ▸ hsimple '\\' '\\' (by decide) rfl
  next hbackslash =>
  split
  next h => exact h ▸ hsimple 'b' '\x08' (by decide) rfl
  split
  next h => exact h ▸ hsimple 'f' '\x0c' (by decide) rfl
  split
  next h => exact h ▸ hsimple 'n' '\n' (by decide) rfl
  split
  next h => exact h ▸ hsimple 'r' '\r' (by decide) rfl
  split
  next h => exact h ▸ hsimple 't' '\t' (by decide) rfl
  split
  next hcontrol =>
    have hdigits := stringBody_hexDigits (n := c.toNat) (by omega) rest
    rw [Char.ofNat_toNat] at hdigits
    exact hdigits
  next hcontrol => exact stringBody_plain hquote hbackslash hcontrol rest

theorem stringBody_escaped (s rest : List Char) :
    stringBody .none (s.flatMap escapeChar ++ '"' :: rest) = .ok (s, rest) := by
  induction s with
  | nil => rfl
  | cons c s ih =>
    rw [List.flatMap_cons, List.append_assoc, stringBody_escapeChar, ih]
    rfl

theorem stringText_escaped (s : String) (rest : List Char) :
    stringText (s.toList.flatMap escapeChar ++ '"' :: rest) = .ok (s, rest) := by
  rw [stringText, stringBody_escaped]
  simp

end Reader

/-- The closing quote is where the string ends. -/
theorem quote_append_inj {s t : String} {rest rest' : List Char}
    (h : quote s ++ rest = quote t ++ rest') : s = t ∧ rest = rest' := by
  unfold quote at h
  simp only [List.cons_append, List.append_assoc, List.nil_append, List.cons.injEq, true_and] at h
  have hs := Reader.stringText_escaped s rest
  have ht := Reader.stringText_escaped t rest'
  rw [h] at hs
  rw [hs, Except.ok.injEq, Prod.mk.injEq] at ht
  exact ht

end MediaCatalog.Json
