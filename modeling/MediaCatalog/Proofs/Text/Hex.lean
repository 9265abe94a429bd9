import Mathlib.Data.List.Forall2
import Mathlib.Data.Nat.Digits.Defs
import Mathlib.Tactic.Ring
import MediaCatalog.Text.Hex

/-!
# Digits — reading a number is taking the value of its digits

What counts as a digit is written down here without a reader: by the place of a character behind
the digit zero or the letter A. `readDigits?` accepts exactly the numerals made of such digits.
-/

namespace MediaCatalog.Text

/-- A character is a digit of a base, with its value. From ten on these are letters in either
case. -/
def IsDigit (base : Nat) (c : Char) (d : Nat) : Prop :=
  d < base ∧ (d < 10 ∧ c.toNat = '0'.toNat + d ∨
    10 ≤ d ∧ (c.toNat = 'a'.toNat + (d - 10) ∨ c.toNat = 'A'.toNat + (d - 10)))

/-- Characters are the digits of a number, the most significant first. -/
def IsNumeral (base : Nat) (text : List Char) (n : Nat) : Prop :=
  ∃ digits, List.Forall₂ (IsDigit base) text digits ∧ n = Nat.ofDigits base digits.reverse

/-! ## 1. Digits -/

theorem digitValue?_eq_some_iff {c : Char} {d : Nat} :
    digitValue? c = some d ↔ IsDigit 36 c d := by
  have hzero : '0'.toNat = 48 := rfl
  have hlower : 'a'.toNat = 97 := rfl
  have hupper : 'A'.toNat = 65 := rfl
  rw [digitValue?, IsDigit, hzero, hlower, hupper]
  constructor
  · intro h
    split at h
    · rw [Option.some.injEq] at h
      omega
    · split at h
      · rw [Option.some.injEq] at h
        omega
      · split at h
        · rw [Option.some.injEq] at h
          omega
        · cases h
  · rintro ⟨hlt, ⟨hten, hc⟩ | ⟨hten, hc | hc⟩⟩
    · rw [if_pos (by omega), Option.some.injEq]
      omega
    · rw [if_neg (by omega), if_pos (by omega), Option.some.injEq]
      omega
    · rw [if_neg (by omega), if_neg (by omega), if_pos (by omega), Option.some.injEq]
      omega

theorem digitIn?_eq_some_iff {base : Nat} (hbase : base ≤ 36) {c : Char} {d : Nat} :
    digitIn? base c = some d ↔ IsDigit base c d := by
  have hdigit : digitIn? base c = some d ↔ digitValue? c = some d ∧ d < base := by
    unfold digitIn?
    split
    next value hvalue =>
      rw [hvalue, Option.some.injEq]
      split
      next hlt =>
        rw [Option.some.injEq]
        exact ⟨fun h => ⟨h, h ▸ hlt⟩, And.left⟩
      next hge => exact iff_of_false (by simp) fun h => hge (h.1 ▸ h.2)
    next hnone => simp [hnone]
  rw [hdigit, digitValue?_eq_some_iff]
  constructor
  · rintro ⟨⟨-, hc⟩, hlt⟩
    exact ⟨hlt, hc⟩
  · rintro ⟨hlt, hc⟩
    exact ⟨⟨Nat.lt_of_lt_of_le hlt hbase, hc⟩, hlt⟩

/-! ## 2. Numerals -/

/-- The first digit counts as many times the base as there are digits behind it. -/
theorem ofDigits_reverse_cons (base d : Nat) (digits : List Nat) :
    Nat.ofDigits base (d :: digits).reverse =
      d * base ^ digits.length + Nat.ofDigits base digits.reverse := by
  rw [List.reverse_cons, Nat.ofDigits_append, Nat.ofDigits_singleton, List.length_reverse,
    Nat.mul_comm, Nat.add_comm]

theorem readDigits?_eq_some_iff {base : Nat} (hbase : base ≤ 36) {value n : Nat}
    {text : List Char} :
    readDigits? base value text = some n ↔ ∃ digits, List.Forall₂ (IsDigit base) text digits ∧
      n = value * base ^ digits.length + Nat.ofDigits base digits.reverse := by
  induction text generalizing value with
  | nil =>
    rw [readDigits?, Option.some.injEq]
    constructor
    · rintro rfl
      exact ⟨[], .nil, by simp⟩
    · rintro ⟨digits, hdigits, rfl⟩
      cases hdigits
      simp
  | cons c text ih =>
    have hstep (d : Nat) (digits : List Nat) :
        (value * base + d) * base ^ digits.length + Nat.ofDigits base digits.reverse =
          value * base ^ (d :: digits).length + Nat.ofDigits base (d :: digits).reverse := by
      rw [ofDigits_reverse_cons, List.length_cons, Nat.pow_succ]
      ring
    rw [readDigits?]
    constructor
    · intro h
      split at h
      next d hd =>
        obtain ⟨digits, hdigits, rfl⟩ := ih.mp h
        exact ⟨d :: digits, .cons ((digitIn?_eq_some_iff hbase).mp hd) hdigits, hstep d digits⟩
      next => cases h
    · rintro ⟨digits, hdigits, rfl⟩
      cases hdigits with
      | @cons _ d _ digits hd hdigits =>
        rw [(digitIn?_eq_some_iff hbase).mpr hd]
        exact ih.mpr ⟨digits, hdigits, (hstep d digits).symm⟩

theorem readDigits?_zero_iff {base : Nat} (hbase : base ≤ 36) {n : Nat} {text : List Char} :
    readDigits? base 0 text = some n ↔ IsNumeral base text n := by
  rw [readDigits?_eq_some_iff hbase, IsNumeral]
  simp only [Nat.zero_mul, Nat.zero_add]

theorem IsNumeral.lt {base : Nat} (hbase : 1 < base) {text : List Char} {n : Nat}
    (h : IsNumeral base text n) : n < base ^ text.length := by
  obtain ⟨digits, hdigits, rfl⟩ := h
  have hall : ∀ d ∈ digits, d < base := by
    induction hdigits with
    | nil => simp
    | cons hd _ ih => exact List.forall_mem_cons.mpr ⟨hd.1, ih⟩
  rw [hdigits.length_eq, ← List.length_reverse]
  exact Nat.ofDigits_lt_base_pow_length hbase fun d hd => hall d (List.mem_reverse.mp hd)

theorem IsNumeral.unique {base n m : Nat} (hbase : base ≤ 36) {text : List Char}
    (h : IsNumeral base text n) (h' : IsNumeral base text m) : n = m := by
  rw [← readDigits?_zero_iff hbase] at h h'
  exact Option.some.inj (h.symm.trans h')

theorem IsNumeral.append {base n m : Nat} {text text' : List Char} (h : IsNumeral base text n)
    (h' : IsNumeral base text' m) :
    IsNumeral base (text ++ text') (n * base ^ text'.length + m) := by
  obtain ⟨digits, hdigits, rfl⟩ := h
  obtain ⟨digits', hdigits', rfl⟩ := h'
  refine ⟨digits ++ digits', List.rel_append hdigits hdigits', ?_⟩
  rw [List.reverse_append, Nat.ofDigits_append, List.length_reverse, hdigits'.length_eq,
    Nat.add_comm, Nat.mul_comm]

/-- Decimal digits stand in one row of characters. -/
theorem IsNumeral.toNat_range {n : Nat} {text : List Char} (h : IsNumeral 10 text n) :
    ∀ c ∈ text, 48 ≤ c.toNat ∧ c.toNat ≤ 57 := by
  have hzero : '0'.toNat = 48 := rfl
  obtain ⟨digits, hdigits, -⟩ := h
  induction hdigits with
  | nil => simp
  | cons hd _ ih =>
    refine List.forall_mem_cons.mpr ⟨?_, ih⟩
    obtain ⟨hlt, hc⟩ := hd
    rw [hzero] at hc
    omega

theorem IsNumeral.not_mem {n : Nat} {text : List Char} (h : IsNumeral 10 text n) {c : Char}
    (hc : c.toNat < 48 ∨ 57 < c.toNat) : c ∉ text := by
  intro hmem
  have hrange := h.toNat_range c hmem
  omega

/-! ## 3. Writing a number -/

theorem IsDigit.toNat_lt {base d : Nat} {c : Char} (h : IsDigit base c d) (hbase : base ≤ 36) :
    c.toNat < 128 := by
  have hzero : '0'.toNat = 48 := rfl
  have hlower : 'a'.toNat = 97 := rfl
  have hupper : 'A'.toNat = 65 := rfl
  obtain ⟨hlt, hc⟩ := h
  rw [hzero, hlower, hupper] at hc
  omega

theorem IsNumeral.exists_digit {base n : Nat} {text : List Char} (h : IsNumeral base text n) :
    ∀ c ∈ text, ∃ d, IsDigit base c d := by
  obtain ⟨digits, hdigits, -⟩ := h
  induction hdigits with
  | nil => simp
  | cons hd _ ih => exact List.forall_mem_cons.mpr ⟨⟨_, hd⟩, ih⟩

theorem IsNumeral.toNat_lt {base n : Nat} {text : List Char} (h : IsNumeral base text n)
    (hbase : base ≤ 36) : ∀ c ∈ text, c.toNat < 128 := by
  intro c hc
  obtain ⟨d, hd⟩ := h.exists_digit c hc
  exact hd.toNat_lt hbase

theorem IsNumeral.backslash_not_mem {base n : Nat} {text : List Char} (h : IsNumeral base text n)
    (hbase : base ≤ 36) : '\\' ∉ text := by
  intro hmem
  obtain ⟨d, hd⟩ := h.exists_digit _ hmem
  rw [← digitIn?_eq_some_iff hbase] at hd
  cases hd

theorem digitIn?_hexDigit {d : Nat} (hd : d < 16) : digitIn? 16 (hexDigit d) = some d := by
  have hall : ∀ d < 16, digitIn? 16 (hexDigit d) = some d := by decide
  exact hall d hd

theorem isDigit_hexDigit {base d : Nat} (hbase : base ≤ 16) (hd : d < base) :
    IsDigit base (hexDigit d) d := by
  have hdigit := (digitIn?_eq_some_iff (by decide)).mp (digitIn?_hexDigit (by omega : d < 16))
  exact ⟨hd, hdigit.2⟩

theorem isNumeral_nil (base : Nat) : IsNumeral base [] 0 :=
  ⟨[], .nil, rfl⟩

theorem IsDigit.isNumeral {base d : Nat} {c : Char} (h : IsDigit base c d) :
    IsNumeral base [c] d :=
  ⟨[d], .cons h .nil, Nat.ofDigits_singleton.symm⟩

/-- One more digit at the end of a number. -/
theorem IsNumeral.concat {base n : Nat} {text : List Char} (h : IsNumeral base text (n / base))
    (hpos : 0 < base) (hbase : base ≤ 16) : IsNumeral base (text ++ [hexDigit (n % base)]) n := by
  have hlast := (isDigit_hexDigit hbase (Nat.mod_lt n hpos)).isNumeral
  have hall := h.append hlast
  rwa [List.length_singleton, Nat.pow_one, Nat.div_add_mod'] at hall

theorem length_hexDigits (width n : Nat) : (hexDigits width n).length = width := by
  induction width generalizing n with
  | zero => rfl
  | succ width ih => rw [hexDigits, List.length_append, ih, List.length_singleton]

theorem isNumeral_hexDigits {width n : Nat} (h : n < 16 ^ width) :
    IsNumeral 16 (hexDigits width n) n := by
  induction width generalizing n with
  | zero =>
    have hn : n = 0 := by simpa using h
    rw [hn]
    exact isNumeral_nil 16
  | succ width ih =>
    have hfront : n / 16 < 16 ^ width := by
      rw [Nat.pow_succ, Nat.mul_comm] at h
      exact Nat.div_lt_of_lt_mul h
    exact (ih hfront).concat (by decide) (Nat.le_refl 16)

theorem isNumeral_replicate_zero {base : Nat} (hpos : 0 < base) (k : Nat) :
    IsNumeral base (List.replicate k '0') 0 := by
  have hdigit : IsDigit base '0' 0 := ⟨hpos, Or.inl ⟨by decide, rfl⟩⟩
  induction k with
  | zero => exact isNumeral_nil base
  | succ k ih =>
    have happend := hdigit.isNumeral.append ih
    rwa [Nat.zero_mul, Nat.zero_add] at happend

theorem isNumeral_decimalNumber (n : Nat) : IsNumeral 10 (decimalNumber n) n := by
  fun_induction decimalNumber n with
  | case1 n hlt => exact (isDigit_hexDigit (by decide) hlt).isNumeral
  | case2 n _ ih => exact ih.concat (by decide) (by decide)

theorem decimalNumber_ne_nil (n : Nat) : decimalNumber n ≠ [] := by
  rw [decimalNumber]
  split <;> simp

theorem decimalNumber_injective {n m : Nat} (h : decimalNumber n = decimalNumber m) : n = m := by
  have hn := isNumeral_decimalNumber n
  rw [h] at hn
  exact hn.unique (by decide) (isNumeral_decimalNumber m)

end MediaCatalog.Text
