import Mathlib.Algebra.Order.Field.Power
import Mathlib.Data.List.Basic
import Mathlib.Tactic.FieldSimp
import Mathlib.Tactic.Positivity
import MediaCatalog.Decimal.Shortest
import MediaCatalog.Proofs.Decimal.Nearest
import MediaCatalog.Proofs.Text.Hex

/-!
# Texts of doubles — no two doubles have the same text

The text of a decimal is read here as a number by where its point and its exponent stand, not by a
reader. A text denotes at most one number (`Denotes.unique`) and the shortest decimal of a double
reads back as that double (`readsAs_shortest`), so that the text determines the double.
-/

namespace MediaCatalog

namespace Decimal

/-! ## 1. The number of a decimal -/

def value (d : Decimal) : ℚ :=
  d.digits * 10 ^ d.exponent

theorem denominator_pos (d : Decimal) : 0 < d.denominator :=
  Nat.pow_pos (by decide)

theorem value_eq_div (d : Decimal) : d.value = d.numerator / d.denominator := by
  have hexponent : d.exponent = (d.exponent.toNat : ℤ) - ((-d.exponent).toNat : ℤ) := by omega
  unfold value numerator denominator
  rw [Nat.pow_eq, Nat.pow_eq]
  push_cast
  nth_rewrite 1 [hexponent]
  rw [zpow_sub₀ (by norm_num), zpow_natCast, zpow_natCast, mul_div_assoc]

theorem value_reduce (d : Decimal) : d.reduce.value = d.value := by
  fun_induction reduce d with
  | case1 d _ => rfl
  | case2 d h ih =>
    have hdigits : (d.digits : ℚ) = (d.digits / 10 : Nat) * 10 := by
      exact_mod_cast (by omega : d.digits = d.digits / 10 * 10)
    have hpower : (10 : ℚ) ^ (d.exponent + 1) = 10 ^ d.exponent * 10 := by
      rw [zpow_add₀ (by norm_num), zpow_one]
    rw [ih, value, value, hdigits, hpower]
    ring

/-- Which double a decimal reads as depends on its number alone. -/
theorem readsAs_congr {d d' : Decimal} (h : d.value = d'.value) (x : Double) :
    d.readsAs x = d'.readsAs x := by
  have hcross : d.numerator * d'.denominator = d'.numerator * d.denominator := by
    have hd : (d.denominator : ℚ) ≠ 0 := by exact_mod_cast d.denominator_pos.ne'
    have hd' : (d'.denominator : ℚ) ≠ 0 := by exact_mod_cast d'.denominator_pos.ne'
    rw [value_eq_div, value_eq_div, div_eq_div_iff hd hd'] at h
    exact_mod_cast h
  unfold readsAs
  rw [Double.nearestCode_congr d.denominator_pos d'.denominator_pos hcross]

end Decimal

namespace Double

/-! ## 2. The shortest decimal -/

/-- A decimal that is the magnitude itself reads as the double. -/
theorem readsAs_of_exact {x : Double} {d : Decimal}
    (h : d.numerator * x.denominator = x.numerator * d.denominator) : d.readsAs x = true := by
  unfold Decimal.readsAs
  rw [nearestCode_congr d.denominator_pos x.denominator_pos h, nearestCode_self]
  exact beq_self_eq_true x.code

theorem numerator_of_code_eq_zero {x : Double} (h : x.code = 0) : x.numerator = 0 := by
  have hcode := x.code_eq
  have hsignificand : x.significand = 0 := by omega
  rw [numerator, hsignificand, Nat.zero_mul]

/-- A half is five tenths. -/
theorem numerator_mul_pow_two (num k : Nat) :
    (Decimal.mk (num * Nat.pow 5 k) (-(k : Int))).numerator * Nat.pow 2 k =
      num * (Decimal.mk (num * Nat.pow 5 k) (-(k : Int))).denominator := by
  have hup : (-(k : Int)).toNat = 0 := by omega
  have hdown : (- -(k : Int)).toNat = k := by omega
  unfold Decimal.numerator Decimal.denominator
  dsimp only
  rw [hup, hdown, Nat.pow_eq, Nat.pow_eq, Nat.pow_eq, Nat.pow_eq, Nat.pow_zero, Nat.mul_one,
    Nat.mul_assoc, ← Nat.mul_pow]

theorem exactDecimal_exact (x : Double) : x.exactDecimal.numerator * x.denominator =
    x.numerator * x.exactDecimal.denominator :=
  numerator_mul_pow_two x.numerator (1074 - x.scale)

theorem readsAs_of_onGrid? {x : Double} {count : Nat} {d : Decimal}
    (h : x.onGrid? count = some d) : d.readsAs x = true := by
  unfold onGrid? at h
  dsimp only at h
  split at h
  next hbelow =>
    split at h
    next habove => exact Option.some.inj h ▸ habove.1
    next => exact Option.some.inj h ▸ hbelow
  next =>
    split at h
    next habove => exact Option.some.inj h ▸ habove
    next => cases h

theorem readsAs_shortest (x : Double) : x.shortest.readsAs x = true := by
  unfold shortest
  split
  next hzero =>
    apply readsAs_of_exact
    rw [numerator_of_code_eq_zero hzero, Nat.zero_mul]
    exact Nat.mul_eq_zero.mpr (Or.inl (Nat.zero_mul _))
  next =>
    -- Leaving out zeros at the end does not change the number, so the grid decides.
    rw [Decimal.readsAs_congr (Decimal.value_reduce _)]
    cases hfind : (List.range' 1 17).findSome? x.onGrid? with
    | none => exact readsAs_of_exact x.exactDecimal_exact
    | some d =>
      obtain ⟨count, -, hgrid⟩ := List.exists_of_findSome?_eq_some hfind
      exact readsAs_of_onGrid? hgrid

theorem code_eq_of_shortest_value {x y : Double} (h : x.shortest.value = y.shortest.value) :
    x.code = y.code := by
  have hx := x.readsAs_shortest
  have hy := y.readsAs_shortest
  rw [← Decimal.readsAs_congr h] at hy
  unfold Decimal.readsAs at hx hy
  exact (eq_of_beq hx).symm.trans (eq_of_beq hy)

end Double

namespace Decimal

/-! ## 3. Texts as numbers -/

/-- Digits, with or without a point among them, as a number. -/
def IsMantissa (text : List Char) (q : ℚ) : Prop :=
  (∃ n : Nat, Text.IsNumeral 10 text n ∧ q = n) ∨
    ∃ front back, ∃ n : Nat, text = front ++ '.' :: back ∧ Text.IsNumeral 10 (front ++ back) n ∧
      q = n / 10 ^ back.length

/-- Digits behind a sign. -/
def IsExponent (text : List Char) (e : Int) : Prop :=
  ∃ digits, ∃ n : Nat, Text.IsNumeral 10 digits n ∧
    (text = '+' :: digits ∧ e = n ∨ text = '-' :: digits ∧ e = -n)

/-- A mantissa, alone or with the exponent of a power of ten. -/
def Denotes (text : List Char) (q : ℚ) : Prop :=
  IsMantissa text q ∨
    ∃ mantissa exponent, ∃ (p : ℚ) (e : Int), text = mantissa ++ 'e' :: exponent ∧
      IsMantissa mantissa p ∧ IsExponent exponent e ∧ q = p * 10 ^ e

theorem IsMantissa.mem {text : List Char} {q : ℚ} (h : IsMantissa text q) {c : Char}
    (hc : c ∈ text) : 48 ≤ c.toNat ∧ c.toNat ≤ 57 ∨ c = '.' := by
  obtain ⟨n, hn, -⟩ | ⟨front, back, n, rfl, hn, -⟩ := h
  · exact Or.inl (hn.toNat_range c hc)
  · rw [List.mem_append, List.mem_cons] at hc
    obtain hfront | hpoint | hback := hc
    · exact Or.inl (hn.toNat_range c (List.mem_append_left back hfront))
    · exact Or.inr hpoint
    · exact Or.inl (hn.toNat_range c (List.mem_append_right front hback))

theorem IsExponent.mem {text : List Char} {e : Int} (h : IsExponent text e) {c : Char}
    (hc : c ∈ text) : 48 ≤ c.toNat ∧ c.toNat ≤ 57 ∨ c = '+' ∨ c = '-' := by
  obtain ⟨digits, n, hn, ⟨rfl, -⟩ | ⟨rfl, -⟩⟩ := h
  · obtain rfl | hdigits := List.mem_cons.mp hc
    · exact Or.inr (Or.inl rfl)
    · exact Or.inl (hn.toNat_range c hdigits)
  · obtain rfl | hdigits := List.mem_cons.mp hc
    · exact Or.inr (Or.inr rfl)
    · exact Or.inl (hn.toNat_range c hdigits)

theorem Denotes.mem {text : List Char} {q : ℚ} (h : Denotes text q) {c : Char} (hc : c ∈ text) :
    48 ≤ c.toNat ∧ c.toNat ≤ 57 ∨ c ∈ ['.', 'e', '+', '-'] := by
  simp only [List.mem_cons, List.not_mem_nil, or_false]
  obtain h | ⟨mantissa, exponent, p, e, rfl, hp, he, -⟩ := h
  · have hmantissa := h.mem hc
    tauto
  · rw [List.mem_append, List.mem_cons] at hc
    obtain hmantissa | rfl | hexponent := hc
    · have hmantissa := hp.mem hmantissa
      tauto
    · exact Or.inr (Or.inr (Or.inl rfl))
    · have hexponent := he.mem hexponent
      tauto

theorem IsMantissa.letter_not_mem {text : List Char} {q : ℚ} (h : IsMantissa text q) :
    'e' ∉ text :=
  fun hmem => absurd (h.mem hmem) (by decide)

theorem IsExponent.letter_not_mem {text : List Char} {e : Int} (h : IsExponent text e) :
    'e' ∉ text :=
  fun hmem => absurd (h.mem hmem) (by decide)

/-- Neither a mantissa nor the letter of an exponent starts with a sign. -/
theorem Denotes.ne_minus {text : List Char} {q : ℚ} (h : Denotes ('-' :: text) q) : False := by
  obtain h | ⟨mantissa, exponent, p, e, htext, hp, -, -⟩ := h
  · exact absurd (h.mem List.mem_cons_self) (by decide)
  · cases mantissa with
    | nil => cases htext
    | cons c mantissa =>
      obtain ⟨rfl, -⟩ := List.cons.inj htext
      exact absurd (hp.mem List.mem_cons_self) (by decide)

theorem IsMantissa.unique {text : List Char} {p q : ℚ} (hp : IsMantissa text p)
    (hq : IsMantissa text q) : p = q := by
  have hpoint : '.'.toNat < 48 ∨ 57 < '.'.toNat := Or.inl (by decide)
  obtain ⟨n, hn, rfl⟩ | ⟨front, back, n, rfl, hn, rfl⟩ := hp
  · obtain ⟨m, hm, rfl⟩ | ⟨front, back, m, rfl, hm, rfl⟩ := hq
    · rw [hn.unique (by decide) hm]
    · exact absurd (by simp) (hn.not_mem hpoint)
  · obtain ⟨m, hm, rfl⟩ | ⟨front', back', m, htext, hm, rfl⟩ := hq
    · exact absurd (by simp) (hm.not_mem hpoint)
    · -- There is one point only, so that both readings part the digits in the same place.
      have hnot := hn.not_mem hpoint
      rw [List.mem_append, not_or] at hnot
      obtain ⟨rfl, -, rfl⟩ := (List.append_cons_inj_of_notMem hnot.1 hnot.2).mp htext
      rw [hn.unique (by decide) hm]

theorem IsExponent.unique {text : List Char} {e f : Int} (he : IsExponent text e)
    (hf : IsExponent text f) : e = f := by
  obtain ⟨digits, n, hn, ⟨rfl, rfl⟩ | ⟨rfl, rfl⟩⟩ := he <;>
    obtain ⟨digits', m, hm, ⟨htext, rfl⟩ | ⟨htext, rfl⟩⟩ := hf <;>
    cases htext <;> rw [hn.unique (by decide) hm]

theorem Denotes.unique {text : List Char} {p q : ℚ} (hp : Denotes text p) (hq : Denotes text q) :
    p = q := by
  obtain hp | ⟨mantissa, exponent, r, e, rfl, hr, he, rfl⟩ := hp
  · obtain hq | ⟨mantissa, exponent, r, e, rfl, -, -, -⟩ := hq
    · exact hp.unique hq
    · exact absurd (by simp) hp.letter_not_mem
  · obtain hq | ⟨mantissa', exponent', r', e', htext, hr', he', rfl⟩ := hq
    · exact absurd (by simp) hq.letter_not_mem
    · obtain ⟨rfl, -, rfl⟩ :=
        (List.append_cons_inj_of_notMem hr.letter_not_mem he.letter_not_mem).mp htext
      rw [hr.unique hr', he.unique he']

/-! ## 4. The text of a decimal -/

theorem isMantissa_pointed (front back : List Char) {n : Nat}
    (h : Text.IsNumeral 10 (front ++ back) n) :
    IsMantissa (front ++ '.' :: back) (n / 10 ^ back.length) :=
  Or.inr ⟨front, back, n, rfl, h, rfl⟩

/-- A first digit, a point and the other digits; a single digit has no point. -/
theorem isMantissa_scientific (digits : List Char) {n : Nat} : Text.IsNumeral 10 digits n →
    IsMantissa (match digits with
      | c :: c' :: rest => c :: '.' :: c' :: rest
      | short => short) (n / 10 ^ (digits.length - 1)) := by
  intro h
  match digits, h with
  | c :: c' :: rest, h => exact isMantissa_pointed [c] (c' :: rest) h
  | [c], h => exact Or.inl ⟨n, h, by simp⟩
  | [], h => exact Or.inl ⟨n, h, by simp⟩

theorem isMantissa_zeros_after {digits : List Char} {n : Nat} (h : Text.IsNumeral 10 digits n)
    (k : Nat) : IsMantissa (digits ++ List.replicate k '0' ++ ['.', '0']) (n * 10 ^ k) := by
  have hdigits := h.append (Text.isNumeral_replicate_zero (by decide) (k + 1))
  rw [List.length_replicate, List.replicate_succ', ← List.append_assoc] at hdigits
  have hmantissa := isMantissa_pointed _ ['0'] hdigits
  have hvalue : ((n * 10 ^ (k + 1) + 0 : Nat) : ℚ) / 10 ^ ['0'].length = n * 10 ^ k := by
    rw [List.length_singleton, pow_one, pow_succ]
    push_cast
    ring
  rw [hvalue] at hmantissa
  exact hmantissa

theorem isMantissa_zeros_before {digits : List Char} {n : Nat} (h : Text.IsNumeral 10 digits n)
    (k : Nat) : IsMantissa ('0' :: '.' :: List.replicate k '0' ++ digits)
      (n / 10 ^ (k + digits.length)) := by
  have hdigits := (Text.isNumeral_replicate_zero (by decide) (k + 1)).append h
  rw [Nat.zero_mul, Nat.zero_add, List.replicate_succ] at hdigits
  have hmantissa := isMantissa_pointed ['0'] (List.replicate k '0' ++ digits) hdigits
  rw [List.length_append, List.length_replicate] at hmantissa
  exact hmantissa

theorem isMantissa_split {digits : List Char} {n : Nat} (h : Text.IsNumeral 10 digits n)
    (k : Nat) : IsMantissa (digits.take k ++ '.' :: digits.drop k)
      (n / 10 ^ (digits.length - k)) := by
  rw [← List.length_drop]
  exact isMantissa_pointed _ _ (by rwa [List.take_append_drop])

theorem isExponent_signed (order : Int) :
    IsExponent ((if order < 0 then '-' else '+') :: Text.decimalNumber order.natAbs) order := by
  refine ⟨_, _, Text.isNumeral_decimalNumber order.natAbs, ?_⟩
  split
  next hneg => exact Or.inr ⟨rfl, by omega⟩
  next hpos => exact Or.inl ⟨rfl, by omega⟩

theorem value_of_places {d : Decimal} {places : Nat} (h : d.exponent = -places) :
    d.value = d.digits / 10 ^ places := by
  rw [value, h, zpow_neg, zpow_natCast, div_eq_mul_inv]

/-- The exponent of the first digit takes the place of that of the last. -/
theorem value_of_order {d : Decimal} {order : Int} {places : Nat}
    (h : order = d.exponent + places) : d.value = d.digits / 10 ^ places * 10 ^ order := by
  rw [value, h, zpow_add₀ (by norm_num), zpow_natCast]
  field_simp

theorem denotes_text (d : Decimal) : Denotes d.text d.value := by
  have hdigits := Text.isNumeral_decimalNumber d.digits
  have hlength : 0 < (Text.decimalNumber d.digits).length :=
    List.length_pos_iff.mpr (Text.decimalNumber_ne_nil _)
  unfold text
  dsimp only
  generalize Text.decimalNumber d.digits = digits at hdigits hlength ⊢
  generalize horder : d.exponent + digits.length - 1 = order
  -- One case per layout; in each the point and the exponent make up for `d.exponent`.
  split
  next hzero =>
    have hvalue : d.value = (0 : Nat) / 10 ^ ['0'].length := by simp [value, hzero]
    rw [hvalue]
    exact Or.inl (isMantissa_pointed ['0'] ['0'] (Text.isNumeral_replicate_zero (by decide) 2))
  next =>
    split
    next hfar =>
      have hvalue : d.value = d.digits / 10 ^ (digits.length - 1) * 10 ^ order :=
        value_of_order (by omega)
      rw [hvalue]
      exact Or.inr ⟨_, _, _, _, rfl, isMantissa_scientific digits hdigits,
        isExponent_signed order, rfl⟩
    next =>
      refine Or.inl ?_
      split
      next hwhole =>
        have hvalue : d.value = d.digits * 10 ^ d.exponent.toNat := by
          rw [value, ← zpow_natCast, Int.toNat_of_nonneg hwhole]
        rw [hvalue]
        exact isMantissa_zeros_after hdigits _
      next hfraction =>
        split
        next hinside =>
          have hplaces : d.exponent = -(digits.length - (order.toNat + 1) : Nat) := by omega
          rw [value_of_places hplaces]
          exact isMantissa_split hdigits _
        next hbelow =>
          have hplaces : d.exponent = -((-order - 1).toNat + digits.length : Nat) := by omega
          rw [value_of_places hplaces]
          exact isMantissa_zeros_before hdigits _

/-- The text of a decimal is never that of a whole number. -/
theorem exists_mark (d : Decimal) : ∃ c ∈ d.text, c = '.' ∨ c = 'e' := by
  unfold text
  dsimp only
  split
  · exact ⟨'.', by simp, Or.inl rfl⟩
  split
  · exact ⟨'e', by simp, Or.inr rfl⟩
  split
  · exact ⟨'.', by simp, Or.inl rfl⟩
  split
  · exact ⟨'.', by simp, Or.inl rfl⟩
  · exact ⟨'.', by simp, Or.inl rfl⟩

end Decimal

namespace Double

/-! ## 5. The text of a double -/

theorem mem_text {x : Double} {c : Char} :
    c ∈ x.text ↔ x.negative = true ∧ c = '-' ∨ c ∈ x.shortest.text := by
  unfold text
  cases x.negative <;> simp

theorem text_injective {x y : Double} (h : x.text = y.text) : x = y := by
  have hx := x.shortest.denotes_text
  have hy := y.shortest.denotes_text
  have hparts : x.negative = y.negative ∧ x.shortest.text = y.shortest.text := by
    unfold text at h
    cases hxs : x.negative <;> cases hys : y.negative <;>
      simp only [hxs, hys, if_true, if_false, Bool.false_eq_true] at h
    · exact ⟨rfl, h⟩
    · exact (h ▸ hx).ne_minus.elim
    · exact (h.symm ▸ hy).ne_minus.elim
    · exact ⟨rfl, (List.cons.inj h).2⟩
  obtain ⟨hsign, htext⟩ := hparts
  rw [htext] at hx
  have hcode := code_eq_of_shortest_value (hx.unique hy)
  exact (mk.injEq ..).mpr ⟨hsign, hcode⟩

end Double

end MediaCatalog
