import Mathlib.Algebra.Order.Field.Rat
import Mathlib.Algebra.Ring.Parity
import Mathlib.Tactic.FieldSimp
import Mathlib.Tactic.Linarith
import Mathlib.Tactic.Positivity
import MediaCatalog.Proofs.Decimal.Nearest

/-!
# Rounding — the nearest double is the nearest

In units of the smallest double every magnitude is a whole number, and those of the doubles in a
binade and above are the multiples of its step (`units_eq_mul`). What is rounded to such a
multiple (`roundQuotient_isRounding`) is therefore closest among all doubles.
-/

namespace MediaCatalog.Double

/-! ## 1. Distances -/

def sign (negative : Bool) : ℤ :=
  if negative then -1 else 1

theorem sign_eq_or (negative : Bool) : sign negative = 1 ∨ sign negative = -1 := by
  cases negative with
  | false => exact Or.inl rfl
  | true => exact Or.inr rfl

theorem sign_mul_self (negative : Bool) : sign negative * sign negative = 1 := by
  cases negative <;> rfl

/-- The number that a double is. -/
def value (x : Double) : ℚ :=
  sign x.negative * x.numerator / x.denominator

/-- No double is closer to a number, and one that is as close is another only if the code is
even. -/
structure IsNearest (x : Double) (q : ℚ) : Prop where
  closest (y : Double) : |q - x.value| ≤ |q - y.value|
  even (y : Double) (tie : |q - y.value| = |q - x.value|) : y.value = x.value ∨ Even x.code

/-- The magnitude in units of the smallest double. -/
def units (x : Double) : Nat :=
  x.significand * 2 ^ x.scale

/-- The number of units in one. -/
def unitsInOne : Nat :=
  Nat.pow 2 1074

theorem unitsInOne_pos : 0 < unitsInOne := by
  unfold unitsInOne
  -- The power is too large to be written out.
  generalize 1074 = k
  exact Nat.pow_pos (by decide)

theorem pow_eq_unitsInOne : Nat.pow 2 1074 = unitsInOne := by
  unfold unitsInOne
  generalize 1074 = k
  rfl

theorem numerator_mul_unitsInOne (x : Double) :
    x.numerator * unitsInOne = x.units * x.denominator := by
  rw [← pow_eq_unitsInOne, numerator_mul, units]

theorem value_eq (x : Double) :
    x.value = (sign x.negative * x.units : ℤ) / unitsInOne := by
  have hunits : (x.numerator : ℚ) * unitsInOne = x.units * x.denominator := by
    exact_mod_cast x.numerator_mul_unitsInOne
  have hdenominator : (x.denominator : ℚ) ≠ 0 := by
    exact_mod_cast x.denominator_pos.ne'
  have hone : (unitsInOne : ℚ) ≠ 0 := by
    exact_mod_cast unitsInOne_pos.ne'
  unfold value
  rw [div_eq_div_iff hdenominator hone, mul_assoc, hunits]
  push_cast
  ring

/-! ## 2. Rounding a quotient -/

/-- A whole number within half of one from a quotient, and even if it is just half of one away. -/
structure IsRounding (num den r : Nat) : Prop where
  close : 2 * |num - r * (den : ℤ)| ≤ den
  even (half : 2 * |num - r * (den : ℤ)| = den) : Even r

theorem roundQuotient_isRounding (num : Nat) {den : Nat} (hden : 0 < den) :
    IsRounding num den (roundQuotient num den) := by
  have hnum : (num : ℤ) = den * (num / den : ℕ) + (num % den : ℕ) := by
    exact_mod_cast (Nat.div_add_mod num den).symm
  have hmod : num % den < den := Nat.mod_lt num hden
  unfold roundQuotient
  dsimp only
  generalize num / den = q at hnum ⊢
  generalize num % den = m at hnum hmod ⊢
  split
  next hup =>
    have hdistance : (num : ℤ) - ((q + 1 : ℕ) : ℤ) * den = m - den := by
      rw [hnum]
      push_cast
      ring
    simp only [Bool.or_eq_true, Bool.and_eq_true, decide_eq_true_eq, beq_iff_eq] at hup
    refine ⟨?_, fun hhalf => ?_⟩
    · rw [hdistance, abs_of_nonpos (by omega)]
      omega
    · rw [hdistance, abs_of_nonpos (by omega)] at hhalf
      have hodd : q % 2 = 1 := by omega
      rw [Nat.even_iff]
      omega
  next hdown =>
    have hdistance : (num : ℤ) - (q : ℤ) * den = m := by
      rw [hnum]
      ring
    simp only [Bool.or_eq_true, Bool.and_eq_true, decide_eq_true_eq, beq_iff_eq] at hdown
    refine ⟨?_, fun hhalf => ?_⟩
    · rw [hdistance, abs_of_nonneg (by omega)]
      omega
    · rw [hdistance, abs_of_nonneg (by omega)] at hhalf
      have heven : q % 2 = 0 := by omega
      rw [Nat.even_iff]
      omega

/-- Two whole numbers are a whole denominator apart, so that the other one is not closer. -/
theorem IsRounding.closest {num den r : Nat} (h : IsRounding num den r) (j : ℤ) :
    |num - r * (den : ℤ)| ≤ |num - j * (den : ℤ)| ∧
      (|num - j * (den : ℤ)| = |num - r * (den : ℤ)| → j = r ∨ Even r) := by
  by_cases hj : j = r
  · rw [hj]
    exact ⟨le_refl _, fun _ => Or.inl rfl⟩
  · have hapart : (den : ℤ) ≤ |(r - j) * den| := by
      rw [abs_mul, Nat.abs_cast]
      have : 1 ≤ |r - j| := Int.one_le_abs (by omega)
      nlinarith [Int.natCast_nonneg den]
    have htriangle : |(r - j) * (den : ℤ)| ≤ |num - j * (den : ℤ)| + |num - r * (den : ℤ)| := by
      have hsplit : (r - j) * (den : ℤ) = (num - j * den) - (num - r * den) := by ring
      rw [hsplit]
      exact abs_sub _ _
    have hclose := h.close
    refine ⟨by omega, fun htie => Or.inr (h.even ?_)⟩
    omega

/-! ## 3. Binades -/

/-- A double is a multiple of the step of its binade and of all smaller ones. -/
theorem units_eq_mul {x : Double} {k : Nat} (h : k ≤ x.scale) :
    x.units = x.significand * 2 ^ (x.scale - k) * 2 ^ k := by
  rw [units, Nat.mul_assoc, ← Nat.pow_add, Nat.sub_add_cancel h]

theorem units_lt {x : Double} {k : Nat} (h : x.scale < k) : x.units < 2 ^ 52 * 2 ^ k := by
  have hstep : 2 * 2 ^ x.scale ≤ 2 ^ k := by
    rw [Nat.mul_comm, ← Nat.pow_succ]
    exact Nat.pow_le_pow_right (by decide) h
  have hpos : 0 < 2 ^ x.scale := Nat.pow_pos (by decide)
  have hsignificand := x.significand_lt
  unfold units
  nlinarith

/-- A significand may also reach the next binade, where it counts half as many larger steps. -/
theorem units_of_code {x : Double} {k r : Nat} (hcode : x.code = k * 2 ^ 52 + r)
    (hlow : k ≠ 0 → 2 ^ 52 ≤ r) (hhigh : r ≤ 2 ^ 53) : x.units = r * 2 ^ k := by
  have hpow : Nat.pow 2 52 = 2 ^ 52 := rfl
  unfold units significand scale
  rw [hpow, hcode]
  by_cases hnext : r = 2 ^ 53
  · have hscale : (k * 2 ^ 52 + r) / 2 ^ 52 - 1 = k + 1 := by omega
    have hrest : k * 2 ^ 52 + r - (k + 1) * 2 ^ 52 = 2 ^ 52 := by omega
    rw [hscale, hrest, hnext, Nat.pow_succ 2 k]
    ring
  · have hscale : (k * 2 ^ 52 + r) / 2 ^ 52 - 1 = k := by omega
    have hrest : k * 2 ^ 52 + r - k * 2 ^ 52 = r := by omega
    rw [hscale, hrest]

theorem binaryOrder_bounds (num : Nat) {den : Nat} (hden : 0 < den) :
    (binaryOrder num den - 52 ≠ 0 →
      2 ^ 52 * (den * 2 ^ (binaryOrder num den - 52)) ≤ num * unitsInOne) ∧
    num * unitsInOne < 2 ^ 53 * (den * 2 ^ (binaryOrder num den - 52)) := by
  unfold binaryOrder
  rw [pow_eq_unitsInOne]
  generalize num * unitsInOne = target
  dsimp only
  split
  next hzero =>
    have hlt : target < den := by
      rwa [Nat.div_eq_zero_iff_lt hden] at hzero
    exact ⟨fun h => absurd rfl h, by omega⟩
  next hne =>
    have hself : 2 ^ Nat.log2 (target / den) ≤ target / den := Nat.log2_self_le hne
    have hlt : target / den < 2 ^ (Nat.log2 (target / den) + 1) := Nat.lt_log2_self
    generalize Nat.log2 (target / den) = order at hself hlt ⊢
    refine ⟨fun hdrop => ?_, ?_⟩
    · have hsum : 2 ^ order = 2 ^ 52 * 2 ^ (order - 52) := by
        rw [← Nat.pow_add]
        congr 1
        omega
      rw [hsum, Nat.le_div_iff_mul_le hden] at hself
      rw [Nat.mul_comm den, ← Nat.mul_assoc]
      exact hself
    · have hsum : 2 ^ (order + 1) ≤ 2 ^ 53 * 2 ^ (order - 52) := by
        rw [← Nat.pow_add]
        exact Nat.pow_le_pow_right (by decide) (by omega)
      have := (Nat.div_lt_iff_lt_mul hden).mp (hlt.trans_le hsum)
      rw [Nat.mul_comm den, ← Nat.mul_assoc]
      exact this

/-! ## 4. The nearest double -/

/-- Between the bounds of a binade a quotient is rounded to a significand of it. -/
theorem IsRounding.le {num den r a : Nat} (h : IsRounding num den r) (hden : 0 < den)
    (ha : a * den ≤ num) : a ≤ r := by
  by_contra hlt
  have hstep : (r + 1) * den ≤ a * den := Nat.mul_le_mul_right den (by omega)
  have hclose := h.close
  rw [Nat.succ_mul] at hstep
  have hdistance : (den : ℤ) ≤ num - (r * den : ℕ) := by omega
  push_cast at hdistance
  rw [abs_of_nonneg (by omega)] at hclose
  omega

theorem IsRounding.ge {num den r b : Nat} (h : IsRounding num den r) (hb : num < b * den) :
    r ≤ b := by
  by_contra hlt
  have hstep : (b + 1) * den ≤ r * den := Nat.mul_le_mul_right den (by omega)
  have hclose := h.close
  rw [Nat.succ_mul] at hstep
  have hdistance : (den : ℤ) < (r * den : ℕ) - num := by omega
  push_cast at hdistance
  rw [abs_of_nonpos (by omega)] at hclose
  omega

/-- A quotient is rounded to a significand of its binade, or to the first of the next. -/
theorem exists_significand (num : Nat) {den : Nat} (hden : 0 < den) :
    ∃ r, nearestCode num den = (binaryOrder num den - 52) * 2 ^ 52 + r ∧
      IsRounding (num * unitsInOne) (den * 2 ^ (binaryOrder num den - 52)) r ∧
      (binaryOrder num den - 52 ≠ 0 → 2 ^ 52 ≤ r) ∧ r ≤ 2 ^ 53 := by
  obtain ⟨hlower, hupper⟩ := binaryOrder_bounds num hden
  have hstep : 0 < den * 2 ^ (binaryOrder num den - 52) :=
    Nat.mul_pos hden (Nat.pow_pos (by decide))
  have hrounding := roundQuotient_isRounding (num * unitsInOne) hstep
  refine ⟨_, ?_, hrounding, fun h => hrounding.le hstep (hlower h), hrounding.ge hupper⟩
  unfold nearestCode
  rw [pow_eq_unitsInOne]
  rfl

/-- The double with the nearest code is closest in units, whatever the sign of the other one. -/
theorem closest_units {num den : Nat} {x y : Double} (hden : 0 < den)
    (hcode : x.code = nearestCode num den) {z : ℤ} (hz : z = y.units ∨ z = -y.units) :
    |(num * unitsInOne : ℕ) - x.units * (den : ℤ)| ≤ |(num * unitsInOne : ℕ) - z * (den : ℤ)| ∧
      (|(num * unitsInOne : ℕ) - z * (den : ℤ)| =
          |(num * unitsInOne : ℕ) - x.units * (den : ℤ)| → z = x.units ∨ Even x.code) := by
  obtain ⟨hlower, -⟩ := binaryOrder_bounds num hden
  obtain ⟨r, hr, hrounding, hlow, hhigh⟩ := exists_significand num hden
  rw [hr] at hcode
  generalize binaryOrder num den - 52 = k at hlower hrounding hlow hcode
  generalize num * unitsInOne = target at hlower hrounding ⊢
  have hunits : (x.units : ℤ) * den = r * ((den * 2 ^ k : ℕ) : ℤ) := by
    rw [units_of_code hcode hlow hhigh]
    push_cast
    ring
  rw [hunits]
  by_cases hscale : k ≤ y.scale
  · obtain ⟨j, hj⟩ : ∃ j : ℤ, z = j * 2 ^ k := by
      rw [units_eq_mul hscale] at hz
      push_cast at hz
      obtain hz | hz := hz
      · exact ⟨_, hz⟩
      · exact ⟨_, by rw [hz, ← neg_mul]⟩
    have hmultiple : z * (den : ℤ) = j * ((den * 2 ^ k : ℕ) : ℤ) := by
      rw [hj]
      push_cast
      ring
    rw [hmultiple]
    refine ⟨(hrounding.closest j).1, fun htie => ?_⟩
    obtain heq | heven := (hrounding.closest j).2 htie
    · left
      rw [hj, heq, units_of_code hcode hlow hhigh]
      push_cast
      ring
    · right
      rw [hcode]
      exact ((Nat.even_pow.mpr ⟨even_two, by decide⟩).mul_left k).add heven
  · -- The other double lies below the binade of the target, and its first multiple is closer.
    have hk : k ≠ 0 := by omega
    have hy : z < 2 ^ 52 * 2 ^ k := by
      have hlt : (y.units : ℤ) < 2 ^ 52 * 2 ^ k := by
        exact_mod_cast units_lt (Nat.lt_of_not_le hscale)
      omega
    have hfirst : (2 ^ 52 * ((den * 2 ^ k : ℕ) : ℤ)) ≤ target := by
      exact_mod_cast hlower hk
    have hbelow : z * (den : ℤ) < 2 ^ 52 * ((den * 2 ^ k : ℕ) : ℤ) := by
      have := mul_lt_mul_of_pos_right hy (show (0 : ℤ) < den by exact_mod_cast hden)
      push_cast
      linarith
    have hclosest := (hrounding.closest (2 ^ 52)).1
    rw [abs_of_nonneg (show 0 ≤ target - 2 ^ 52 * ((den * 2 ^ k : ℕ) : ℤ) by linarith)] at hclosest
    rw [abs_of_pos (show 0 < target - z * (den : ℤ) by linarith)]
    refine ⟨by linarith, fun htie => ?_⟩
    linarith

theorem abs_sub_div {a b : ℤ} {den : Nat} (hden : 0 < den) :
    |(a : ℚ) / (den * unitsInOne : ℕ) - b / unitsInOne| =
      |a - b * (den : ℤ)| / (den * unitsInOne : ℕ) := by
  have hden' : (den : ℚ) ≠ 0 := by exact_mod_cast hden.ne'
  have hone : (unitsInOne : ℚ) ≠ 0 := by exact_mod_cast unitsInOne_pos.ne'
  have hdifference : (a : ℚ) / (den * unitsInOne : ℕ) - b / unitsInOne =
      (a - b * (den : ℤ) : ℤ) / (den * unitsInOne : ℕ) := by
    push_cast
    field_simp
  rw [hdifference, abs_div, Nat.abs_cast, Int.cast_abs]

theorem abs_sign_mul_sub (negative : Bool) (a b : ℤ) :
    |sign negative * a - b| = |a - sign negative * b| := by
  obtain h | h := sign_eq_or negative
  · rw [h, one_mul, one_mul]
  · rw [h, ← abs_neg]
    congr 1
    ring

theorem isNearest_of_code {num den : Nat} {x : Double} (hden : 0 < den)
    (hcode : x.code = nearestCode num den) : x.IsNearest (sign x.negative * num / den) := by
  have hpos : (0 : ℚ) < (den * unitsInOne : ℕ) := by
    exact_mod_cast Nat.mul_pos hden unitsInOne_pos
  have hquotient : (sign x.negative * num / den : ℚ) =
      (sign x.negative * (num * unitsInOne : ℕ) : ℤ) / (den * unitsInOne : ℕ) := by
    have hden' : (den : ℚ) ≠ 0 := by exact_mod_cast hden.ne'
    have hone : (unitsInOne : ℚ) ≠ 0 := by exact_mod_cast unitsInOne_pos.ne'
    push_cast
    field_simp
  have hdistance (y : Double) : |(sign x.negative * num / den : ℚ) - y.value| =
      |(num * unitsInOne : ℕ) - sign x.negative * (sign y.negative * y.units) * (den : ℤ)| /
        (den * unitsInOne : ℕ) := by
    rw [hquotient, value_eq, abs_sub_div hden, abs_sign_mul_sub, ← mul_assoc]
  have hself : sign x.negative * (sign x.negative * x.units) = (x.units : ℤ) := by
    rw [← mul_assoc, sign_mul_self, one_mul]
  have hother (y : Double) : sign x.negative * (sign y.negative * y.units) = (y.units : ℤ) ∨
      sign x.negative * (sign y.negative * y.units) = -(y.units : ℤ) := by
    obtain h | h := sign_eq_or x.negative <;> obtain h' | h' := sign_eq_or y.negative <;>
      simp [h, h']
  refine ⟨fun y => ?_, fun y htie => ?_⟩
  · have hclosest := (closest_units hden hcode (hother y)).1
    rw [hdistance, hdistance, hself]
    exact div_le_div_of_nonneg_right (by exact_mod_cast hclosest) hpos.le
  · rw [hdistance, hdistance, hself, div_left_inj' hpos.ne', Int.cast_inj] at htie
    obtain heq | heven := (closest_units hden hcode (hother y)).2 htie
    · left
      rw [value_eq, value_eq, ← heq, ← mul_assoc (sign x.negative), sign_mul_self, one_mul]
    · exact Or.inr heven

/-- What is taken for a quotient is the double nearest to it. -/
theorem isNearest_of_nearest? {negative : Bool} {num den : Nat} {x : Double} (hden : 0 < den)
    (h : nearest? negative num den = some x) : x.IsNearest (sign negative * num / den) := by
  unfold nearest? at h
  split at h
  next hfinite =>
    cases h
    exact isNearest_of_code hden rfl
  next => cases h

/-! ## 5. Whole numbers -/

theorem binaryOrder_lt {n bits : Nat} (h : n < 2 ^ bits) :
    binaryOrder n 1 < bits + 1074 + 1 := by
  unfold binaryOrder
  generalize 1074 = k
  dsimp only
  split
  next => omega
  next hne =>
    have hlog : Nat.log2 (n * Nat.pow 2 k / 1) < bits + k := by
      rw [Nat.log2_lt hne, Nat.div_one, Nat.pow_add]
      exact Nat.mul_lt_mul_of_pos_right h (Nat.pow_pos (by decide))
    omega

theorem nearestCode_lt {n : Nat} (h : n < 2 ^ 64) : nearestCode n 1 < codeBound := by
  obtain ⟨r, hr, -, -, hhigh⟩ := exists_significand n Nat.one_pos
  have horder := binaryOrder_lt h
  have hbound : codeBound = 2047 * 2 ^ 52 := rfl
  rw [hr, hbound]
  omega

/-- The whole numbers of 64 bits have a nearest double. -/
theorem exists_ofNat? (negative : Bool) {n : Nat} (h : n < 2 ^ 64) :
    ∃ x, ofNat? negative n = some x := by
  unfold ofNat? nearest?
  rw [dif_pos (nearestCode_lt h)]
  exact ⟨_, rfl⟩

end MediaCatalog.Double
