import Mathlib.Tactic.Ring
import MediaCatalog.Decimal.Double

/-!
# Nearest doubles — rounding depends on the number alone and leaves doubles as they are

`nearestCode` works on a numerator and a denominator. It gives the same code for every way to write
a quotient (`nearestCode_congr`), and for the magnitude of a double its own code
(`nearestCode_self`).
-/

namespace MediaCatalog.Double

/-! ## 1. Quotients -/

theorem roundQuotient_mul (num den : Nat) {k : Nat} (hk : 0 < k) :
    roundQuotient (num * k) (den * k) = roundQuotient num den := by
  have hgt : 2 * (num % den * k) > den * k ↔ 2 * (num % den) > den := by
    rw [← Nat.mul_assoc]
    exact Nat.mul_lt_mul_right hk
  have heq : 2 * (num % den * k) = den * k ↔ 2 * (num % den) = den := by
    rw [← Nat.mul_assoc]
    exact Nat.mul_left_inj (Nat.ne_of_gt hk)
  unfold roundQuotient
  simp only [Nat.mul_div_mul_right _ _ hk, Nat.mul_mod_mul_right, hgt, beq_eq_decide, heq]

theorem roundQuotient_exact (q : Nat) {den : Nat} (hden : 0 < den) :
    roundQuotient (q * den) den = q := by
  unfold roundQuotient
  rw [Nat.mul_div_cancel _ hden, Nat.mul_mod_left]
  simp [Nat.ne_of_lt hden]

theorem nearestCode_mul (num den : Nat) {k : Nat} (hk : 0 < k) :
    nearestCode (num * k) (den * k) = nearestCode num den := by
  have horder : binaryOrder (num * k) (den * k) = binaryOrder num den := by
    unfold binaryOrder
    rw [Nat.mul_right_comm, Nat.mul_div_mul_right _ _ hk]
  unfold nearestCode
  dsimp only
  rw [horder, Nat.mul_right_comm num, Nat.mul_right_comm den, roundQuotient_mul _ _ hk]

/-- Only the quotient counts, not how it is written. -/
theorem nearestCode_congr {num den num' den' : Nat} (hden : 0 < den) (hden' : 0 < den')
    (h : num * den' = num' * den) : nearestCode num den = nearestCode num' den' := by
  rw [← nearestCode_mul num den hden', ← nearestCode_mul num' den' hden, h, Nat.mul_comm den]

/-! ## 2. Doubles -/

/-- The code counts the steps of all binades below, and those in its own. -/
theorem code_eq (x : Double) : x.code = x.scale * 2 ^ 52 + x.significand := by
  have hle : x.scale * 2 ^ 52 ≤ x.code := by
    unfold scale
    have hpow : Nat.pow 2 52 = 2 ^ 52 := rfl
    rw [hpow]
    omega
  exact (Nat.add_sub_of_le hle).symm

theorem significand_lt (x : Double) : x.significand < 2 ^ 53 := by
  have hpow : Nat.pow 2 52 = 2 ^ 52 := rfl
  unfold significand scale
  rw [hpow]
  omega

/-- Only the lowest binade has significands without a leading bit. -/
theorem le_significand {x : Double} (h : x.scale ≠ 0) : 2 ^ 52 ≤ x.significand := by
  have hpow : Nat.pow 2 52 = 2 ^ 52 := rfl
  unfold significand
  unfold scale at h ⊢
  rw [hpow] at h ⊢
  omega

theorem denominator_pos (x : Double) : 0 < x.denominator :=
  Nat.pow_pos (by decide)

/-- In units of the smallest double the magnitude is a whole number. -/
theorem numerator_mul (x : Double) :
    x.numerator * Nat.pow 2 1074 = x.significand * 2 ^ x.scale * x.denominator := by
  unfold numerator denominator
  -- The exponent of the unit plays no part, and its power is too large to be written out.
  generalize 1074 = k
  have hexponent : x.scale - k + k = x.scale + (k - x.scale) := by omega
  rw [Nat.pow_eq, Nat.pow_eq, Nat.pow_eq, Nat.mul_assoc, ← Nat.pow_add, hexponent, Nat.pow_add,
    Nat.mul_assoc]

/-- The bits beyond the 53 that are kept. -/
theorem binaryOrder_self (x : Double) :
    binaryOrder x.numerator x.denominator - 52 = x.scale := by
  have hunits : x.numerator * Nat.pow 2 1074 / x.denominator = x.significand * 2 ^ x.scale := by
    rw [numerator_mul, Nat.mul_div_cancel _ x.denominator_pos]
  unfold binaryOrder
  rw [hunits]
  dsimp only
  split
  next hzero =>
    by_cases hscale : x.scale = 0
    · rw [hscale]
    · have hpos := le_significand hscale
      have hfactor : 0 < 2 ^ x.scale := Nat.pow_pos (by decide)
      have := Nat.mul_pos (by omega : 0 < x.significand) hfactor
      omega
  next hne =>
    have hlt := x.significand_lt
    have hupper : Nat.log2 (x.significand * 2 ^ x.scale) < 53 + x.scale := by
      rw [Nat.log2_lt hne, Nat.pow_add]
      exact Nat.mul_lt_mul_of_pos_right hlt (Nat.pow_pos (by decide))
    by_cases hscale : x.scale = 0
    · omega
    · have hlower : 52 + x.scale ≤ Nat.log2 (x.significand * 2 ^ x.scale) := by
        rw [Nat.le_log2 hne, Nat.pow_add]
        exact Nat.mul_le_mul_right _ (le_significand hscale)
      omega

/-- A double is nearest to itself. -/
theorem nearestCode_self (x : Double) : nearestCode x.numerator x.denominator = x.code := by
  have hpos : 0 < x.denominator * Nat.pow 2 x.scale :=
    Nat.mul_pos x.denominator_pos (Nat.pow_pos (by decide))
  have hunits : x.numerator * Nat.pow 2 1074 =
      x.significand * (x.denominator * Nat.pow 2 x.scale) := by
    rw [numerator_mul, Nat.mul_assoc, Nat.mul_comm x.denominator]
    rfl
  unfold nearestCode
  dsimp only
  rw [binaryOrder_self, hunits, roundQuotient_exact _ hpos]
  exact x.code_eq.symm

end MediaCatalog.Double
