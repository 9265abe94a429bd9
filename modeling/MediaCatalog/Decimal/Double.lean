/-!
Finite binary64 numbers, kept as a sign and a whole code so that equality is decidable and every
operation is exact arithmetic on whole numbers.
-/

namespace MediaCatalog

/-- Codes at and above this one stand for infinity and for no number. -/
def Double.codeBound : Nat := 2047 * Nat.pow 2 52

/--
A finite binary64 number. Codes count the magnitudes upwards from zero: the next code is the next
larger number.
-/
structure Double where
  negative : Bool
  code : Nat
  finite : code < Double.codeBound
  deriving DecidableEq

namespace Double

/-- Half-to-even rounding of a quotient. -/
def roundQuotient (num den : Nat) : Nat :=
  let q := num / den
  let twice := 2 * (num % den)
  if twice > den || (twice == den && q % 2 == 1) then q + 1 else q

/-- The magnitude is `significand * 2 ^ (scale - 1074)`. -/
def scale (d : Double) : Nat :=
  d.code / Nat.pow 2 52 - 1

def significand (d : Double) : Nat :=
  d.code - d.scale * Nat.pow 2 52

/-- The magnitude as a quotient. -/
def numerator (d : Double) : Nat :=
  d.significand * Nat.pow 2 (d.scale - 1074)

def denominator (d : Double) : Nat :=
  Nat.pow 2 (1074 - d.scale)

/-- The whole part of the binary logarithm of a quotient, counted from `-1074`, and 0 below that. -/
def binaryOrder (num den : Nat) : Nat :=
  let n := num * Nat.pow 2 1074 / den
  if n = 0 then 0 else Nat.log2 n

/-- The code of the double nearest to a quotient, ties to the even code; possibly out of range. -/
def nearestCode (num den : Nat) : Nat :=
  -- 53 bits of the quotient are kept, fewer below the smallest normal number
  let drop := binaryOrder num den - 52
  drop * Nat.pow 2 52 + roundQuotient (num * Nat.pow 2 1074) (den * Nat.pow 2 drop)

/-- The double nearest to a quotient; none if that is infinity. -/
def nearest? (negative : Bool) (num den : Nat) : Option Double :=
  if h : nearestCode num den < codeBound then some ⟨negative, nearestCode num den, h⟩ else none

def zero (negative : Bool) : Double :=
  ⟨negative, 0, by decide⟩

/-- The double nearest to `digits * 10 ^ exponent`. -/
def ofDecimal? (negative : Bool) (digits : Nat) (exponent : Int) : Option Double :=
  if digits = 0 then some (zero negative)
  else
    -- beyond these bounds the answer is known without building the power of ten
    let order := exponent + (Nat.log2 digits : Int) * 30103 / 100000
    if order > 400 then none
    else if order < -400 then some (zero negative)
    else if exponent ≥ 0 then nearest? negative (digits * Nat.pow 10 exponent.toNat) 1
    else nearest? negative digits (Nat.pow 10 (-exponent).toNat)

/-- The double nearest to a whole number. -/
def ofNat? (negative : Bool) (n : Nat) : Option Double :=
  nearest? negative n 1

def mul? (a b : Double) : Option Double :=
  nearest? (a.negative != b.negative) (a.numerator * b.numerator) (a.denominator * b.denominator)

/-- Division by a double that is not zero. -/
def div? (a b : Double) : Option Double :=
  nearest? (a.negative != b.negative) (a.numerator * b.denominator) (a.denominator * b.numerator)

def isZero (d : Double) : Bool :=
  d.code == 0

end Double

end MediaCatalog
