import MediaCatalog.Decimal.Double
import MediaCatalog.Text.Hex

/-!
The shortest decimal that reads back as a given double, and its text.

For one digit, two digits and so on, the two neighbours of the double on that decimal grid are
read back; the first grid with a hit gives the digits, of two hits the nearer one.
-/

namespace MediaCatalog

/-- The number `digits * 10 ^ exponent`. -/
structure Decimal where
  digits : Nat
  exponent : Int
  deriving DecidableEq

namespace Decimal

def numerator (d : Decimal) : Nat :=
  d.digits * Nat.pow 10 d.exponent.toNat

def denominator (d : Decimal) : Nat :=
  Nat.pow 10 (-d.exponent).toNat

/-- The same number without zeros at the end of its digits. -/
def reduce (d : Decimal) : Decimal :=
  if d.digits = 0 ∨ d.digits % 10 ≠ 0 then d else reduce ⟨d.digits / 10, d.exponent + 1⟩
termination_by d.digits
decreasing_by exact Nat.div_lt_self (by omega) (by omega)

/-- Whether a decimal reads back as the magnitude of a double. -/
def readsAs (d : Decimal) (x : Double) : Bool :=
  Double.nearestCode d.numerator d.denominator == x.code

end Decimal

namespace Double

/-- The whole part of the decimal logarithm of a magnitude that is not zero. -/
def decimalOrder (x : Double) : Int :=
  let binary : Int := (binaryOrder x.numerator x.denominator : Int) - 1074
  let guess := binary * 30103 / 100000
  let next : Decimal := ⟨1, guess + 1⟩
  if next.numerator * x.denominator ≤ x.numerator * next.denominator then guess + 1 else guess

/-- The decimal with `count` digits, next below or next above, that reads back as the double. -/
def onGrid? (x : Double) (count : Nat) : Option Decimal :=
  let exponent := x.decimalOrder + 1 - count
  let num := x.numerator * Nat.pow 10 (-exponent).toNat
  let den := x.denominator * Nat.pow 10 exponent.toNat
  let below : Decimal := ⟨num / den, exponent⟩
  let above : Decimal := ⟨num / den + 1, exponent⟩
  if below.readsAs x then
    if above.readsAs x ∧ roundQuotient num den ≠ num / den then some above else some below
  else if above.readsAs x then some above
  else none

/-- All digits of the magnitude. -/
def exactDecimal (x : Double) : Decimal :=
  ⟨x.numerator * Nat.pow 5 (1074 - x.scale), -((1074 - x.scale : Nat) : Int)⟩

/-- The decimal with the fewest digits that reads back as the magnitude. -/
def shortest (x : Double) : Decimal :=
  if x.code = 0 then ⟨0, 0⟩
  else (((List.range' 1 17).findSome? x.onGrid?).getD x.exactDecimal).reduce

end Double

namespace Decimal

/--
Numbers whose leading digit stands between the fifth place after the point and the sixteenth
before it are written out, with at least one digit on either side of the point. All others have
one digit before the point and an exponent with its sign.
-/
def text (d : Decimal) : List Char :=
  let digits := Text.decimalNumber d.digits
  let order : Int := d.exponent + digits.length - 1
  if d.digits = 0 then ['0', '.', '0']
  else if order > 15 ∨ order < -5 then
    let mantissa :=
      match digits with
      | c :: c' :: rest => c :: '.' :: c' :: rest
      | short => short
    let sign := if order < 0 then '-' else '+'
    mantissa ++ 'e' :: sign :: Text.decimalNumber order.natAbs
  else if d.exponent ≥ 0 then
    digits ++ List.replicate d.exponent.toNat '0' ++ ['.', '0']
  else if order ≥ 0 then
    digits.take (order.toNat + 1) ++ '.' :: digits.drop (order.toNat + 1)
  else
    '0' :: '.' :: List.replicate (-order - 1).toNat '0' ++ digits

end Decimal

/-- The text of a double; zero keeps its sign. -/
def Double.text (x : Double) : List Char :=
  if x.negative then '-' :: x.shortest.text else x.shortest.text

end MediaCatalog
