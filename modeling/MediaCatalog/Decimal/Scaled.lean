import MediaCatalog.Decimal.Double

/-!
Decimals read in two roundings: the significand becomes a double first, and that is multiplied or
divided by the double of a power of ten. The answer can differ from the nearest double in its last
bit.
-/

namespace MediaCatalog.Double

/-- The double nearest to a power of ten, for powers up to 308. -/
def powerOfTen (k : Nat) : Double :=
  (nearest? false (Nat.pow 10 k) 1).getD (zero false)

/-- Divides by the largest power of ten while the exponent is below its range. -/
def scaleDown? : (divisions : Nat) → Double → Int → Option Double
  | 0, x, _ => some x
  | divisions + 1, x, exponent =>
    if exponent ≥ -308 then x.div? (powerOfTen (-exponent).toNat)
    else if x.isZero then some x
    else
      match x.div? (powerOfTen 308) with
      | some y => scaleDown? divisions y (exponent + 308)
      | none => none

/--
The double of `significand * 10 ^ exponent`; none if it is out of range. A significand has at most
64 bits, so that two divisions by the largest power leave zero.
-/
def scaled? (negative : Bool) (significand : Nat) (exponent : Int) : Option Double :=
  match ofNat? negative significand with
  | none => none
  | some x =>
    if exponent < 0 then scaleDown? 4 x exponent
    else if exponent ≤ 308 then x.mul? (powerOfTen exponent.toNat)
    else if x.isZero then some x
    else none

end MediaCatalog.Double
