/-! Hexadecimal and octal digits. -/

namespace MediaCatalog.Text

/-- The value of a digit up to 35, letters in either case. -/
def digitValue? (c : Char) : Option Nat :=
  let n := c.toNat
  if 48 ≤ n ∧ n ≤ 57 then some (n - 48)
  else if 97 ≤ n ∧ n ≤ 122 then some (n - 87)
  else if 65 ≤ n ∧ n ≤ 90 then some (n - 55)
  else none

/-- The value of a digit in the given base. -/
def digitIn? (base : Nat) (c : Char) : Option Nat :=
  match digitValue? c with
  | some d => if d < base then some d else none
  | none => none

/-- Reads digits after a value already read; any other character is refused. -/
def readDigits? (base : Nat) : Nat → List Char → Option Nat
  | value, [] => some value
  | value, c :: rest =>
    match digitIn? base c with
    | some d => readDigits? base (value * base + d) rest
    | none => none

/-- The character of a digit below 16, letters in lower case. -/
def hexDigit (d : Nat) : Char :=
  Char.ofNat (if d < 10 then 48 + d else 87 + d)

/-- The last `width` hexadecimal digits of a number. -/
def hexDigits : (width : Nat) → Nat → List Char
  | 0, _ => []
  | width + 1, n => hexDigits width (n / 16) ++ [hexDigit (n % 16)]

/-- A number in hexadecimal without leading zeros. -/
def hexNumber (n : Nat) : List Char :=
  if n < 16 then [hexDigit n] else hexNumber (n / 16) ++ [hexDigit (n % 16)]
termination_by n
decreasing_by exact Nat.div_lt_self (by omega) (by omega)

/-- A number in decimal. -/
def decimalNumber (n : Nat) : List Char :=
  if n < 10 then [hexDigit n] else decimalNumber (n / 10) ++ [hexDigit (n % 10)]
termination_by n
decreasing_by exact Nat.div_lt_self (by omega) (by omega)

end MediaCatalog.Text
