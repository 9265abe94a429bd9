import MediaCatalog.Text.Blank
import MediaCatalog.Text.Hex
import MediaCatalog.Toml.Table

/-! TOML values that are one word: numbers, truth values, dates and times. -/

namespace MediaCatalog.Toml

/-! ### Numbers -/

/-- Digits, with single underscores between them. -/
def digitRun? (base : Nat) (chars : List Char) : Option (List Char) :=
  let parts := Text.splitAt '_' chars
  if parts.all fun part => !part.isEmpty && part.all (Text.digitIn? base · |>.isSome) then
    some parts.flatten
  else none

def natural? (base : Nat) (chars : List Char) : Option Nat :=
  (digitRun? base chars).bind (Text.readDigits? base 0)

/-- A decimal number without zeros in front of it. -/
def plainNumber? (chars : List Char) : Option Nat :=
  match chars with
  | '0' :: _ :: _ => none
  | _ => natural? 10 chars

/-- A sign and what follows it. -/
def splitSign : List Char → Option Bool × List Char
  | '+' :: rest => (some false, rest)
  | '-' :: rest => (some true, rest)
  | chars => (none, chars)

/-- Integers have 128 bits. -/
def integer (negative : Bool) (n : Nat) : Option Value :=
  if negative then if n ≤ Nat.pow 2 127 then some (.integer (-n)) else none
  else if n < Nat.pow 2 128 then some (.integer n) else none

/-- An exponent with its sign. Its zeros in front do not count. -/
def exponent? (chars : List Char) : Option Int :=
  let (sign, digits) := splitSign chars
  (natural? 10 digits).map fun n => if sign = some true then -(n : Int) else n

/-- The double nearest to a decimal, unless that is infinite. -/
def float? (negative : Bool) (whole fraction : List Char) (exponent : Int) : Option Value := do
  let places ← if fraction.isEmpty then some [] else digitRun? 10 fraction
  let n ← plainNumber? whole
  let digits ← Text.readDigits? 10 n places
  return .float (← Double.ofDecimal? negative digits (exponent - places.length))

/-- A decimal number without its sign. -/
def decimal? (negative : Bool) (chars : List Char) : Option Value :=
  let isMark (c : Char) := c == 'e' || c == 'E'
  let mantissa := chars.takeWhile (!isMark ·)
  let mark := chars.drop mantissa.length
  match Text.splitAt '.' mantissa, mark with
  | [whole], [] => (plainNumber? whole).bind (integer negative)
  | [whole], _ :: power => (exponent? power).bind (float? negative whole [])
  | [_, []], _ => none
  | [whole, fraction], [] => float? negative whole fraction 0
  | [whole, fraction], _ :: power => (exponent? power).bind (float? negative whole fraction)
  | _, _ => none

/-- A number. Other bases than ten have no sign. -/
def number? (chars : List Char) : Option Value :=
  match splitSign chars with
  | (none, '0' :: 'x' :: digits) => (natural? 16 digits).bind (integer false)
  | (none, '0' :: 'o' :: digits) => (natural? 8 digits).bind (integer false)
  | (none, '0' :: 'b' :: digits) => (natural? 2 digits).bind (integer false)
  | (_, ['i', 'n', 'f']) | (_, ['n', 'a', 'n']) => some .notFinite
  | (sign, digits) => decimal? (sign == some true) digits

/-! ### Dates and times -/

def isDigit (c : Char) : Bool :=
  '0' ≤ c && c ≤ '9'

/-- A number of exactly so many digits, and what follows them. -/
def fixed? (count : Nat) (chars : List Char) : Option (Nat × List Char) :=
  let digits := chars.take count
  if digits.length = count && digits.all isDigit then
    (Text.readDigits? 10 0 digits).map (·, chars.drop count)
  else none

def isLeapYear (year : Nat) : Bool :=
  year % 4 == 0 && (year % 100 != 0 || year % 400 == 0)

def daysOf (year month : Nat) : Nat :=
  if month = 2 then if isLeapYear year then 29 else 28
  else if month ∈ [4, 6, 9, 11] then 30
  else 31

def expect? (c : Char) : List Char → Option (List Char)
  | d :: rest => if d = c then some rest else none
  | [] => none

/-- Passes a date. -/
def date? (chars : List Char) : Option (List Char) := do
  let (year, rest) ← fixed? 4 chars
  let (month, rest) ← fixed? 2 (← expect? '-' rest)
  let (day, rest) ← fixed? 2 (← expect? '-' rest)
  guard (1 ≤ month && month ≤ 12 && 1 ≤ day && day ≤ daysOf year month)
  return rest

/-- Passes hours and minutes. -/
def hourMinute? (chars : List Char) : Option (List Char) := do
  let (hour, rest) ← fixed? 2 chars
  let (minute, rest) ← fixed? 2 (← expect? ':' rest)
  guard (hour ≤ 23 && minute ≤ 59)
  return rest

/-- Passes a time. Seconds, and the places behind them, may be left out; a minute may have 61. -/
def time? (chars : List Char) : Option (List Char) := do
  match ← hourMinute? chars with
  | ':' :: rest =>
    let (second, rest) ← fixed? 2 rest
    guard (second ≤ 60)
    match rest with
    | '.' :: c :: places => if isDigit c then return places.dropWhile isDigit else failure
    | '.' :: [] => failure
    | rest => return rest
  | rest => return rest

/-- Whether a text is nothing, or how far a time is ahead of the world's. -/
def isOffset : List Char → Bool
  | [] | ['Z'] | ['z'] => true
  | '+' :: rest | '-' :: rest => hourMinute? rest == some []
  | _ => false

/-- A date, a time, or both with what may stand between them. -/
def isDateTime (chars : List Char) : Bool :=
  match date? chars with
  | some [] => true
  | some (c :: rest) => c ∈ ['T', 't', ' '] && (time? rest).any isOffset
  | none => time? chars == some []

/-! ### Words -/

/-- The characters of words. -/
def isWordChar (c : Char) : Bool :=
  c.isAlphanum || c ∈ ['+', '-', '_', '.', ':']

/-- A word at the start of a text, and what follows it. A time may stand a space behind a date. -/
def takeWord (chars : List Char) : List Char × List Char :=
  let word := chars.takeWhile isWordChar
  match date? word, chars.drop word.length with
  | some [], ' ' :: c :: rest =>
    if isDigit c then
      let time := (c :: rest).takeWhile isWordChar
      (word ++ ' ' :: time, (c :: rest).drop time.length)
    else (word, ' ' :: c :: rest)
  | _, rest => (word, rest)

def ofWord? (word : List Char) : Option Value :=
  if word = "true".toList then some (.boolean true)
  else if word = "false".toList then some (.boolean false)
  else if isDateTime word then some .dateTime
  else number? word

end MediaCatalog.Toml
