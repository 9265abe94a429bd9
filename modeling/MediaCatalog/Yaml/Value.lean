import MediaCatalog.Json.Basic
import MediaCatalog.Json.Printer
import MediaCatalog.Decimal.Shortest
import MediaCatalog.Yaml.Anchor

/-! The values that YAML documents hold. -/

namespace MediaCatalog.Yaml

/-- A number with a fraction: a double, or one of the values that are not finite. -/
inductive Real where
  | finite (x : Double)
  | infinity (negative : Bool)
  | notANumber
  deriving DecidableEq

inductive Value where
  | null
  | bool (b : Bool)
  | integer (n : Int)
  | real (x : Real)
  | string (s : String)
  | sequence (items : List Value)
  | mapping (entries : List (Value × Value))
  /-- A value with a tag of its own, given without its exclamation mark. -/
  | tagged (tag : String) (value : Value)

namespace Value

/-- Equal as a key: both zeros are one, and so are all values that are not numbers. -/
def sameReal : Real → Real → Bool
  | .finite x, .finite y => x == y || (x.code == 0 && y.code == 0)
  | x, y => x == y

mutual

/-- Whether two values are the same key. The order of a mapping does not matter. -/
def same : Value → Value → Bool
  | .null, .null => true
  | .bool a, .bool b => a == b
  | .integer a, .integer b => a == b
  | .real x, .real y => sameReal x y
  | .string a, .string b => a == b
  | .sequence as, .sequence bs => sameItems as bs
  | .mapping as, .mapping bs => as.length == bs.length && sameEntries as bs
  | .tagged s a, .tagged t b => s == t && same a b
  | _, _ => false

def sameItems : List Value → List Value → Bool
  | [], [] => true
  | a :: as, b :: bs => same a b && sameItems as bs
  | _, _ => false

/-- Whether every entry of the first mapping is one of the second. -/
def sameEntries : List (Value × Value) → List (Value × Value) → Bool
  | [], _ => true
  | (k, v) :: rest, bs => bs.any (fun e => same k e.1 && same v e.2) && sameEntries rest bs

end

/-- The value under a string; a tag on the mapping does not matter. -/
def get? (key : String) : Value → Option Value
  | .mapping entries =>
    (entries.find? fun e => match e.1 with
      | .string s => s == key
      | _ => false).map Prod.snd
  | .tagged _ value => value.get? key
  | _ => none

/-- Whether a value is a mapping, with a tag or without. -/
def isMapping : Value → Bool
  | .mapping _ => true
  | .tagged _ value => value.isMapping
  | _ => false

/-- The text of a key. Null, collections and values that are not finite have none. -/
def keyText? : Value → Option String
  | .string s => some s
  | .bool b => some (if b then "true" else "false")
  | .integer n => some (toString n)
  | .real (.finite x) => some (String.ofList x.text)
  | _ => none

/-- A tag as written; an exclamation mark that it starts with counts. -/
def tagText (tag : String) : String :=
  if tag.length > 1 && tag.startsWith "!" then tag else "!" ++ tag

mutual

/--
The value in JSON. A tag becomes the only key of an object, and values that are not finite become
null; a mapping needs a text for each of its keys.
-/
def toJson? : Value → Option Json
  | .null => some .null
  | .bool b => some (.bool b)
  | .integer n => some (.number (.whole n))
  | .real (.finite x) => some (.number (.real x))
  | .real _ => some .null
  | .string s => some (.string s)
  | .sequence items => (toJsonItems? items).map .array
  | .mapping entries => (toJsonMembers? [] entries).map .object
  | .tagged tag value => value.toJson?.map fun v => .object [(tagText tag, v)]

def toJsonItems? : List Value → Option (List Json)
  | [] => some []
  | v :: rest => do
    let v ← v.toJson?
    let rest ← toJsonItems? rest
    return v :: rest

def toJsonMembers? (done : Json.Members) : List (Value × Value) → Option Json.Members
  | [] => some done
  | (k, v) :: rest => do
    let key ← k.keyText?
    let v ← v.toJson?
    toJsonMembers? (done.put key v) rest

end

/-! ### Scalars -/

/-- A number that starts with zero and goes on with digits is a text. -/
def isPadded (text : List Char) : Bool :=
  let digits := match text with
    | '-' :: rest | '+' :: rest => rest
    | _ => text
  digits.length > 1 && digits.head? == some '0' && digits.all Char.isDigit

/-- Reads digits, at least one. -/
def digits? (base : Nat) (text : List Char) : Option Nat :=
  if text.isEmpty then none else Text.readDigits? base 0 text

/-- Reads the digits behind a mark of their base. -/
def basedDigits? : List Char → Option Nat
  | '0' :: 'x' :: rest => digits? 16 rest
  | '0' :: 'o' :: rest => digits? 8 rest
  | '0' :: 'b' :: rest => digits? 2 rest
  | _ => none

/-- Reads an integer. A sign may stand before it. -/
def integer? (text : List Char) : Option Int :=
  let (negative, digits) := match text with
    | '-' :: rest => (true, rest)
    | '+' :: rest => (false, rest)
    | _ => (false, text)
  let magnitude? := match basedDigits? digits with
    | some n => some n
    | none => if isPadded text then none else digits? 10 digits
  magnitude?.map fun n => if negative then -(n : Int) else n

/-- Reads the exponent of a decimal; a text without one has the exponent zero. -/
def exponent? : List Char → Option Int
  | [] => some 0
  | e :: rest =>
    if e != 'e' && e != 'E' then none
    else
      match rest with
      | '-' :: digits => (digits? 10 digits).map fun n => -(n : Int)
      | '+' :: digits => (digits? 10 digits).map Int.ofNat
      | digits => (digits? 10 digits).map Int.ofNat

/-- Reads a decimal. A sign may stand before it, and digits on one side of the point are enough. -/
def decimal? (text : List Char) : Option Double :=
  let (negative, text) := match text with
    | '-' :: rest => (true, rest)
    | '+' :: rest => (false, rest)
    | _ => (false, text)
  let whole := text.takeWhile Char.isDigit
  let rest := text.dropWhile Char.isDigit
  let (fraction, rest) := match rest with
    | '.' :: rest => (rest.takeWhile Char.isDigit, rest.dropWhile Char.isDigit)
    | _ => ([], rest)
  match digits? 10 (whole ++ fraction), exponent? rest with
  | some n, some e => Double.ofDecimal? negative n (e - fraction.length)
  | _, _ => none

/-- Reads a number with a fraction. -/
def real? (text : String) : Option Real :=
  if text ∈ [".inf", ".Inf", ".INF", "+.inf", "+.Inf", "+.INF"] then some (.infinity false)
  else if text ∈ ["-.inf", "-.Inf", "-.INF"] then some (.infinity true)
  else if text ∈ [".nan", ".NaN", ".NAN"] then some .notANumber
  else (decimal? text.toList).map .finite

def bool? (text : String) : Option Bool :=
  if text ∈ ["true", "True", "TRUE"] then some true
  else if text ∈ ["false", "False", "FALSE"] then some false
  else none

def isNull (text : String) : Bool :=
  text ∈ ["null", "Null", "NULL", "~"]

/-- Whether an integer has a value of its own: those of 64 bits have. -/
def isWord (n : Int) : Bool :=
  -(Nat.pow 2 63 : Int) ≤ n && n < Nat.pow 2 64

/-- Whether an integer is refused: one of more than 64 bits that would fit 128. -/
def isWide (n : Int) : Bool :=
  !isWord n && -(Nat.pow 2 127 : Int) ≤ n && n < Nat.pow 2 128

/-- The value of a plain scalar. The outer `none` refuses it, as an integer that is too wide. -/
def ofPlain? (text : String) : Option Value :=
  if text.isEmpty || isNull text then some .null
  else
    match bool? text with
    | some b => some (.bool b)
    | none =>
      match integer? text.toList with
      | some n =>
        if isWord n then some (.integer n)
        else if isWide n then none
        else some (fraction text)
      | none => some (fraction text)
where
  fraction (text : String) : Value :=
    if isPadded text.toList then .string text
    else
      match real? text with
      | some x => .real x
      | none => .string text

/-- The value of a scalar with or without a tag of the core schema. -/
def ofScalar? (tag? : Option TagBytes) (text : String) (plain : Bool) : Option Value :=
  match tag? with
  | none => if plain then ofPlain? text else some (.string text)
  | some tag =>
    if tag = bytesOf "tag:yaml.org,2002:bool".toList then (bool? text).map .bool
    else if tag = bytesOf "tag:yaml.org,2002:int".toList then
      match integer? text.toList with
      | some n => if isWord n then some (.integer n) else none
      | none => none
    else if tag = bytesOf "tag:yaml.org,2002:float".toList then (real? text).map .real
    else if tag = bytesOf "tag:yaml.org,2002:null".toList then
      if isNull text then some .null else none
    else some (.string text)

/-- The name of a tag of the document's own, which starts with an exclamation mark. -/
def ownTag? : Option TagBytes → Option String
  | some (first :: rest) =>
    if first = '!'.toUInt8 then String.fromUTF8? ⟨rest.toArray⟩ else none
  | _ => none

end Value

end MediaCatalog.Yaml
