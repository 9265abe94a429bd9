import MediaCatalog.Decimal.Scaled
import MediaCatalog.Json.Basic
import MediaCatalog.Text.Hex

/-!
Reading JSON texts. A value read keeps every member as written, repeated keys included;
`Json.parse?` is the reader that settles them. A fault says what is wrong and where reading
stopped, so that the place can be told in lines and columns.
-/

namespace MediaCatalog.Json

/-- What is wrong with a text. -/
inductive FaultKind where
  | endInList | endInObject | endInString | endInValue
  | expectedColon | expectedListEnd | expectedObjectEnd | expectedWord | expectedValue
  | invalidEscape | invalidNumber | numberOutOfRange | controlCharacter | keyNotString
  | loneSurrogate | hexEscapeCut | trailingComma | trailingCharacters | tooDeep
  deriving DecidableEq

def FaultKind.message : FaultKind → String
  | .endInList => "EOF while parsing a list"
  | .endInObject => "EOF while parsing an object"
  | .endInString => "EOF while parsing a string"
  | .endInValue => "EOF while parsing a value"
  | .expectedColon => "expected `:`"
  | .expectedListEnd => "expected `,` or `]`"
  | .expectedObjectEnd => "expected `,` or `\x7d`"
  | .expectedWord => "expected ident"
  | .expectedValue => "expected value"
  | .invalidEscape => "invalid escape"
  | .invalidNumber => "invalid number"
  | .numberOutOfRange => "number out of range"
  | .controlCharacter => "control character (\\u0000-\\u001F) found while parsing a string"
  | .keyNotString => "key must be a string"
  | .loneSurrogate => "lone leading surrogate in hex escape"
  | .hexEscapeCut => "unexpected end of hex escape"
  | .trailingComma => "trailing comma"
  | .trailingCharacters => "trailing characters"
  | .tooDeep => "recursion limit exceeded"

/-- The fault, the text from where it was found, and how many bytes beyond that it stands. -/
structure Fault where
  kind : FaultKind
  rest : List Char
  ahead : Nat

/-- A fault at a character that is not yet taken. -/
def Fault.at (kind : FaultKind) (rest : List Char) : Fault :=
  ⟨kind, rest, 1⟩

/-- A fault behind the characters taken. -/
def Fault.after (kind : FaultKind) (rest : List Char) : Fault :=
  ⟨kind, rest, 0⟩

def byteLength (text : List Char) : Nat :=
  (text.map Char.utf8Size).foldl (· + ·) 0

/-- The line, and the number of bytes in it, after the given number of bytes. -/
def place : (bytes line column : Nat) → List Char → Nat × Nat
  | bytes, line, column, [] => (line, column + bytes)
  | bytes, line, column, c :: rest =>
    if bytes < c.utf8Size then (line, column + bytes)
    else if c = '\n' then place (bytes - 1) (line + 1) 0 rest
    else place (bytes - c.utf8Size) line (column + c.utf8Size) rest

/-- The message for a fault in a text, with its line and column counted from one. -/
def Fault.message (f : Fault) (text : List Char) : String :=
  let total := byteLength text
  let (line, column) := place (min total (total - byteLength f.rest + f.ahead)) 1 0 text
  s!"{f.kind.message} at line {line} column {column}"

abbrev Reading (α : Type) := Except Fault (α × List Char)

namespace Reader

def isDigit (c : Char) : Bool :=
  '0' ≤ c && c ≤ '9'

/-- The value of a decimal digit. -/
def digit (c : Char) : Nat :=
  c.toNat - 48

def skipSpace : List Char → List Char
  | [] => []
  | c :: rest =>
    if c = ' ' ∨ c = '\n' ∨ c = '\t' ∨ c = '\r' then skipSpace rest else c :: rest

/-! ## Numbers -/

/-- Significands have 64 bits. -/
def significandBound : Nat := UInt64.size

def real (negative : Bool) (significand : Nat) (exponent : Int) (rest : List Char) :
    Reading Number :=
  match Double.scaled? negative significand exponent with
  | some x => .ok (.real x, rest)
  | none => .error (.after .numberOutOfRange rest)

/-- The digits of an exponent, after its first; exponents have 31 bits. -/
def exponentDigits (negative : Bool) (significand : Nat) (start : Int) (down : Bool) :
    Nat → List Char → Reading Number
  | e, [] => real negative significand (if down then start - e else start + e) []
  | e, c :: rest =>
    if isDigit c then
      let e' := e * 10 + digit c
      if e' ≥ Nat.pow 2 31 then
        if significand ≠ 0 ∧ down = false then .error (.after .numberOutOfRange rest)
        else .ok (.real (Double.zero negative), rest.dropWhile isDigit)
      else exponentDigits negative significand start down e' rest
    else real negative significand (if down then start - e else start + e) (c :: rest)

/-- An exponent without its letter. -/
def exponent (negative : Bool) (significand : Nat) (start : Int) (s : List Char) :
    Reading Number :=
  let (down, digits) :=
    match s with
    | '+' :: rest => (false, rest)
    | '-' :: rest => (true, rest)
    | _ => (false, s)
  match digits with
  | [] => .error (.after .endInValue [])
  | c :: rest =>
    if isDigit c then exponentDigits negative significand start down (digit c) rest
    else .error (.after .invalidNumber rest)

/-- What may follow the digits of a number with a point. -/
def afterFraction (negative : Bool) (significand : Nat) (start : Int) :
    List Char → Reading Number
  | 'e' :: rest | 'E' :: rest => exponent negative significand start rest
  | rest => real negative significand start rest

/-- The digits behind a point; those for which the significand has no room are passed over. -/
def fraction (negative : Bool) (start : Int) : (taken significand : Nat) → List Char →
    Reading Number
  | taken, significand, [] =>
    if taken = 0 then .error (.at .endInValue [])
    else afterFraction negative significand (start - taken) []
  | taken, significand, c :: rest =>
    if isDigit c then
      let significand' := significand * 10 + digit c
      if significand' ≥ significandBound then
        afterFraction negative significand (start - taken) (rest.dropWhile isDigit)
      else fraction negative start (taken + 1) significand' rest
    else if taken = 0 then .error (.at .invalidNumber (c :: rest))
    else afterFraction negative significand (start - taken) (c :: rest)

/-- A whole number keeps its digits if it fits 64 bits; minus zero does not. -/
def wholeOrReal (negative : Bool) (significand : Nat) (rest : List Char) : Reading Number :=
  if negative = false then .ok (.whole significand, rest)
  else if significand = 0 ∨ significand > Nat.pow 2 63 then real true significand 0 rest
  else .ok (.whole (-(significand : Int)), rest)

def afterInteger (negative : Bool) (significand : Nat) : List Char → Reading Number
  | '.' :: rest => fraction negative 0 0 significand rest
  | 'e' :: rest | 'E' :: rest => exponent negative significand 0 rest
  | rest => wholeOrReal negative significand rest

/-- What follows the digits of an integer too long for the significand. -/
def afterLongInteger (negative : Bool) (significand : Nat) (start : Int) :
    List Char → Reading Number
  | '.' :: rest => fraction negative start 0 significand rest
  | 'e' :: rest | 'E' :: rest => exponent negative significand start rest
  | rest => real negative significand start rest

/-- The digits of an integer; once the significand is full the rest only count. -/
def integerDigits (negative : Bool) : (significand : Nat) → List Char → Reading Number
  | significand, [] => wholeOrReal negative significand []
  | significand, c :: rest =>
    if isDigit c then
      let significand' := significand * 10 + digit c
      if significand' ≥ significandBound then
        let more := (c :: rest).takeWhile isDigit
        afterLongInteger negative significand more.length ((c :: rest).dropWhile isDigit)
      else integerDigits negative significand' rest
    else afterInteger negative significand (c :: rest)

/-- A number without its sign. -/
def number (negative : Bool) : List Char → Reading Number
  | [] => .error (.after .endInValue [])
  | '0' :: rest =>
    match rest with
    | c :: _ =>
      if isDigit c then .error (.at .invalidNumber rest) else afterInteger negative 0 rest
    | [] => afterInteger negative 0 rest
  | c :: rest =>
    if isDigit c then integerDigits negative (digit c) rest
    else .error (.after .invalidNumber rest)

/-! ## Strings -/

/-- How far an escape has been read. -/
inductive EscapeState where
  | none
  | backslash
  /-- Hexadecimal digits, the first half of a surrogate pair before them if there was one. -/
  | hex (high? : Option Nat) (digits value : Nat)
  | pairBackslash (high : Nat)
  | pairLetter (high : Nat)

def simpleEscape? (c : Char) : Option Char :=
  match c with
  | '"' => some '"'
  | '\\' => some '\\'
  | '/' => some '/'
  | 'b' => some '\x08'
  | 'f' => some '\x0c'
  | 'n' => some '\n'
  | 'r' => some '\r'
  | 't' => some '\t'
  | _ => none

def isHighSurrogate (n : Nat) : Bool :=
  0xD800 ≤ n && n ≤ 0xDBFF

def isLowSurrogate (n : Nat) : Bool :=
  0xDC00 ≤ n && n ≤ 0xDFFF

/-- What four hexadecimal digits stand for: a character, or the first half of a pair. -/
def hexEscape (high? : Option Nat) (value : Nat) : Except FaultKind (Char ⊕ Nat) :=
  match high? with
  | some high =>
    if isLowSurrogate value then
      .ok (.inl (Char.ofNat (0x10000 + (high - 0xD800) * 0x400 + (value - 0xDC00))))
    else .error .loneSurrogate
  | none =>
    if isLowSurrogate value then .error .loneSurrogate
    else if isHighSurrogate value then .ok (.inr value)
    else .ok (.inl (Char.ofNat value))

/-- The characters up to the closing quote. -/
def stringBody : EscapeState → List Char → Reading (List Char)
  | _, [] => .error (.after .endInString [])
  | .none, '"' :: rest => .ok ([], rest)
  | .none, '\\' :: rest => stringBody .backslash rest
  | .none, c :: rest =>
    if c.toNat < 0x20 then .error (.after .controlCharacter rest)
    else
      match stringBody .none rest with
      | .ok (body, rest') => .ok (c :: body, rest')
      | .error f => .error f
  | .backslash, 'u' :: rest => stringBody (.hex .none 0 0) rest
  | .backslash, c :: rest =>
    match simpleEscape? c with
    | some c' =>
      match stringBody .none rest with
      | .ok (body, rest') => .ok (c' :: body, rest')
      | .error f => .error f
    | none => .error (.after .invalidEscape rest)
  | .hex high? digits value, c :: rest =>
    -- the four digits are looked at together
    if byteLength (c :: rest) < 4 - digits then .error (.after .endInString [])
    else
      match Text.digitIn? 16 c with
      | none => .error ⟨.invalidEscape, c :: rest, 4 - digits⟩
      | some d =>
        let value' := value * 16 + d
        if digits < 3 then stringBody (.hex high? (digits + 1) value') rest
        else
          match hexEscape high? value' with
          | .error kind => .error (.after kind rest)
          | .ok (.inr high) => stringBody (.pairBackslash high) rest
          | .ok (.inl c') =>
            match stringBody .none rest with
            | .ok (body, rest') => .ok (c' :: body, rest')
            | .error f => .error f
  | .pairBackslash high, c :: rest =>
    if c = '\\' then stringBody (.pairLetter high) rest
    else .error (.at .hexEscapeCut (c :: rest))
  | .pairLetter high, c :: rest =>
    if c = 'u' then stringBody (.hex (some high) 0 0) rest
    else .error (.at .hexEscapeCut (c :: rest))

/-- A string without its opening quote. -/
def stringText (s : List Char) : Reading String :=
  match stringBody .none s with
  | .ok (body, rest) => .ok (String.ofList body, rest)
  | .error f => .error f

/-! ## Values -/

/-- The rest of a word such as `null`. -/
def word (value : Json) : List Char → List Char → Reading Json
  | [], rest => .ok (value, rest)
  | _ :: _, [] => .error (.after .endInValue [])
  | w :: ws, c :: rest =>
    if w = c then word value ws rest else .error (.after .expectedWord rest)

/-- Containers may stand in one another this deep. -/
def depthLimit : Nat := 127

/-- Takes the comma before an item. -/
def nextItem (s : List Char) : Except Fault (List Char) :=
  match s with
  | ',' :: rest =>
    match skipSpace rest with
    | [] => .error (.at .endInValue [])
    | ']' :: rest' => .error (.at .trailingComma (']' :: rest'))
    | start => .ok start
  | other => .error (.at .expectedListEnd other)

/-- Takes the quote before the first key. -/
def firstKey (s : List Char) : Except Fault (List Char) :=
  match s with
  | '"' :: rest => .ok rest
  | other => .error (.at .keyNotString other)

/-- Takes the comma and the quote before a key. -/
def nextKey (s : List Char) : Except Fault (List Char) :=
  match s with
  | ',' :: rest =>
    match skipSpace rest with
    | [] => .error (.at .endInValue [])
    | '"' :: start => .ok start
    | '\x7d' :: rest' => .error (.at .trailingComma ('\x7d' :: rest'))
    | other => .error (.at .keyNotString other)
  | other => .error (.at .expectedObjectEnd other)

/-- Takes the colon behind a key. -/
def colon (s : List Char) : Except Fault (List Char) :=
  match skipSpace s with
  | ':' :: rest => .ok rest
  | [] => .error (.at .endInObject [])
  | other => .error (.at .expectedColon other)

mutual

/-- One value. The first number bounds the work, the second the containers still allowed. -/
def value : (fuel depth : Nat) → List Char → Reading Json
  | 0, _, s => .error (.at .tooDeep s)
  | fuel + 1, depth, s =>
    match skipSpace s with
    | [] => .error (.at .endInValue [])
    | 'n' :: rest => word .null ['u', 'l', 'l'] rest
    | 't' :: rest => word (.bool true) ['r', 'u', 'e'] rest
    | 'f' :: rest => word (.bool false) ['a', 'l', 's', 'e'] rest
    | '"' :: rest =>
      match stringText rest with
      | .ok (text, rest') => .ok (.string text, rest')
      | .error f => .error f
    | '[' :: rest =>
      match depth with
      | 0 => .error (.at .tooDeep ('[' :: rest))
      | depth + 1 =>
        match items fuel depth true rest with
        | .ok (vs, rest') => .ok (.array vs, rest')
        | .error f => .error f
    | '\x7b' :: rest =>
      match depth with
      | 0 => .error (.at .tooDeep ('\x7b' :: rest))
      | depth + 1 =>
        match members fuel depth true rest with
        | .ok (ms, rest') => .ok (.object ms, rest')
        | .error f => .error f
    | '-' :: rest =>
      match number true rest with
      | .ok (n, rest') => .ok (.number n, rest')
      | .error f => .error f
    | c :: rest =>
      if isDigit c then
        match number false (c :: rest) with
        | .ok (n, rest') => .ok (.number n, rest')
        | .error f => .error f
      else .error (.at .expectedValue (c :: rest))

/-- The items of an array from where the first one, or a comma, may stand. -/
def items : (fuel depth : Nat) → (first : Bool) → List Char → Reading (List Json)
  | 0, _, _, s => .error (.at .tooDeep s)
  | fuel + 1, depth, first, s =>
    match skipSpace s with
    | [] => .error (.at .endInList [])
    | ']' :: rest => .ok ([], rest)
    | c :: rest =>
      match (if first then .ok (c :: rest) else nextItem (c :: rest)) with
      | .error f => .error f
      | .ok start =>
        match value fuel depth start with
        | .error f => .error f
        | .ok (v, rest') =>
          match items fuel depth false rest' with
          | .error f => .error f
          | .ok (vs, rest'') => .ok (v :: vs, rest'')

/-- The members of an object from where the first one, or a comma, may stand. -/
def members : (fuel depth : Nat) → (first : Bool) → List Char → Reading Members
  | 0, _, _, s => .error (.at .tooDeep s)
  | fuel + 1, depth, first, s =>
    match skipSpace s with
    | [] => .error (.at .endInObject [])
    | '\x7d' :: rest => .ok ([], rest)
    | c :: rest =>
      match (if first then firstKey (c :: rest) else nextKey (c :: rest)) with
      | .error f => .error f
      | .ok start =>
        match stringText start with
        | .error f => .error f
        | .ok (key, rest') =>
          match colon rest' with
          | .error f => .error f
          | .ok afterColon =>
            match value fuel depth afterColon with
            | .error f => .error f
            | .ok (v, rest'') =>
              match members fuel depth false rest'' with
              | .error f => .error f
              | .ok (ms, rest''') => .ok ((key, v) :: ms, rest''')

end

end Reader

/-- One value at the start of a text, and what follows it. -/
def readPrefix (text : List Char) : Reading Json :=
  Reader.value (2 * text.length + 2) Reader.depthLimit text

/-- Nothing but space may follow a value. -/
def readEnd (rest : List Char) : Except Fault Unit :=
  match Reader.skipSpace rest with
  | [] => .ok ()
  | other => .error (.at .trailingCharacters other)

/-- A text that is one value, with its members as written. -/
def read (text : List Char) : Except Fault Json :=
  match readPrefix text with
  | .error f => .error f
  | .ok (v, rest) =>
    match readEnd rest with
    | .error f => .error f
    | .ok () => .ok v

/-- A text that is one value, with one member per key. -/
def parse? (text : String) : Option Json :=
  match read text.toList with
  | .ok v => some v.settle
  | .error _ => none

end MediaCatalog.Json
