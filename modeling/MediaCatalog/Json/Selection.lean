import MediaCatalog.Json.Reader
import MediaCatalog.Text.Lossy

/-!
Reading an object for the members under some keys. The other values are passed over: their
grammar counts, but not how deep they are, how large their numbers, whether their escapes pair up or
whether the bytes of their strings are text.
-/

namespace MediaCatalog.Json

/-! ## Passing over a value -/

namespace Skip

/-- Takes one digit or more. -/
def digits : List Char → Option (List Char)
  | [] => none
  | c :: rest => if Reader.isDigit c then some (rest.dropWhile Reader.isDigit) else none

/-- A zero is not followed by more digits. -/
def integer : List Char → Option (List Char)
  | '0' :: rest => some rest
  | s => digits s

def fraction : List Char → Option (List Char)
  | '.' :: rest => digits rest
  | s => some s

def exponent : List Char → Option (List Char)
  | 'e' :: rest | 'E' :: rest =>
    match rest with
    | '+' :: rest' | '-' :: rest' => digits rest'
    | _ => digits rest
  | s => some s

/-- A number without its sign. -/
def number (s : List Char) : Option (List Char) :=
  ((integer s).bind fraction).bind exponent

def isHexDigit (c : Char) : Bool :=
  (Text.digitIn? 16 c).isSome

/-- A string without its opening quote. -/
def string : List Char → Option (List Char)
  | [] => none
  | '\\' :: 'u' :: a :: b :: c :: d :: rest =>
    if [a, b, c, d].all isHexDigit then string rest else none
  | '\\' :: c :: rest => if (Reader.simpleEscape? c).isSome then string rest else none
  | c :: rest =>
    if c = '"' then some rest
    else if c.toNat < 0x20 ∨ c = '\\' then none
    else string rest

mutual

/-- What is behind one value. The number bounds the work. -/
def value : (fuel : Nat) → List Char → Option (List Char)
  | 0, _ => none
  | fuel + 1, s =>
    match Reader.skipSpace s with
    | 'n' :: 'u' :: 'l' :: 'l' :: rest => some rest
    | 't' :: 'r' :: 'u' :: 'e' :: rest => some rest
    | 'f' :: 'a' :: 'l' :: 's' :: 'e' :: rest => some rest
    | '"' :: rest => string rest
    | '[' :: rest => items fuel true rest
    | '\x7b' :: rest => members fuel true rest
    | '-' :: rest => number rest
    | rest => number rest

/-- What is behind the items of an array, from where the first one, or a comma, may stand. -/
def items : (fuel : Nat) → (first : Bool) → List Char → Option (List Char)
  | 0, _, _ => none
  | fuel + 1, first, s =>
    match Reader.skipSpace s with
    | ']' :: rest => some rest
    | other =>
      match (if first then .ok other else Reader.nextItem other) with
      | .error _ => none
      | .ok start =>
        match value fuel start with
        | none => none
        | some rest => items fuel false rest

/-- What is behind the members of an object, from where the first one, or a comma, may stand. -/
def members : (fuel : Nat) → (first : Bool) → List Char → Option (List Char)
  | 0, _, _ => none
  | fuel + 1, first, s =>
    match Reader.skipSpace s with
    | '\x7d' :: rest => some rest
    | other =>
      match (if first then Reader.firstKey other else Reader.nextKey other) with
      | .error _ => none
      | .ok start =>
        match (string start).bind fun rest => (Reader.colon rest).toOption with
        | none => none
        | some afterColon =>
          match value fuel afterColon with
          | none => none
          | some rest => members fuel false rest

end

end Skip

/-- What is behind one value. -/
def skip? (text : List Char) : Option (List Char) :=
  Skip.value (2 * text.length + 2) text

/-! ## Choosing members -/

/-- A member under a key that is asked for, or the key alone, and what is behind it. -/
def chosenMember? (keys : List String) (start : List Char) : Option (Members × List Char) := do
  let (key, rest) ← (Reader.stringText start).toOption
  let afterColon ← (Reader.colon rest).toOption
  if key ∈ keys then
    let (v, rest') ← (readPrefix afterColon).toOption
    return ([(key, v)], rest')
  else
    let rest' ← skip? afterColon
    return ([], rest')

/-- The members asked for, from where the first one, or a comma, may stand. -/
def chosenMembers? (keys : List String) : (fuel : Nat) → (first : Bool) → List Char →
    Option (Members × List Char)
  | 0, _, _ => none
  | fuel + 1, first, s =>
    match Reader.skipSpace s with
    | '\x7d' :: rest => some ([], rest)
    | other => do
      let start ← (if first then Reader.firstKey other else Reader.nextKey other).toOption
      let (chosen, rest) ← chosenMember? keys start
      let (others, rest') ← chosenMembers? keys fuel false rest
      return (chosen ++ others, rest')

/-- A text that is one value; of an object only the members under the keys. -/
def readFor? (keys : List String) (text : List Char) : Option Json :=
  match Reader.skipSpace text with
  | '\x7b' :: rest => do
    let (members, rest') ← chosenMembers? keys (rest.length + 1) true rest
    (readEnd rest').toOption
    return .object members
  | _ => (read text).toOption

/--
Stands for bytes that are no text. Half a pair is no character, so no string that is read may hold
this; in one that is passed over it does not count. The letter keeps it apart from the escapes around
it.
-/
def untextMark : List Char :=
  ['x', '\\', 'u', 'd', 'c', '0', '0']

/-- Reads bytes; only those of keys and of the members under the keys have to be text. -/
def readBytesFor? (keys : List String) (bytes : ByteArray) : Option Json :=
  readFor? keys (Text.charsOf untextMark bytes)

end MediaCatalog.Json
