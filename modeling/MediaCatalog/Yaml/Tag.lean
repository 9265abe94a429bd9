import MediaCatalog.Yaml.Scalar

/-! Anchors, tags and directives. -/

namespace MediaCatalog.Yaml

/-- The bytes of a tag. They need not be a text, since any byte may be written as an escape. -/
abbrev TagBytes := List UInt8

def bytesOf (text : List Char) : TagBytes :=
  (String.ofList text).toUTF8.data.toList

/-- Reads a name and the character behind it, which has to end it. -/
def anchorName? (c : Cursor) : Option (String × Cursor) :=
  let name := c.rest.takeWhile isWordChar
  let c := c.skip name.length
  if name.isEmpty then none
  else if c.gapAt 0 || c.peek.any ("?:,]\x7d%@`".contains ·) then some (String.ofList name, c)
  else none

/-- How many bytes a character has whose first byte is the given one. -/
def widthOfLead? (byte : Nat) : Option Nat :=
  if byte < 0x80 then some 1
  else if 0xC0 ≤ byte ∧ byte < 0xE0 then some 2
  else if 0xE0 ≤ byte ∧ byte < 0xF0 then some 3
  else if 0xF0 ≤ byte ∧ byte < 0xF8 then some 4
  else none

/-- A byte written as a percent sign and two hexadecimal digits. -/
def percentByte? : List Char → Option (Nat × List Char)
  | '%' :: a :: b :: rest => (Text.readDigits? 16 0 [a, b]).map (·, rest)
  | _ => none

/-- Reads the continuation bytes of a character, all of them percent-encoded. -/
def percentTail? : (count : Nat) → List Char → Option (TagBytes × List Char)
  | 0, rest => some ([], rest)
  | count + 1, text => do
    let (byte, rest) ← percentByte? text
    if byte / 64 ≠ 2 then none
    let (tail, rest) ← percentTail? count rest
    return (byte.toUInt8 :: tail, rest)

/-- The characters of a tag; those of flow collections count only in full tags. -/
def isTagChar (full : Bool) (ch : Char) : Bool :=
  isWordChar ch || ";/?:@&=+$.%!~*'()".contains ch || (full && ",[]".contains ch)

/-- Reads the characters of a tag as far as they go, and answers how many were passed. -/
def tagBytes? (full : Bool) : (fuel : Nat) → List Char → Option (TagBytes × Nat)
  | 0, _ => none
  | _ + 1, [] => some ([], 0)
  | fuel + 1, ch :: rest =>
    if !isTagChar full ch then some ([], 0)
    else if ch == '%' then do
      let (lead, afterLead) ← percentByte? (ch :: rest)
      let width ← widthOfLead? lead
      let (tail, rest) ← percentTail? (width - 1) afterLead
      let (bytes, count) ← tagBytes? full fuel rest
      return (lead.toUInt8 :: tail ++ bytes, 3 * width + count)
    else do
      let (bytes, count) ← tagBytes? full fuel rest
      return (bytesOf [ch] ++ bytes, count + 1)

/-- Reads the characters of a tag; a zero byte ends what counts of it. -/
def tagText? (full : Bool) (c : Cursor) : Option (TagBytes × Nat × Cursor) := do
  let (bytes, count) ← tagBytes? full (c.rest.length + 1) c.rest
  return (bytes.takeWhile (· != 0), count, c.skip count)

/-- A handle: an exclamation mark, and a name with another one behind it if there is one. -/
def handle (c : Cursor) : List Char × Cursor :=
  let name := (c.rest.drop 1).takeWhile isWordChar
  let c := c.skip (1 + name.length)
  if c.at? '!' then ('!' :: name ++ ['!'], c.skip 1) else ('!' :: name, c)

/-- Reads a tag: its handle, empty for a tag in full, and what follows the handle. -/
def tag? (flow : Bool) (c : Cursor) : Option (String × TagBytes × Cursor) := do
  let (handle, suffix, c) ←
    if c.rest[1]? = some '<' then do
      let (suffix, count, c) ← tagText? true (c.skip 2)
      if count = 0 ∨ ¬ c.at? '>' then none
      pure ("", suffix, c.skip 1)
    else
      let (handle, c) := handle c
      if handle.length > 1 ∧ handle.getLast? = some '!' then do
        let (suffix, count, c) ← tagText? false c
        if count = 0 then none
        pure (String.ofList handle, suffix, c)
      else do
        -- no handle after all: its name begins the tag
        let (more, _, c) ← tagText? false c
        let suffix := bytesOf (handle.drop 1) ++ more
        pure (if suffix.isEmpty then ("", bytesOf ['!'], c) else ("!", suffix, c))
  if c.gapAt 0 ∨ (flow ∧ c.at? ',') then return (handle, suffix, c) else none

/-- What a line that starts with a percent sign says. -/
inductive Directive where
  | version (major minor : Nat)
  | tag (handle : String) (start : TagBytes)

/-- Reads a number of at most nine digits. -/
def versionNumber? (c : Cursor) : Option (Nat × Cursor) :=
  let digits := c.rest.takeWhile Char.isDigit
  if digits.isEmpty ∨ digits.length > 9 then none
  else (Text.readDigits? 10 0 digits).map (·, c.skip digits.length)

/-- Reads a directive and the rest of its line, which may hold a comment only. -/
def directive? (c : Cursor) : Option (Directive × Cursor) := do
  let c := c.skip 1
  let name := c.rest.takeWhile isWordChar
  let c := c.skip name.length
  if name.isEmpty ∨ ¬ c.gapAt 0 then none
  let c := c.skipWhile isSpace
  let (directive, c) ←
    match String.ofList name with
    | "YAML" => do
      let (major, c) ← versionNumber? c
      if !c.at? '.' then none
      let (minor, c) ← versionNumber? (c.skip 1)
      pure (Directive.version major minor, c)
    | "TAG" => do
      if !c.at? '!' then none
      let (handle, c) := handle c
      if handle.length > 1 ∧ handle.getLast? ≠ some '!' then none
      if !c.peek.any isSpace then none
      let (start, count, c) ← tagText? true (c.skipWhile isSpace)
      if count = 0 ∨ ¬ c.gapAt 0 then none
      pure (Directive.tag (String.ofList handle) start, c)
    | _ => none
  let c := (c.skipWhile isSpace).skipComment
  if c.atLineEnd then return (directive, c.skipBreak) else none

end MediaCatalog.Yaml
