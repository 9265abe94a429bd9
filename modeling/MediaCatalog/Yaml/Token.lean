import MediaCatalog.Yaml.Tag

/-! The tokens of a YAML text: its marks and scalars, with the nesting that indentation gives. -/

namespace MediaCatalog.Yaml

inductive Token where
  | directive (d : Directive)
  | documentStart
  | documentEnd
  | blockSequenceStart
  | blockMappingStart
  | blockEnd
  | flowSequenceStart
  | flowSequenceEnd
  | flowMappingStart
  | flowMappingEnd
  /-- The dash before an item. -/
  | blockEntry
  /-- The comma between items. -/
  | flowEntry
  | key
  | value
  | alias (name : String)
  | anchor (name : String)
  | tag (handle : String) (suffix : TagBytes)
  | scalar (text : String) (plain : Bool)

namespace Token

/-- A place at which a key may have begun; that shows only when a colon follows. -/
structure KeyStart where
  /-- The number of tokens before it. -/
  slot : Nat
  /-- Whether nothing but a key can stand there. -/
  required : Bool
  index : Nat
  line : Nat
  column : Nat

/-- What is known while tokens are read. -/
structure Reading where
  cursor : Cursor
  tokens : Array Token := #[]
  /-- The column of the innermost block collection; -1 outside of all. -/
  indent : Int := -1
  /-- The columns around it, innermost first. -/
  outer : List Int := []
  /-- One possible key per flow collection around the cursor, and one for the block around those. -/
  keys : List (Option KeyStart) := [none]
  /-- Whether a key may begin at the cursor. -/
  keyAllowed : Bool := true

namespace Reading

/-- Whether the cursor is in a flow collection. -/
def flow (r : Reading) : Bool :=
  r.keys.length > 1

def push (t : Token) (r : Reading) : Reading :=
  { r with tokens := r.tokens.push t }

/-- Puts a token into the place at which a key began. -/
def insertAt (slot : Nat) (t : Token) (r : Reading) : Reading :=
  { r with tokens := r.tokens.insertIdxIfInBounds slot t }

/-- Passes one character and adds its token. -/
def mark (t : Token) (r : Reading) : Reading :=
  { r with cursor := r.cursor.skip 1, tokens := r.tokens.push t }

/-- Ends the block collections deeper than a column. -/
def leaveBlocks (column : Int) (r : Reading) : Reading :=
  if r.flow then r else go r.outer r
where
  go : List Int → Reading → Reading
    | [], r => r
    | i :: outer, r =>
      if r.indent > column then go outer { r.push .blockEnd with indent := i, outer } else r

/-- Begins a block collection at a column unless one is there; its token comes at a slot. -/
def enterBlock (column : Nat) (slot : Nat) (t : Token) (r : Reading) : Reading :=
  if !r.flow && r.indent < column then
    { r.insertAt slot t with indent := column, outer := r.indent :: r.outer }
  else r

/-- Gives up the innermost possible key; one that is required cannot be given up. -/
def dropKey? (r : Reading) : Option Reading :=
  match r.keys with
  | some k :: outer => if k.required then none else some { r with keys := none :: outer }
  | _ => some r

/-- Notes that a key may begin here. -/
def saveKey? (r : Reading) : Option Reading :=
  if !r.keyAllowed then some r
  else do
    let r ← r.dropKey?
    let c := r.cursor
    let k : KeyStart :=
      ⟨r.tokens.size, !r.flow && r.indent == c.column, c.index, c.line, c.column⟩
    return { r with keys := some k :: r.keys.tail }

/-- A key stands in one line and in 1024 characters: later it is no longer possible. -/
def dropStaleKeys? (r : Reading) : Option Reading := do
  let keys ← r.keys.mapM fun key? =>
    match key? with
    | some k =>
      if k.line < r.cursor.line ∨ k.index + 1024 < r.cursor.index then
        if k.required then none else some none
      else some (some k)
    | none => some none
  return { r with keys }

/-- Passes spaces, comments and breaks. A tab passes only where no key may begin. -/
def skipSpace : (fuel : Nat) → Reading → Reading
  | 0, r => r
  | fuel + 1, r =>
    let c := r.cursor
    let c := if c.index == 0 && c.at? '\ufeff' then c.skip 1 else c
    let tabs := r.flow || !r.keyAllowed
    let c := (c.skipWhile (fun ch => ch == ' ' || (tabs && ch == '\t'))).skipComment
    if c.peek.any isBreak then
      skipSpace fuel { r with cursor := c.skipBreak, keyAllowed := r.keyAllowed || !r.flow }
    else { r with cursor := c }

/-- Adds a token that may be, or begin, a key. -/
def word (t : Token) (c : Cursor) (r : Reading) : Reading :=
  { r.push t with cursor := c, keyAllowed := false }

/-- Adds a mark that stands at the start of a line, outside of all collections. -/
def lineMark? (r : Reading) : Option Reading := do
  let r ← (r.leaveBlocks (-1)).dropKey?
  return { r with keyAllowed := false }

def openFlow? (t : Token) (r : Reading) : Option Reading := do
  let r ← r.saveKey?
  return { r.mark t with keys := none :: r.keys, keyAllowed := true }

def closeFlow? (t : Token) (r : Reading) : Option Reading := do
  let r ← r.dropKey?
  return { r.mark t with keys := if r.flow then r.keys.tail else r.keys, keyAllowed := false }

def flowEntry? (r : Reading) : Option Reading := do
  let r ← r.dropKey?
  return { r.mark .flowEntry with keyAllowed := true }

def blockEntry? (r : Reading) : Option Reading := do
  if !r.flow && !r.keyAllowed then none
  let r ← (r.enterBlock r.cursor.column r.tokens.size .blockSequenceStart).dropKey?
  return { r.mark .blockEntry with keyAllowed := true }

def key? (r : Reading) : Option Reading := do
  if !r.flow && !r.keyAllowed then none
  let r ← (r.enterBlock r.cursor.column r.tokens.size .blockMappingStart).dropKey?
  return { r.mark .key with keyAllowed := !r.flow }

/-- A colon: it ends the key that began at a noted place, or else one with a mark of its own. -/
def value? (r : Reading) : Option Reading :=
  match r.keys with
  | some k :: outer =>
    let r := (r.insertAt k.slot .key).enterBlock k.column k.slot .blockMappingStart
    some { r.mark .value with keys := none :: outer, keyAllowed := false }
  | _ =>
    if !r.flow && !r.keyAllowed then none
    else
      let r := r.enterBlock r.cursor.column r.tokens.size .blockMappingStart
      some { r.mark .value with keyAllowed := !r.flow }

def anchor? (t : String → Token) (r : Reading) : Option Reading := do
  let r ← r.saveKey?
  let (name, c) ← anchorName? (r.cursor.skip 1)
  return r.word (t name) c

def tag? (r : Reading) : Option Reading := do
  let r ← r.saveKey?
  let (handle, suffix, c) ← Yaml.tag? r.flow r.cursor
  return r.word (.tag handle suffix) c

def blockScalar? (folded : Bool) (r : Reading) : Option Reading := do
  let r ← r.dropKey?
  let (text, c) ← block? folded (if r.indent < 0 then none else some r.indent.toNat) r.cursor
  return { r.push (.scalar text false) with cursor := c, keyAllowed := true }

def quotedScalar? (single : Bool) (r : Reading) : Option Reading := do
  let r ← r.saveKey?
  let (text, c) ← quoted? single r.cursor
  return r.word (.scalar text false) c

def plainScalar? (r : Reading) : Option Reading := do
  let r ← r.saveKey?
  let (text, broken, c) ← plain? r.flow (r.indent + 1).toNat r.cursor
  return { r.word (.scalar text true) c with keyAllowed := broken }

/-- Whether a plain scalar may start here. -/
def startsPlain (ch : Char) (r : Reading) : Bool :=
  let next := r.cursor.rest[1]?
  !"-?:,[]\x7b\x7d#&*!|>'\"%@`".contains ch && !isSpace ch ||
    ch == '-' && !next.any isSpace ||
    (ch == '?' || ch == ':') && !r.flow && !r.cursor.gapAt 1

/-- Reads the next token, `none` in the answer at the end of the text. -/
def next? (r : Reading) : Option (Option Reading) := do
  let r ← (skipSpace (r.cursor.rest.length + 1) r).dropStaleKeys?
  let r := r.leaveBlocks r.cursor.column
  let c := r.cursor
  match c.peek with
  | none => return none
  | some ch =>
    some <$>
      if ch == '%' && c.column == 0 then do
        let r ← r.lineMark?
        let (d, c) ← directive? c
        return { r.push (.directive d) with cursor := c }
      else if c.atDocumentMark then do
        let r ← r.lineMark?
        return { r.push (if ch == '-' then .documentStart else .documentEnd) with
          cursor := c.skip 3 }
      else if ch == '[' then r.openFlow? .flowSequenceStart
      else if ch == '\x7b' then r.openFlow? .flowMappingStart
      else if ch == ']' then r.closeFlow? .flowSequenceEnd
      else if ch == '\x7d' then r.closeFlow? .flowMappingEnd
      else if ch == ',' then r.flowEntry?
      else if ch == '-' && c.gapAt 1 then r.blockEntry?
      else if ch == '?' && (r.flow || c.gapAt 1) then r.key?
      else if ch == ':' && (r.flow || c.gapAt 1) then r.value?
      else if ch == '*' then r.anchor? .alias
      else if ch == '&' then r.anchor? .anchor
      else if ch == '!' then r.tag?
      else if ch == '|' && !r.flow then r.blockScalar? false
      else if ch == '>' && !r.flow then r.blockScalar? true
      else if ch == '\'' then r.quotedScalar? true
      else if ch == '"' then r.quotedScalar? false
      else if r.startsPlain ch then r.plainScalar?
      else none

/-- Ends the reading: no block is left open, and no key may be missing its colon. -/
def finish? (r : Reading) : Option (List Token) := do
  let r ← (r.leaveBlocks (-1)).dropKey?
  return r.tokens.toList

/-- Reads all tokens. Every one passes at least one character. -/
def all? : (fuel : Nat) → Reading → Option (List Token)
  | 0, _ => none
  | fuel + 1, r => do
    match ← r.next? with
    | some r => all? fuel r
    | none => (← (skipSpace (r.cursor.rest.length + 1) r).dropStaleKeys?).finish?

end Reading

/-- The tokens of a text. -/
def ofText? (text : List Char) : Option (List Token) :=
  Reading.all? (text.length + 1) { cursor := Cursor.start text }

end Token

end MediaCatalog.Yaml
