import MediaCatalog.Environment.Basic
import MediaCatalog.Text.Alphanumeric
import MediaCatalog.Text.Blank

/-!
Files that set what an environment lacks: `NAME=value` on every line, with comments, quotes, and
values of other names behind a dollar sign. Reading ends at the first line that is malformed.
-/

namespace MediaCatalog.Environment

/-! ### Lines -/

/-- Where a line stands between its quotes. -/
inductive LineState where
  | plain
  | blank
  | escape
  | weak
  | weakEscape
  | strong
  | strongEscape
  deriving DecidableEq

namespace LineState

/-- What a character begins outside quotes. -/
def opened (c : Char) : LineState :=
  match c with
  | '\\' => .escape
  | '"' => .weak
  | '\x27' => .strong
  | _ => .plain

def next (s : LineState) (c : Char) : LineState :=
  match s with
  | .plain => if Text.isBlank c && !(c == '\n' || c == '\r') then .blank else opened c
  | .blank => opened c
  | .escape => .plain
  | .weak =>
    match c with
    | '\\' => .weakEscape
    | '"' => .plain
    | _ => .weak
  | .weakEscape => .weak
  | .strong =>
    match c with
    | '\\' => .strongEscape
    | '\x27' => .plain
    | _ => .strong
  | .strongEscape => .strong

end LineState

/-- A line up to its comment, which begins behind one blank, and the state it ends in if it has none. -/
def scanLine : LineState → List Char → List Char × Option LineState
  | s, [] => ([], some s)
  | s, c :: rest =>
    if s = .blank ∧ c = '#' then ([], none)
    else
      let (kept, ending) := scanLine (s.next c) rest
      (c :: kept, ending)

/-- Without the break at its end. -/
def withoutBreak (line : List Char) : List Char :=
  match line.reverse with
  | '\n' :: '\r' :: rest | '\n' :: rest => rest.reverse
  | _ => line

/-- Joins lines where quotes are open; those that cannot be read end the file. -/
def joinLines : (begun : List Char) → LineState → List (Option (List Char)) → List (List Char)
  | _, _, [] | _, _, none :: _ => []
  | begun, s, some line :: rest =>
    if ((begun ++ line).dropWhile Text.isBlank).head? = some '#' then joinLines [] .plain rest
    else
      match scanLine s line with
      | (kept, none) => (begun ++ kept) :: joinLines [] .plain rest
      | (_, some .plain) => withoutBreak (begun ++ line) :: joinLines [] .plain rest
      | (_, some open') => joinLines (begun ++ line) open' rest

/-- Bytes in lines, each with its break. -/
def rawLines : List UInt8 → List (List UInt8)
  | [] => []
  | b :: rest =>
    if b = 10 then [b] :: rawLines rest
    else
      match rawLines rest with
      | [] => [[b]]
      | line :: lines => (b :: line) :: lines

/-- The characters of a line in UTF-8. -/
def decodeLine? (line : List UInt8) : Option (List Char) :=
  (String.fromUTF8? ⟨line.toArray⟩).map String.toList

/-- The lines of a file that may begin with a mark of the byte order. -/
def fileLines (bytes : List UInt8) : List (List Char) :=
  let bytes := match bytes with
    | 0xEF :: 0xBB :: 0xBF :: rest => rest
    | bytes => bytes
  joinLines [] .plain ((rawLines bytes).map decodeLine?)

/-! ### Values -/

/-- Where a value stands; in quotes only if `quoted`. -/
inductive ValueState where
  | text (quoted : Bool)
  | strong
  | escape (quoted : Bool)
  /-- Behind the value, where only a comment may follow. -/
  | ended
  /-- Behind a dollar sign, in the name of another setting. -/
  | name (quoted braced : Bool) (chars : List Char)

/-- What a character adds to a value, and the state behind it. -/
def ValueState.step? (lookup : List Char → List Char) (c : Char) :
    ValueState → Option (List Char × ValueState)
  | .text quoted =>
    if c = '$' then some ([], .name quoted false [])
    else if c = '"' then some ([], .text !quoted)
    else if c = '\\' then some ([], .escape quoted)
    else if quoted then some ([c], .text true)
    else if c = '\x27' then some ([], .strong)
    else if c = ' ' ∨ c = '\t' then some ([], .ended)
    else some ([c], .text false)
  | .strong => if c = '\x27' then some ([], .text false) else some ([c], .strong)
  | .escape quoted =>
    if c ∈ ['\\', '\x27', '"', '$', ' '] then some ([c], .text quoted)
    else if c = 'n' then some (['\n'], .text quoted)
    else none
  | .ended => if c = ' ' ∨ c = '\t' then some ([], .ended) else none
  | .name quoted braced chars =>
    if Text.isAlphanumeric c then some ([], .name quoted braced (chars ++ [c]))
    else if braced then
      if c = '}' then some (lookup chars, .text quoted)
      else some ([], .name quoted true (chars ++ [c]))
    else if c = '{' ∧ chars.isEmpty then some ([], .name quoted true [])
    else if c = '$' then some (lookup chars, .name quoted false [])
    else some (lookup chars ++ [c], .text quoted)

/-- What the end of the line adds; quotes and braces have to be closed. -/
def ValueState.finish? (lookup : List Char → List Char) : ValueState → Option (List Char)
  | .text false | .escape false | .ended => some []
  | .name false false chars => some (lookup chars)
  | .text true | .escape true | .strong | .name _ _ _ => none

def value? (lookup : List Char → List Char) : ValueState → List Char → Option (List Char)
  | s, [] => s.finish? lookup
  | .ended, '#' :: _ => some []
  | s, c :: rest =>
    match s.step? lookup c with
    | none => none
    | some (out, s') => (value? lookup s' rest).map (out ++ ·)

/-! ### Assignments -/

/-- What a line says; the outer `none` is for a malformed one. -/
abbrev Assignment := Option (Option (String × String))

def isNameChar (c : Char) : Bool :=
  c.isAlphanum || c == '_' || c == '.'

/-- A name, and what follows the blanks behind it. -/
def name? (chars : List Char) : Option (String × List Char) :=
  match chars with
  | c :: _ =>
    if c.isAlpha || c == '_' then
      let name := chars.takeWhile isNameChar
      some (String.ofList name, (chars.drop name.length).dropWhile Text.isBlank)
    else none
  | [] => none

/-- A name with an equals sign behind it, and what follows; the word `export` may stand in front. -/
def target? (chars : List Char) : Option (String × List Char) :=
  match name? chars with
  | some (name, '=' :: rest) => some (name, rest)
  | some ("export", rest) =>
    match name? rest with
    | some (name, '=' :: rest) => some (name, rest)
    | _ => none
  | _ => none

def lookupChars (e : Environment) (name : List Char) : List Char :=
  ((e.get? (String.ofList name)).getD "").toList

def assignment (e : Environment) (line : List Char) : Assignment :=
  let chars := (line.dropWhile Text.isBlank).reverse.dropWhile Text.isBlank |>.reverse
  match chars with
  | [] | '#' :: _ => some none
  | _ =>
    match target? chars with
    | none => none
    | some (name, rest) =>
      match rest.dropWhile Text.isBlank with
      | [] | '#' :: _ => some (some (name, ""))
      | rest =>
        (value? (lookupChars e) (.text false) rest).map fun value =>
          some (name, String.ofList value)

/-- Takes assignments in their order; a value may refer to those before it. -/
def offerLines : List (List Char) → Environment → Environment
  | [], e => e
  | line :: rest, e =>
    match assignment e line with
    | none => e
    | some none => offerLines rest e
    | some (some (name, value)) => offerLines rest (e.offer name value)

/-- Sets what the environment lacks as a file says. -/
def offerFile (bytes : ByteArray) (e : Environment) : Environment :=
  offerLines (fileLines bytes.data.toList) e

end MediaCatalog.Environment
