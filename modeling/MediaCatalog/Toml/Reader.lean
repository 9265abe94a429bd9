import MediaCatalog.Toml.Quoted
import MediaCatalog.Toml.Scalar

/-!
Reading TOML documents. A document is a list of statements, one a line; its table is what the
statements build. There is one answer for all faults: the text is no document.
-/

namespace MediaCatalog.Toml

namespace Reader

def skipSpace (s : List Char) : List Char :=
  s.dropWhile isSpace

/-- Passes a comment, which ends with its line. -/
def skipComment (s : List Char) : List Char :=
  match s with
  | '#' :: rest => rest.dropWhile isTextChar
  | _ => s

/-- Passes a line break. -/
def lineBreak? : List Char → Option (List Char)
  | '\n' :: rest | '\r' :: '\n' :: rest => some rest
  | _ => none

/-- Passes blanks, comments and line breaks. -/
def skipLines : (fuel : Nat) → List Char → List Char
  | 0, s => s
  | fuel + 1, s =>
    match lineBreak? (skipComment (skipSpace s)) with
    | some rest => skipLines fuel rest
    | none => skipComment (skipSpace s)

/-! ### Keys -/

def isKeyChar (c : Char) : Bool :=
  c.isAlphanum || c == '_' || c == '-'

/-- One part of a key: a word, or a string. -/
def keyPart? (s : List Char) : Reading String :=
  match s.takeWhile isKeyChar with
  | [] => shortString? s
  | word => some (String.ofList word, s.drop word.length)

/-- The parts of a key, with points between them. -/
def keyParts? : (fuel : Nat) → List Char → Reading (List String)
  | 0, _ => none
  | fuel + 1, s =>
    match keyPart? s with
    | none => none
    | some (part, rest) =>
      match skipSpace rest with
      | '.' :: rest' =>
        match keyParts? fuel (skipSpace rest') with
        | some (parts, rest'') => some (part :: parts, rest'')
        | none => none
      | rest' => some ([part], rest')

/-- A key, and what follows the blanks behind it. -/
def key? (s : List Char) : Reading Key :=
  match keyParts? (s.length + 1) s with
  | some (parts, rest) => parts.getLast?.map fun name => (⟨parts.dropLast, name⟩, rest)
  | none => none

/-! ### Values -/

/-- Arrays and tables in braces may stand in one another this deep. -/
def depthLimit : Nat := 80

mutual

/-- One value. The first number bounds the work, the second the containers still allowed. -/
def value? : (fuel depth : Nat) → List Char → Reading Value
  | 0, _, _ => none
  | fuel + 1, depth, s =>
    match s with
    | '[' :: rest =>
      match depth with
      | 0 => none
      | depth + 1 => (items? fuel depth rest).map (.map .array id)
    | '\x7b' :: rest =>
      match depth with
      | 0 => none
      | depth + 1 =>
        match pairs? fuel depth rest with
        | some (entries, rest') => (Table.ofEntries? entries []).map (.table .inline ·, rest')
        | none => none
    | '"' :: _ | '\x27' :: _ => (string? s).map (.map .string id)
    | _ => let (word, rest) := takeWord s; (ofWord? word).map (·, rest)

/-- The items of an array, each followed by a comma or the end. -/
def items? : (fuel depth : Nat) → List Char → Reading (List Value)
  | 0, _, _ => none
  | fuel + 1, depth, s =>
    match skipLines s.length s with
    | ']' :: rest => some ([], rest)
    | start =>
      match value? fuel depth start with
      | none => none
      | some (v, rest) =>
        match skipLines rest.length rest with
        | ',' :: rest' => (items? fuel depth rest').map (.map (v :: ·) id)
        | ']' :: rest' => some ([v], rest')
        | _ => none

/-- The entries of a table in braces, each followed by a comma or the end. -/
def pairs? : (fuel depth : Nat) → List Char → Reading (List (Key × Value))
  | 0, _, _ => none
  | fuel + 1, depth, s =>
    match skipLines s.length s with
    | '\x7d' :: rest => some ([], rest)
    | start =>
      match pair? fuel depth start with
      | none => none
      | some (e, rest) =>
        match skipLines rest.length rest with
        | ',' :: rest' => (pairs? fuel depth rest').map (.map (e :: ·) id)
        | '\x7d' :: rest' => some ([e], rest')
        | _ => none

/-- A key, the equals sign and a value, on one line. -/
def pair? : (fuel depth : Nat) → List Char → Reading (Key × Value)
  | 0, _, _ => none
  | fuel + 1, depth, s =>
    match key? s with
    | some (key, '=' :: rest) => (value? fuel depth (skipSpace rest)).map (.map (key, ·) id)
    | _ => none

end

/-! ### Statements -/

/-- What may stand on a line. -/
def statement? (s : List Char) : Reading Statement :=
  match s with
  | '[' :: '[' :: rest =>
    match key? (skipSpace rest) with
    | some (key, ']' :: ']' :: rest') => some (.row key, rest')
    | _ => none
  | '[' :: rest =>
    match key? (skipSpace rest) with
    | some (key, ']' :: rest') => some (.header key, rest')
    | _ => none
  | _ => (pair? (3 * s.length + 3) depthLimit s).map (.map (fun (k, v) => .entry k v) id)

/-- The statements of a text, with blank lines and comments between them. -/
def statements? : (fuel : Nat) → List Char → Option (List Statement)
  | 0, _ => none
  | fuel + 1, s =>
    match skipLines s.length s with
    | [] => some []
    | start =>
      match statement? start with
      | none => none
      | some (statement, rest) =>
        match skipComment (skipSpace rest) with
        | [] => some [statement]
        | rest' =>
          match lineBreak? rest' with
          | some next => (statements? fuel next).map (statement :: ·)
          | none => none

end Reader

/-- The table of a document. A mark of the byte order may stand in front. -/
def Table.parse? (text : String) : Option Table :=
  let chars := match text.toList with
    | '\uFEFF' :: rest => rest
    | chars => chars
  match Reader.statements? (chars.length + 1) chars with
  | some statements => Table.ofStatements? statements [] []
  | none => none

end MediaCatalog.Toml
