import MediaCatalog.Text.Hex

/-!
TOML strings. Those in single quotes are taken as written, those in double quotes have escapes; three
quotes instead of one let a string have line breaks.
-/

namespace MediaCatalog.Toml

/-- What stands at the start of a text, and what follows it. -/
abbrev Reading (α : Type) := Option (α × List Char)

/-- The characters of strings and comments: no controls but the tab. -/
def isTextChar (c : Char) : Bool :=
  c == '\t' || (0x20 ≤ c.toNat && c.toNat != 0x7F)

def isSpace (c : Char) : Bool :=
  c == ' ' || c == '\t'

/-- Which quotes a string has, and whether it may have line breaks. -/
structure Quotes where
  mark : Char
  long : Bool

/-- How far a string has been read. -/
inductive StringState where
  | plain
  | backslash
  /-- Hexadecimal digits that are still to come, and the value of those before. -/
  | hex (left value : Nat)
  /-- Behind a backslash, blanks up to a line break; once there was one, also further breaks. -/
  | joined (broken : Bool)

def simpleEscape? : Char → Option Char
  | '"' => some '"'
  | '\\' => some '\\'
  | 'b' => some '\x08'
  | 'e' => some '\x1b'
  | 'f' => some '\x0c'
  | 'n' => some '\n'
  | 'r' => some '\r'
  | 't' => some '\t'
  | _ => none

/-- How many hexadecimal digits follow the letter of an escape. -/
def hexLength? : Char → Option Nat
  | 'x' => some 2
  | 'u' => some 4
  | 'U' => some 8
  | _ => none

def scalarOf? (n : Nat) : Option Char :=
  if n.isValidChar then some (Char.ofNat n) else none

/-- What stands inside and behind the quotes that end a string; of five, two may stand inside. -/
def closing? (q : Quotes) (s : List Char) : Reading (List Char) :=
  let run := s.takeWhile (· == q.mark)
  if q.long then
    if run.length < 3 then none
    else
      let inside := min (run.length - 3) 2
      some (run.take inside, s.drop (inside + 3))
  else if run.isEmpty then none
  else some ([], s.drop 1)

/-- A character outside escapes: what it adds to the string, and the state behind it. -/
def plainStep? (q : Quotes) (c : Char) (next : Option Char) : Option (List Char × StringState) :=
  if c = '\\' ∧ q.mark = '"' then some ([], .backslash)
  else if isTextChar c ∨ (q.long ∧ (c = '\n' ∨ (c = '\r' ∧ next = some '\n'))) then
    some ([c], .plain)
  else none

/-- A character behind a backslash. In a long string a line break may stand there. -/
def escapeStep? (q : Quotes) (c : Char) (next : Option Char) : Option (List Char × StringState) :=
  match simpleEscape? c, hexLength? c with
  | some c', _ => some ([c'], .plain)
  | none, some length => some ([], .hex length 0)
  | none, none =>
    if q.long ∧ (isSpace c ∨ (c = '\r' ∧ next = some '\n')) then some ([], .joined false)
    else if q.long ∧ c = '\n' then some ([], .joined true)
    else none

def hexStep? (left value : Nat) (c : Char) : Option (List Char × StringState) := do
  let value := value * 16 + (← Text.digitIn? 16 c)
  if 1 < left then return ([], .hex (left - 1) value)
  else return ([← scalarOf? value], .plain)

/-- A character among the blanks that a backslash joins. -/
def joinStep? (q : Quotes) (broken : Bool) (c : Char) (next : Option Char) :
    Option (List Char × StringState) :=
  if isSpace c ∨ (c = '\r' ∧ next = some '\n') then some ([], .joined broken)
  else if c = '\n' then some ([], .joined true)
  else if broken then plainStep? q c next
  else none

def StringState.step? (q : Quotes) (c : Char) (next : Option Char) :
    StringState → Option (List Char × StringState)
  | .plain => plainStep? q c next
  | .backslash => escapeStep? q c next
  | .hex left value => hexStep? left value c
  | .joined broken => joinStep? q broken c next

/-- Whether quotes end the string. -/
def StringState.mayEnd : StringState → Bool
  | .plain | .joined true => true
  | .backslash | .hex _ _ | .joined false => false

/-- The characters up to the closing quotes. -/
def stringBody (q : Quotes) (state : StringState) : List Char → Reading (List Char)
  | [] => none
  | c :: rest =>
    match if state.mayEnd then closing? q (c :: rest) else none with
    | some ending => some ending
    | none =>
      match state.step? q c rest.head? with
      | none => none
      | some (out, state') =>
        match stringBody q state' rest with
        | some (body, rest') => some (out ++ body, rest')
        | none => none

/-- A string that begins with its quotes. A line break behind three of them is dropped. -/
def string? (s : List Char) : Reading String :=
  let body (q : Quotes) (s : List Char) :=
    (stringBody q .plain s).map fun (chars, rest) => (String.ofList chars, rest)
  match s with
  | '"' :: '"' :: '"' :: '\n' :: rest | '"' :: '"' :: '"' :: '\r' :: '\n' :: rest
  | '"' :: '"' :: '"' :: rest => body ⟨'"', true⟩ rest
  | '\x27' :: '\x27' :: '\x27' :: '\n' :: rest | '\x27' :: '\x27' :: '\x27' :: '\r' :: '\n' :: rest
  | '\x27' :: '\x27' :: '\x27' :: rest => body ⟨'\x27', true⟩ rest
  | '"' :: rest => body ⟨'"', false⟩ rest
  | '\x27' :: rest => body ⟨'\x27', false⟩ rest
  | _ => none

/-- A string on one line, as in a key. -/
def shortString? (s : List Char) : Reading String :=
  match s with
  | '"' :: rest => (stringBody ⟨'"', false⟩ .plain rest).map fun (cs, rest) => (String.ofList cs, rest)
  | '\x27' :: rest => (stringBody ⟨'\x27', false⟩ .plain rest).map fun (cs, rest) => (String.ofList cs, rest)
  | _ => none

end MediaCatalog.Toml
