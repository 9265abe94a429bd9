import MediaCatalog.Decimal.Shortest
import MediaCatalog.Json.Basic
import MediaCatalog.Text.Hex

/-! JSON texts: the compact form and the form with one line per entry. -/

namespace MediaCatalog

def Number.text : Number → List Char
  | .whole (.ofNat n) => Text.decimalNumber n
  | .whole (.negSucc n) => '-' :: Text.decimalNumber (n + 1)
  | .real x => x.text

namespace Json

/-- Only quotes, backslashes and the controls below the space are escaped. -/
def escapeChar (c : Char) : List Char :=
  if c = '"' then ['\\', '"']
  else if c = '\\' then ['\\', '\\']
  else if c = '\x08' then ['\\', 'b']
  else if c = '\x0c' then ['\\', 'f']
  else if c = '\n' then ['\\', 'n']
  else if c = '\r' then ['\\', 'r']
  else if c = '\t' then ['\\', 't']
  else if c.toNat < 0x20 then '\\' :: 'u' :: Text.hexDigits 4 c.toNat
  else [c]

def quote (s : String) : List Char :=
  '"' :: s.toList.flatMap escapeChar ++ ['"']

mutual

def compact : Json → List Char
  | .null => ['n', 'u', 'l', 'l']
  | .bool true => ['t', 'r', 'u', 'e']
  | .bool false => ['f', 'a', 'l', 's', 'e']
  | .number n => n.text
  | .string s => quote s
  | .array [] => ['[', ']']
  | .array (v :: rest) => '[' :: v.compact ++ compactItems rest
  | .object [] => ['\x7b', '\x7d']
  | .object ((k, v) :: rest) => '\x7b' :: quote k ++ ':' :: v.compact ++ compactMembers rest

/-- The items after the first, with the closing bracket. -/
def compactItems : List Json → List Char
  | [] => [']']
  | v :: rest => ',' :: v.compact ++ compactItems rest

/-- The members after the first, with the closing brace. -/
def compactMembers : List (String × Json) → List Char
  | [] => ['\x7d']
  | (k, v) :: rest => ',' :: quote k ++ ':' :: v.compact ++ compactMembers rest

end

/-- The compact form as a string. -/
def text (v : Json) : String :=
  String.ofList v.compact

/-- A line break and two spaces per level. -/
def newline (level : Nat) : List Char :=
  '\n' :: List.replicate (2 * level) ' '

mutual

def lines (level : Nat) : Json → List Char
  | .array (v :: rest) =>
    '[' :: newline (level + 1) ++ v.lines (level + 1) ++ itemLines level rest
  | .object ((k, v) :: rest) =>
    '\x7b' :: newline (level + 1) ++ quote k ++ ':' :: ' ' :: v.lines (level + 1) ++
      memberLines level rest
  | .array [] => ['[', ']']
  | .object [] => ['\x7b', '\x7d']
  | .null => compact .null
  | .bool b => compact (.bool b)
  | .number n => n.text
  | .string s => quote s

def itemLines (level : Nat) : List Json → List Char
  | [] => newline level ++ [']']
  | v :: rest => ',' :: newline (level + 1) ++ v.lines (level + 1) ++ itemLines level rest

def memberLines (level : Nat) : List (String × Json) → List Char
  | [] => newline level ++ ['\x7d']
  | (k, v) :: rest =>
    ',' :: newline (level + 1) ++ quote k ++ ':' :: ' ' :: v.lines (level + 1) ++
      memberLines level rest

end

/-- The form with one line per entry, two spaces per level. -/
def pretty (v : Json) : String :=
  String.ofList (v.lines 0)

end Json

end MediaCatalog
