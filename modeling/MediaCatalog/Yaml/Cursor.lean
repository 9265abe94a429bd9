/-! Places in a YAML text, and the characters that matter to its layout. -/

namespace MediaCatalog.Yaml

/-- Line breaks: carriage return, line feed, next line, line and paragraph separator. -/
def isBreak (c : Char) : Bool :=
  c == '\r' || c == '\n' || c == '\u0085' || c == '\u2028' || c == '\u2029'

def isSpace (c : Char) : Bool :=
  c == ' ' || c == '\t'

/-- The characters of anchors, handles and directive names. -/
def isWordChar (c : Char) : Bool :=
  c.isAlphanum || c == '_' || c == '-'

/-- Whether a character may stand in a YAML text at all. -/
def isPrintable (c : Char) : Bool :=
  let n := c.toNat
  n == 9 || n == 10 || n == 13 || (0x20 ≤ n && n ≤ 0x7E) || n == 0x85 ||
    (0xA0 ≤ n && n ≤ 0xFFFD) || 0x10000 ≤ n

/-- The characters of a text in UTF-8, all of them printable. -/
def decode? (bytes : ByteArray) : Option (List Char) :=
  match String.fromUTF8? bytes with
  | some text => if text.toList.all isPrintable then some text.toList else none
  | none => none

/-- What is left of a text, and where that begins. -/
structure Cursor where
  rest : List Char
  index : Nat
  line : Nat
  column : Nat

namespace Cursor

def start (text : List Char) : Cursor :=
  ⟨text, 0, 0, 0⟩

def peek (c : Cursor) : Option Char :=
  c.rest.head?

/-- Whether the next character is the given one. -/
def at? (ch : Char) (c : Cursor) : Bool :=
  c.peek == some ch

/-- Whether the text breaks off `n` characters further on: at its end, a space or a break. -/
def gapAt (n : Nat) (c : Cursor) : Bool :=
  match c.rest[n]? with
  | some ch => isSpace ch || isBreak ch
  | none => true

/-- Whether the line ends here. -/
def atLineEnd (c : Cursor) : Bool :=
  c.peek.all isBreak

/-- Passes characters that are not breaks. -/
def skip (n : Nat) (c : Cursor) : Cursor :=
  ⟨c.rest.drop n, c.index + n, c.line, c.column + n⟩

def skipWhile (p : Char → Bool) (c : Cursor) : Cursor :=
  c.skip (c.rest.takeWhile p).length

/-- Passes a comment. -/
def skipComment (c : Cursor) : Cursor :=
  if c.at? '#' then c.skipWhile (!isBreak ·) else c

/-- Passes a break; a carriage return and the line feed after it are one. -/
def skipBreak (c : Cursor) : Cursor :=
  match c.rest with
  | '\r' :: '\n' :: rest => ⟨rest, c.index + 2, c.line + 1, 0⟩
  | ch :: rest => if isBreak ch then ⟨rest, c.index + 1, c.line + 1, 0⟩ else c
  | [] => c

/-- The text that a break stands for: a line feed, or the separator itself. -/
def breakText (c : Cursor) : String :=
  match c.peek with
  | some ch =>
    if ch == '\u2028' || ch == '\u2029' then ch.toString
    else if isBreak ch then "\n"
    else ""
  | none => ""

/-- Whether a mark of a document's start or end stands here. -/
def atDocumentMark (c : Cursor) : Bool :=
  c.column == 0 && c.gapAt 3 &&
    (c.rest.take 3 == ['-', '-', '-'] || c.rest.take 3 == ['.', '.', '.'])

end Cursor

end MediaCatalog.Yaml
