/-! White space as Unicode defines it, and the one-line form of a text. -/

namespace MediaCatalog.Text

/-- The characters with the Unicode property `White_Space`. -/
def isBlank (c : Char) : Bool :=
  let n := c.toNat
  (9 ≤ n && n ≤ 13) || n == 0x20 || n == 0x85 || n == 0xA0 || n == 0x1680 ||
    (0x2000 ≤ n && n ≤ 0x200A) || n == 0x2028 || n == 0x2029 || n == 0x202F ||
    n == 0x205F || n == 0x3000

/-- Puts a word in front of others, unless it is empty. -/
def consWord (word : List Char) (words : List (List Char)) : List (List Char) :=
  if word.isEmpty then words else word :: words

/-- The word the text starts with, empty if it starts with a blank, and the words after it. -/
def splitWords : List Char → List Char × List (List Char)
  | [] => ([], [])
  | c :: rest =>
    let (word, words) := splitWords rest
    if isBlank c then ([], consWord word words) else (c :: word, words)

/-- The maximal runs of characters that are not blank, in order. -/
def words (text : List Char) : List (List Char) :=
  consWord (splitWords text).1 (splitWords text).2

/-- The words of a text with one space between them. -/
def oneLine (text : String) : String :=
  String.intercalate " " ((words text.toList).map String.ofList)

/-- Drops blanks at both ends. -/
def trim (text : String) : String :=
  String.ofList ((text.toList.dropWhile isBlank).reverse.dropWhile isBlank).reverse

/-- Drops blanks at the end. -/
def trimEnd (text : String) : String :=
  String.ofList (text.toList.reverse.dropWhile isBlank).reverse

/-- Drops every slash at the end. -/
def trimSlashes (text : String) : String :=
  String.ofList (text.toList.reverse.dropWhile (· == '/')).reverse

/-- Splits at every occurrence of a character; the parts are one more than the occurrences. -/
def splitAt (sep : Char) : List Char → List (List Char)
  | [] => [[]]
  | c :: rest =>
    match splitAt sep rest with
    | [] => [[c]]
    | part :: parts => if c == sep then [] :: part :: parts else (c :: part) :: parts

/-- The text after the last slash, the whole text if it has none. -/
def afterLastSlash (text : String) : String :=
  String.ofList (text.toList.reverse.takeWhile (· != '/')).reverse

end MediaCatalog.Text
