import MediaCatalog.Text.Hex

/-! Percent-encoding, with one set of encoded characters per part of a URL. -/

namespace MediaCatalog.Url

/-- Control characters and everything outside ASCII. -/
def isControl (c : Char) : Bool :=
  c.toNat < 0x20 || 0x7F ≤ c.toNat

def isEncodedInFragment (c : Char) : Bool :=
  isControl c || c ∈ [' ', '"', '<', '>', '`']

def isEncodedInQuery (c : Char) : Bool :=
  isControl c || c ∈ [' ', '"', '#', '<', '>']

/-- A quote is encoded as well where the scheme has a host by rule. -/
def isEncodedInSpecialQuery (c : Char) : Bool :=
  isEncodedInQuery c || c == '\''

def isEncodedInPath (c : Char) : Bool :=
  isEncodedInFragment c || c ∈ ['#', '?', '{', '}']

def isEncodedInUser (c : Char) : Bool :=
  isEncodedInPath c || c ∈ ['/', ':', ';', '=', '@', '[', '\\', ']', '^', '|']

/-- A percent sign and two upper-case digits for each byte of the character. -/
def percentEncodeChar (c : Char) : List Char :=
  (String.utf8EncodeChar c).flatMap fun b =>
    '%' :: (Text.hexDigits 2 b.toNat).map Char.toUpper

def percentEncode (encoded : Char → Bool) (chars : List Char) : List Char :=
  chars.flatMap fun c => if encoded c then percentEncodeChar c else [c]

/-- The bytes of a text, with every `%` and two digits read as one byte. -/
def percentDecode : List Char → List UInt8
  | [] => []
  | [c] => String.utf8EncodeChar c
  | [c, d] => String.utf8EncodeChar c ++ String.utf8EncodeChar d
  | c :: d :: e :: rest =>
    match c, Text.digitIn? 16 d, Text.digitIn? 16 e with
    | '%', some high, some low => (high * 16 + low).toUInt8 :: percentDecode rest
    | _, _, _ => String.utf8EncodeChar c ++ percentDecode (d :: e :: rest)

end MediaCatalog.Url
