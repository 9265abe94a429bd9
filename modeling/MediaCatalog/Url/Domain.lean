import MediaCatalog.Url.Fault
import MediaCatalog.Url.Percent
import MediaCatalog.Text.Blank
import MediaCatalog.Url.Punycode

/-!
Domain names in ASCII. Characters are first brought to one form (lower case, full-width forms made
narrow), then each label outside ASCII is written in Punycode after the marker `xn--`.
-/

namespace MediaCatalog.Url

def inRanges (ranges : List (Nat × Nat)) (c : Char) : Bool :=
  ranges.any fun (first, last) => first ≤ c.toNat && c.toNat ≤ last

/-- Characters that a domain name loses. -/
def ignoredInDomain : List (Nat × Nat) := [
  (0xAD, 0xAD), (0x34F, 0x34F), (0x115F, 0x1160), (0x17B4, 0x17B5), (0x180B, 0x180F),
  (0x200B, 0x200B), (0x2060, 0x2064), (0x206A, 0x206F), (0x3164, 0x3164), (0xFE00, 0xFE0F),
  (0xFEFF, 0xFEFF), (0xFFA0, 0xFFA0), (0x1BCA0, 0x1BCA3), (0x1D173, 0x1D17A), (0xE0100, 0xE01EF)]

/-- Control, space, layout and private characters, which no domain name has. -/
def refusedInDomain : List (Nat × Nat) := [
  (0x80, 0xA0), (0xA8, 0xA8), (0xAF, 0xAF), (0xB4, 0xB4), (0xB8, 0xB8), (0x2D8, 0x2DD),
  (0x37A, 0x37A), (0x384, 0x385), (0x600, 0x605), (0x61C, 0x61C), (0x6DD, 0x6DD), (0x70F, 0x70F),
  (0x1680, 0x1680), (0x2000, 0x200A), (0x200C, 0x200F), (0x2017, 0x2017), (0x2028, 0x202F),
  (0x203E, 0x203E), (0x205F, 0x205F), (0x2065, 0x2069), (0x2100, 0x2101), (0x2105, 0x2106),
  (0x2FF0, 0x2FFF), (0x3000, 0x3000), (0xE000, 0xF8FF), (0xFDD0, 0xFDEF), (0xFFF9, 0xFFFF),
  (0x1FFFE, 0x1FFFF), (0xE0000, 0xE00FF), (0xE01F0, 0x10FFFF)]

/-- Marks that no label begins with. -/
def combining : List (Nat × Nat) := [
  (0x300, 0x36F), (0x483, 0x489), (0x591, 0x5BD), (0x610, 0x61A), (0x64B, 0x65F), (0x900, 0x903),
  (0x93A, 0x93C), (0x93E, 0x94F), (0x1AB0, 0x1ACE), (0x1DC0, 0x1DFF), (0x20D0, 0x20F0),
  (0x302A, 0x302F), (0x3099, 0x309A), (0xFE20, 0xFE2F)]

/-- One form for a character: ideographic full stops separate, letters are small. -/
def domainForm (c : Char) : Char :=
  let n := c.toNat
  if n = 0x3002 ∨ n = 0xFF0E ∨ n = 0xFF61 then '.'
  else if 0xFF01 ≤ n ∧ n ≤ 0xFF5E then (Char.ofNat (n - 0xFEE0)).toLower
  else if 0xC0 ≤ n ∧ n ≤ 0xDE ∧ n ≠ 0xD7 then Char.ofNat (n + 32)
  else if 0x391 ≤ n ∧ n ≤ 0x3A9 then Char.ofNat (n + 32)
  else if 0x410 ≤ n ∧ n ≤ 0x42F then Char.ofNat (n + 32)
  else if 0x400 ≤ n ∧ n ≤ 0x40F then Char.ofNat (n + 80)
  else c.toLower

/-- Characters of ASCII that no domain name has. -/
def isDeniedInDomain (c : Char) : Bool :=
  c.toNat ≤ 0x20 || c.toNat == 0x7F ||
    c ∈ ['%', '#', '/', ':', '<', '>', '?', '@', '[', '\\', ']', '^', '|']

def isLabel (label : List Char) : Bool :=
  !label.any (inRanges refusedInDomain) && !label.any isDeniedInDomain &&
    !(label.head?.any (inRanges combining))

/-- A label in ASCII. One with the marker has to hold something that needs it, in its one form. -/
def asciiLabel (label : List Char) : Option (List Char) :=
  match label with
  | 'x' :: 'n' :: '-' :: '-' :: coded =>
    match Punycode.decode coded with
    | some plain =>
      if isLabel plain && plain.any (128 ≤ ·.toNat) && plain.map domainForm == plain &&
          !plain.any (inRanges ignoredInDomain) && coded.all (·.toNat < 128) then
        some label
      else none
    | none => none
  | _ =>
    if !isLabel label then none
    else if label.all (·.toNat < 128) then some label
    else some ("xn--".toList ++ Punycode.encode label)

/-- The domain name that the bytes of a host stand for. -/
def asciiDomain (bytes : List UInt8) : Except Fault String :=
  match String.fromUTF8? ⟨bytes.toArray⟩ with
  | none => .error .internationalName
  | some text =>
    let chars := (text.toList.filter fun c => !inRanges ignoredInDomain c).map domainForm
    match (Text.splitAt '.' chars).mapM asciiLabel with
    | some labels => .ok (".".intercalate (labels.map String.ofList))
    | none => .error .internationalName

end MediaCatalog.Url
