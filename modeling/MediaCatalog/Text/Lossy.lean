/-!
Text of bytes that need not be text. For a byte that begins no character, and for the beginning of a
character that is cut off, there stands a mark.
-/

namespace MediaCatalog.Text

/-- What the first byte of a character tells of it. -/
structure Lead where
  /-- Its own part of the number of the character. -/
  value : Nat
  /-- How many bytes follow. -/
  length : Nat
  /-- The range of the byte after it. -/
  low : Nat := 0x80
  high : Nat := 0xBF

/-- No character has two spellings, none is a surrogate and none is beyond the last one. -/
def lead? (byte : UInt8) : Option Lead :=
  let n := byte.toNat
  if n < 0x80 then some { value := n, length := 0 }
  else if n < 0xC2 then none
  else if n < 0xE0 then some { value := n - 0xC0, length := 1 }
  else if n = 0xE0 then some { value := 0, length := 2, low := 0xA0 }
  else if n = 0xED then some { value := 0xD, length := 2, high := 0x9F }
  else if n < 0xF0 then some { value := n - 0xE0, length := 2 }
  else if n = 0xF0 then some { value := 0, length := 3, low := 0x90 }
  else if n < 0xF4 then some { value := n - 0xF0, length := 3 }
  else if n = 0xF4 then some { value := 4, length := 3, high := 0x8F }
  else none

/-- Reads the bytes that follow, the next one in a range; none if one is missing. -/
def following : (length low high value : Nat) → List UInt8 → Option Nat × List UInt8
  | 0, _, _, value, rest => (some value, rest)
  | _ + 1, _, _, _, [] => (none, [])
  | length + 1, low, high, value, byte :: rest =>
    if low ≤ byte.toNat ∧ byte.toNat ≤ high then
      following length 0x80 0xBF (value * 64 + (byte.toNat - 0x80)) rest
    else (none, byte :: rest)

theorem length_following_le (length low high value : Nat) (bytes : List UInt8) :
    (following length low high value bytes).2.length ≤ bytes.length := by
  induction length, low, high, value, bytes using following.induct with
  | case1 | case2 => exact Nat.le_refl _
  | case3 length low high value byte rest h ih =>
    rw [following, if_pos h]
    exact Nat.le_succ_of_le ih
  | case4 length low high value byte rest h =>
    exact Nat.le_of_eq (by rw [following, if_neg h])

def markedChars (mark : List Char) : List UInt8 → List Char
  | [] => []
  | byte :: rest =>
    match lead? byte with
    | none => mark ++ markedChars mark rest
    | some lead =>
      have := length_following_le lead.length lead.low lead.high lead.value rest
      let read := following lead.length lead.low lead.high lead.value rest
      read.1.elim mark (fun n => [Char.ofNat n]) ++ markedChars mark read.2
termination_by bytes => bytes.length
decreasing_by
  · exact Nat.lt_succ_self _
  · exact Nat.lt_succ_of_le this

/-- The characters of a text, or the text with marks. -/
def charsOf (mark : List Char) (bytes : ByteArray) : List Char :=
  match String.fromUTF8? bytes with
  | some text => text.toList
  | none => markedChars mark bytes.data.toList

/-- No mark stands in a text. -/
@[simp] theorem charsOf_toUTF8 (mark : List Char) (text : String) :
    charsOf mark text.toUTF8 = text.toList := by
  have htext : String.fromUTF8? text.toUTF8 = some text := by
    rw [String.fromUTF8?, String.toUTF8_eq_toByteArray, dif_pos text.isValidUTF8]
    rfl
  rw [charsOf, htext]

def replacement : Char := '\uFFFD'

def lossy (bytes : ByteArray) : String :=
  String.ofList (charsOf [replacement] bytes)

example : markedChars [replacement] [0x61, 0xFF, 0xE2, 0x82, 0x62, 0xC3, 0xA4] =
    ['a', replacement, replacement, 'b', 'ä'] := by
  cbv

end MediaCatalog.Text
