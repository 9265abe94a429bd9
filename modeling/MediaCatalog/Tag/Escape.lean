import MediaCatalog.Text.DecimalDigit
import MediaCatalog.Text.Hex

/-!
Escape sequences in tag names. A name is first brought into the range up to U+00FF, with an escape
for every character beyond, and then all its escapes are replaced by what they stand for.
-/

namespace MediaCatalog.Escape

/-- Why a name cannot be decoded. -/
inductive Fault where
  /-- A backslash ends the text. -/
  | unfinished
  /-- Two, four or eight hexadecimal digits are missing. -/
  | shortByte | shortUnit | shortPoint
  /-- The digits name a surrogate or lie beyond the last character. -/
  | notScalar
  /-- Characters cannot be given by name. -/
  | named
  deriving DecidableEq

def Fault.message : Fault → String
  | .unfinished => "\\ at end of string"
  | .shortByte => "truncated \\xXX escape"
  | .shortUnit => "truncated \\uXXXX escape"
  | .shortPoint => "truncated \\UXXXXXXXX escape"
  | .notScalar => "escape is not a valid unicode scalar value"
  | .named => "named unicode escapes are not supported"

/-- A character beyond U+00FF as an escape with four or, where needed, eight digits. -/
def narrowChar (c : Char) : List Char :=
  if c.toNat ≤ 0xFF then [c]
  else if c.toNat ≤ 0xFFFF then '\\' :: 'u' :: Text.hexDigits 4 c.toNat
  else '\\' :: 'U' :: Text.hexDigits 8 c.toNat

def narrow (text : List Char) : List Char :=
  text.flatMap narrowChar

/-- The character that a letter or sign behind a backslash stands for. -/
def simple? : Char → Option Char
  | '\\' => some '\\'
  | '\'' => some '\''
  | '"' => some '"'
  | 'a' => some '\x07'
  | 'b' => some '\x08'
  | 'f' => some '\x0c'
  | 'n' => some '\n'
  | 'r' => some '\r'
  | 't' => some '\t'
  | 'v' => some '\x0b'
  | _ => none

/-- Takes as many octal digits as there are, up to a number of them. -/
def octal : (atMost value : Nat) → List Char → Nat × List Char
  | 0, value, rest => (value, rest)
  | _ + 1, value, [] => (value, [])
  | atMost + 1, value, c :: rest =>
    match Text.digitIn? 8 c with
    | some d => octal atMost (value * 8 + d) rest
    | none => (value, c :: rest)

theorem length_octal_le (atMost value : Nat) (s : List Char) :
    (octal atMost value s).2.length ≤ s.length := by
  fun_induction octal atMost value s with
  | case1 => simp
  | case2 => simp
  | case3 _ _ _ _ _ _ ih => simp only [List.length_cons]; omega
  | case4 => simp

/-- How many digits follow an `x`, `u` or `U`, and the fault if they do not. -/
def hexWidth? : Char → Option (Nat × Fault)
  | 'x' => some (2, .shortByte)
  | 'u' => some (4, .shortUnit)
  | 'U' => some (8, .shortPoint)
  | _ => none

/-- Takes exactly `width` hexadecimal digits. -/
def hex (width : Nat) (short : Fault) (s : List Char) : Except Fault (Char × List Char) :=
  if s.length < width then .error short
  else
    match Text.readDigits? 16 0 (s.take width) with
    | none => .error short
    | some code =>
      if code.isValidChar then .ok (Char.ofNat code, s.drop width) else .error .notScalar

/-- What a backslash and the character behind it stand for, and the text after the escape. -/
def escape (next : Char) (rest : List Char) : Except Fault (List Char × List Char) :=
  match simple? next, Text.digitIn? 8 next, hexWidth? next with
  | some c, _, _ => .ok ([c], rest)
  | none, some d, _ =>
    let (code, rest') := octal 2 d rest
    .ok ([Char.ofNat code], rest')
  | none, none, some (width, short) =>
    match hex width short rest with
    | .ok (c, rest') => .ok ([c], rest')
    | .error f => .error f
  | none, none, none =>
    if next = '\n' then .ok ([], rest)
    else if next = 'N' then .error .named
    else .ok (['\\', next], rest)

theorem length_escape_le {next : Char} {s out rest : List Char}
    (h : escape next s = .ok (out, rest)) : rest.length ≤ s.length := by
  unfold escape hex at h
  split at h
  · simp at h; simp [h.2]
  · simp only [Except.ok.injEq, Prod.mk.injEq] at h
    rw [← h.2]
    exact length_octal_le 2 _ s
  · split at h
    · rename_i h'
      split at h'
      · simp at h'
      · split at h'
        · simp at h'
        · split at h'
          · simp only [Except.ok.injEq, Prod.mk.injEq] at h h'
            rw [← h.2, ← h'.2]
            simp
          · simp at h'
    · simp at h
  · split at h
    · simp at h; simp [h.2]
    · split at h
      · simp at h
      · simp at h; simp [h.2]

/-- Replaces every escape in a text by what it stands for. -/
def unescape (s : List Char) : Except Fault (List Char) :=
  match s with
  | [] => .ok []
  | c :: rest =>
    if c = '\\' then
      match rest with
      | [] => .error .unfinished
      | next :: rest' =>
        match h : escape next rest' with
        | .error f => .error f
        | .ok (out, rest'') =>
          have := length_escape_le h
          match unescape rest'' with
          | .ok decoded => .ok (out ++ decoded)
          | .error f => .error f
    else
      match unescape rest with
      | .ok decoded => .ok (c :: decoded)
      | .error f => .error f
termination_by s.length
decreasing_by all_goals simp only [List.length_cons]; omega

/-- The name that a text with escapes stands for. -/
def decode (name : String) : Except Fault String :=
  match unescape (narrow name.toList) with
  | .ok decoded => .ok (String.ofList decoded)
  | .error f => .error f

/-! ## Names that are selected for decoding -/

/-- A hexadecimal letter in either case, or a decimal digit of any script. -/
def isDigitLike (c : Char) : Bool :=
  Text.isDecimalDigit c || ('a' ≤ c && c ≤ 'f') || ('A' ≤ c && c ≤ 'F')

def startsWithDigits (count : Nat) (s : List Char) : Bool :=
  count ≤ s.length && (s.take count).all isDigitLike

/-- Whether a text starts with `\x` and two digits or `\u` and four, the letter in either case. -/
def startsWithEscape : List Char → Bool
  | '\\' :: k :: rest =>
    ((k == 'x' || k == 'X') && startsWithDigits 2 rest) ||
      ((k == 'u' || k == 'U') && startsWithDigits 4 rest)
  | _ => false

def containsEscape : List Char → Bool
  | [] => false
  | c :: rest => startsWithEscape (c :: rest) || containsEscape rest

/-- Whether a name asks for decoding. -/
def needsDecoding (name : String) : Bool :=
  containsEscape name.toList

end MediaCatalog.Escape
