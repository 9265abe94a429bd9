/-! What a text leaves behind when the commands for a terminal are taken out of it. -/

namespace MediaCatalog.Text

/-- Where a text stands between terminal commands. -/
inductive CommandState where
  | ground
  | escape
  /-- Behind an escape and the characters between it and its last one. -/
  | intermediate
  /-- Behind an escape and an opening bracket. -/
  | control
  /-- In a string for the terminal, such as its title. -/
  | title
  /-- In a string for the device, or one that is to be ignored. -/
  | device
  deriving DecidableEq

/-- White space of the controls; it shows everywhere but in strings. -/
def isLayout (c : Char) : Bool :=
  c == '\t' || c == '\n' || c == '\x0c' || c == '\r'

/-- Whether a character has the byte that ends a string for the device. -/
def holdsStringEnd (c : Char) : Bool :=
  c.toString.toUTF8.data.any (· == 0x9C)

namespace CommandState

/-- What a character makes of an escape before it. -/
def afterEscape (c : Char) : CommandState :=
  let n := c.toNat
  if c = '[' then .control
  else if c = ']' then .title
  else if c ∈ ['P', 'X', '^', '_'] then .device
  else if 0x20 ≤ n ∧ n ≤ 0x2F then .intermediate
  else if 0x30 ≤ n ∧ n ≤ 0x7E then .ground
  else .escape

/-- The state behind a character that does not show. -/
def next (s : CommandState) (c : Char) : CommandState :=
  let n := c.toNat
  if n = 0x1B then .escape
  else if n = 0x18 ∨ n = 0x1A then .ground
  else
    match s with
    | .ground => .ground
    | .escape => afterEscape c
    | .intermediate => if 0x30 ≤ n ∧ n ≤ 0x7E then .ground else .intermediate
    | .control => if 0x40 ≤ n ∧ n ≤ 0x7E then .ground else .control
    | .title => if n = 0x07 then .ground else .title
    | .device => if holdsStringEnd c then .ground else .device

/-- Whether a character shows. -/
def shows (s : CommandState) (c : Char) : Bool :=
  match s with
  | .ground => isLayout c || (0x20 ≤ c.toNat && c.toNat != 0x7F)
  | .escape | .intermediate | .control => isLayout c
  | .title | .device => false

end CommandState

/-- The characters that show. One that shows ends the command it stands in. -/
def visibleFrom : CommandState → List Char → List Char
  | _, [] => []
  | s, c :: rest =>
    if s.shows c then c :: visibleFrom .ground rest else visibleFrom (s.next c) rest

def visible (text : String) : String :=
  String.ofList (visibleFrom .ground text.toList)

end MediaCatalog.Text
