import MediaCatalog.Text.Hex
import MediaCatalog.Yaml.Cursor

/-! Scalars: plain, quoted and block texts, with their lines folded. -/

namespace MediaCatalog.Yaml

/-- Spaces and breaks between two stretches of a folded text. -/
structure Gap where
  /-- The spaces before the first break. -/
  spaces : String := ""
  firstBreak : String := ""
  moreBreaks : String := ""
  broken : Bool := false

/-- One line feed becomes a space; of several the first is dropped. -/
def Gap.text (g : Gap) : String :=
  if !g.broken then g.spaces
  else if g.firstBreak != "\n" then g.firstBreak ++ g.moreBreaks
  else if g.moreBreaks.isEmpty then " "
  else g.moreBreaks

/-- Reads a gap. After a break no tab may stand before the given column. -/
def readGap (column : Nat) : (fuel : Nat) → Gap → Cursor → Option (Gap × Cursor)
  | 0, _, _ => none
  | fuel + 1, g, c =>
    match c.peek with
    | some ch =>
      if isSpace ch then
        if g.broken && ch == '\t' && c.column < column then none
        else readGap column fuel
          (if g.broken then g else { g with spaces := g.spaces.push ch }) (c.skip 1)
      else if isBreak ch then
        readGap column fuel
          (if g.broken then { g with moreBreaks := g.moreBreaks ++ c.breakText }
            else { firstBreak := c.breakText, broken := true }) c.skipBreak
      else some (g, c)
    | none => some (g, c)

/-! ### Plain scalars -/

/--
The characters of a plain scalar up to the next space. In a flow collection a colon before an
indicator is refused.
-/
def plainRun (flow : Bool) : List Char → Option (List Char)
  | [] => some []
  | ch :: rest =>
    if isSpace ch || isBreak ch then some []
    else if flow && ch == ':' && rest.head?.any (",?[]\x7b\x7d".contains ·) then none
    else if ch == ':' && rest.head?.all (fun next => isSpace next || isBreak next) then some []
    else if flow && ",[]\x7b\x7d".contains ch then some []
    else (plainRun flow rest).map (ch :: ·)

/--
Reads on in a plain scalar whose lines have to be indented to a column. The answer says whether
a break stands after it.
-/
def plainFrom (flow : Bool) (column : Nat) :
    (fuel : Nat) → String → Gap → Cursor → Option (String × Bool × Cursor)
  | 0, _, _, _ => none
  | fuel + 1, text, gap, c =>
    if c.atDocumentMark || c.at? '#' then some (text, gap.broken, c)
    else do
      let run ← plainRun flow c.rest
      if run.isEmpty then return (text, gap.broken, c)
      let text := text ++ gap.text ++ String.ofList run
      let c := c.skip run.length
      let (gap, c) ← readGap column (c.rest.length + 1) {} c
      if !flow && c.column < column then return (text, gap.broken, c)
      plainFrom flow column fuel text gap c

def plain? (flow : Bool) (column : Nat) (c : Cursor) : Option (String × Bool × Cursor) :=
  plainFrom flow column (c.rest.length + 1) "" {} c

/-! ### Quoted scalars -/

/-- What a backslash and a letter stand for in double quotes. -/
def escaped? : Char → Option Char
  | '0' => some '\x00'
  | 'a' => some '\x07'
  | 'b' => some '\x08'
  | 't' | '\t' => some '\t'
  | 'n' => some '\n'
  | 'v' => some '\x0b'
  | 'f' => some '\x0c'
  | 'r' => some '\r'
  | 'e' => some '\x1b'
  | ' ' => some ' '
  | '"' => some '"'
  | '/' => some '/'
  | '\\' => some '\\'
  | 'N' => some '\u0085'
  | '_' => some '\u00a0'
  | 'L' => some '\u2028'
  | 'P' => some '\u2029'
  | _ => none

/-- How many hexadecimal digits follow a backslash and a letter. -/
def escapeWidth? : Char → Option Nat
  | 'x' => some 2
  | 'u' => some 4
  | 'U' => some 8
  | _ => none

/-- The character with a number given in a fixed count of hexadecimal digits. -/
def numbered? (width : Nat) (digits : List Char) : Option Char :=
  if digits.length = width then
    match Text.readDigits? 16 0 digits with
    | some n => if h : n.isValidChar then some (Char.ofNatAux n h) else none
    | none => none
  else none

/-- The characters of a quoted scalar up to the next space, the quote or an escaped break. -/
def quotedRun (single : Bool) : (fuel : Nat) → String → Cursor → Option (String × Bool × Cursor)
  | 0, _, _ => none
  | fuel + 1, text, c =>
    match c.rest with
    | [] => some (text, false, c)
    | ch :: rest =>
      if isSpace ch || isBreak ch then some (text, false, c)
      else if single then
        if ch != '\'' then quotedRun single fuel (text.push ch) (c.skip 1)
        else if rest.head? == some '\'' then quotedRun single fuel (text.push '\'') (c.skip 2)
        else some (text, false, c)
      else if ch == '"' then some (text, false, c)
      else if ch != '\\' then quotedRun single fuel (text.push ch) (c.skip 1)
      else
        match rest with
        | [] => none
        | letter :: digits =>
          if isBreak letter then some (text, true, (c.skip 1).skipBreak)
          else
            match escaped? letter, escapeWidth? letter with
            | some e, _ => quotedRun single fuel (text.push e) (c.skip 2)
            | none, some width =>
              match numbered? width (digits.take width) with
              | some e => quotedRun single fuel (text.push e) (c.skip (2 + width))
              | none => none
            | none, none => none

/-- Reads on in a quoted scalar, to behind its closing quote. -/
def quotedFrom (single : Bool) : (fuel : Nat) → String → Cursor → Option (String × Cursor)
  | 0, _, _ => none
  | fuel + 1, text, c =>
    if c.atDocumentMark || c.rest.isEmpty then none
    else do
      let (text, broken, c) ← quotedRun single (c.rest.length + 1) text c
      if c.at? (if single then '\'' else '"') then return (text, c.skip 1)
      let (gap, c) ← readGap 0 (c.rest.length + 1) { broken } c
      quotedFrom single fuel (text ++ gap.text) c

/-- Reads a quoted scalar from its opening quote on. -/
def quoted? (single : Bool) (c : Cursor) : Option (String × Cursor) :=
  quotedFrom single (c.rest.length + 1) "" (c.skip 1)

/-! ### Block scalars -/

/-- What becomes of the breaks at the end of a block scalar. -/
inductive Chomping where
  /-- No break is kept. -/
  | strip
  /-- The first break is kept. -/
  | clip
  /-- All breaks are kept. -/
  | keep

def chomping? : Option Char → Option Chomping
  | some '+' => some .keep
  | some '-' => some .strip
  | _ => none

/-- The indentation of a block scalar, relative to its parent: a digit other than zero. -/
def indentation? (ch : Option Char) : Option Nat :=
  match ch with
  | some d => if d.isDigit then some (d.toNat - 48) else none
  | none => none

/-- Reads the two indicators of a block scalar, in either order; an indentation of zero is refused. -/
def blockHeader? (c : Cursor) : Option (Chomping × Option Nat × Cursor) :=
  let (chomping, indentation, c) : Option Chomping × Option Nat × Cursor :=
    match chomping? c.peek, indentation? c.peek with
    | some chomping, _ =>
      match indentation? (c.skip 1).peek with
      | some n => (some chomping, some n, c.skip 2)
      | none => (some chomping, none, c.skip 1)
    | none, some n =>
      match chomping? (c.skip 1).peek with
      | some chomping => (some chomping, some n, c.skip 2)
      | none => (none, some n, c.skip 1)
    | none, none => (none, none, c)
  if indentation = some 0 then none else some (chomping.getD .clip, indentation, c)

/--
Passes the empty lines and the indentation before a line of a block scalar. While no indentation
is known all spaces count. Answers the deepest column reached and the breaks passed.
-/
def blockBreaks (indentation : Option Nat) :
    (fuel : Nat) → (deepest : Nat) → String → Cursor → Option (Nat × String × Cursor)
  | 0, _, _, _ => none
  | fuel + 1, deepest, breaks, c =>
    let spaces := (c.rest.takeWhile (· == ' ')).length
    let c := c.skip (match indentation with
      | some n => min spaces (n - c.column)
      | none => spaces)
    let deepest := max deepest c.column
    if c.at? '\t' && indentation.all (c.column < ·) then none
    else if c.peek.any isBreak then
      blockBreaks indentation fuel deepest (breaks ++ c.breakText) c.skipBreak
    else some (deepest, breaks, c)

/-- The text of a block scalar so far, and the breaks behind it. -/
structure BlockText where
  text : String := ""
  /-- The break that ends the last line. -/
  lineBreak : String := ""
  /-- The breaks of the empty lines after it. -/
  emptyLines : String
  /-- Whether the last line starts with a space. -/
  spaced : Bool := false

/-- Adds a line. In a folded text the break before it becomes a space, unless it is between lines
that start with a space. -/
def BlockText.add (folded : Bool) (line : List Char) (b : BlockText) : BlockText :=
  let spaced := line.head?.any isSpace
  let joint :=
    if folded && b.lineBreak == "\n" && !b.spaced && !spaced then
      if b.emptyLines.isEmpty then " " else ""
    else b.lineBreak
  { b with text := b.text ++ joint ++ b.emptyLines ++ String.ofList line, spaced }

def BlockText.finish (chomping : Chomping) (b : BlockText) : String :=
  match chomping with
  | .strip => b.text
  | .clip => b.text ++ b.lineBreak
  | .keep => b.text ++ b.lineBreak ++ b.emptyLines

/-- Reads the lines of a block scalar. -/
def blockLines (folded : Bool) (indentation : Nat) :
    (fuel : Nat) → BlockText → Cursor → Option (BlockText × Cursor)
  | 0, _, _ => none
  | fuel + 1, b, c =>
    if c.column = indentation ∧ ¬ c.rest.isEmpty then do
      let line := c.rest.takeWhile (!isBreak ·)
      let c := c.skip line.length
      let (_, emptyLines, after) ←
        blockBreaks (some indentation) (c.rest.length + 1) 0 "" c.skipBreak
      blockLines folded indentation fuel
        { b.add folded line with lineBreak := c.breakText, emptyLines } after
    else some (b, c)

/-- Reads a block scalar from its indicator on; `parent` is the indentation around it, if any. -/
def block? (folded : Bool) (parent : Option Nat) (c : Cursor) : Option (String × Cursor) := do
  let (chomping, indentation, c) ← blockHeader? (c.skip 1)
  let c := (c.skipWhile isSpace).skipComment
  if !c.atLineEnd then none
  let c := c.skipBreak
  let given := indentation.map (parent.getD 0 + ·)
  let (deepest, emptyLines, c) ← blockBreaks given (c.rest.length + 1) 0 "" c
  let least := match parent with
    | some n => n + 1
    | none => 1
  let (b, c) ←
    blockLines folded (given.getD (max deepest least)) (c.rest.length + 1) { emptyLines } c
  return (b.finish chomping, c)

end MediaCatalog.Yaml
