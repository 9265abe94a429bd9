import MediaCatalog.CommandLine.Command
import MediaCatalog.CommandLine.Fault
import MediaCatalog.CommandLine.Report
import MediaCatalog.Files.Folder
import MediaCatalog.Json.Printer

/-! The command that shows what a repair would do to tags. -/

namespace MediaCatalog.CommandLine

/-! ### Input -/

/-- A path that stands for the standard input: a dash, also as a directory. -/
def isStandardInput (path : String) : Bool :=
  match Path.names path with
  | "-" :: rest => rest.all fun name => name = "" || name = "."
  | _ => false

def readInput (path : String) (input : ByteArray) (f : Folder) : Except Fault String :=
  if isStandardInput path then
    match String.fromUTF8? input with
    | some text => .ok text
    | none => .error .unreadableInput
  else
    match f.read path with
    | .error fault => .error (.unreadableFile path fault.message)
    | .ok contents =>
      match String.fromUTF8? contents with
      | some text => .ok text
      | none => .error (.unreadableFile path Fault.notTextReason)

/-- A list of tag lists, one for each row, or one list of tags. -/
def rowsOfJson? : Json → Option (List (List Tag))
  | .array items =>
    match items.mapM Tag.listOfJson? with
    | some rows => some rows
    | none => (items.mapM Tag.ofJson?).map ([·])
  | _ => none

/-- The rows of a text. A value of another shape is refused before what follows it is looked at. -/
def rowsOfText (text : String) : Except Fault (List (List Tag)) :=
  let chars := text.toList
  match Json.readPrefix chars with
  | .error fault => .error (.notTags (fault.message chars))
  | .ok (value, rest) =>
    match rowsOfJson? value with
    | none => .error (.notTags "data did not match any variant of untagged enum PreviewInput")
    | some rows =>
      match Json.readEnd rest with
      | .error fault => .error (.notTags (fault.message chars))
      | .ok () => .ok rows

def previews : List (List Tag) → Except Fault (List Tag.Preview)
  | [] => .ok []
  | row :: rest =>
    match Tag.preview row with
    | .error u => .error (.undecodable u)
    | .ok p =>
      match previews rest with
      | .error fault => .error fault
      | .ok ps => .ok (p :: ps)

/-! ### Output -/

/-- What is told about one row, given its number. -/
def previewText (number : Nat) (p : Tag.Preview) : String :=
  if p.selected then
    Report.line s!"Row {number}: {p.decoded} decoded, {p.removed} removed" ++
      String.join (p.after.map fun tag => Report.item tag.text)
  else Report.line s!"Row {number}: no escaped tag names, unchanged"

def summaryText (ps : List Tag.Preview) : String :=
  let selected := ps.countP Tag.Preview.selected
  if selected = 0 then Report.warning "No rows would be updated"
  else Report.success s!"{selected} of {ps.length} row(s) would be updated"

def previewsText : Format → List Tag.Preview → String
  | .json, ps => Report.line (Json.array (ps.map Tag.Preview.toJson)).pretty
  | .text, ps =>
    String.join (ps.mapIdx fun i p => previewText (i + 1) p) ++ Report.blank ++ summaryText ps

def previewTags (path : String) (format : Format) (input : ByteArray) (f : Folder) :
    Except Fault String :=
  match readInput path input f with
  | .error fault => .error fault
  | .ok text =>
    match rowsOfText text with
    | .error fault => .error fault
    | .ok rows =>
      match previews rows with
      | .error fault => .error fault
      | .ok ps => .ok (previewsText format ps)

end MediaCatalog.CommandLine
