import MediaCatalog.Tag.Basic
import MediaCatalog.Tag.Escape

/-!
The repair of a tag list: every name is decoded, and of the tags that then agree in name and
provider the first is kept.
-/

namespace MediaCatalog

/-- A name that cannot be decoded, and why. -/
structure Undecodable where
  name : String
  fault : Escape.Fault
  deriving DecidableEq

def Undecodable.message (u : Undecodable) : String :=
  s!"cannot decode tag name '{u.name}': {u.fault.message}"

namespace Tag

/-- Decodes the name of a tag; a tag without a name stays as it is. -/
def decodeName (tag : Tag) : Except Undecodable Tag :=
  match tag.name? with
  | none => .ok tag
  | some name =>
    match Escape.decode name with
    | .ok decoded => .ok { tag with name? := some decoded }
    | .error fault => .error ⟨name, fault⟩

/-- Decodes all names, up to the first that cannot be decoded. -/
def decodeNames : List Tag → Except Undecodable (List Tag)
  | [] => .ok []
  | tag :: rest =>
    match tag.decodeName with
    | .error u => .error u
    | .ok tag' =>
      match decodeNames rest with
      | .error u => .error u
      | .ok rest' => .ok (tag' :: rest')

/-- What makes two tags duplicates: the name and the text of the provider. -/
def key (tag : Tag) : Option String × Option String :=
  (tag.name?, tag.provider?.map Json.text)

/-- Keeps the first tag of every key that is not among those seen. -/
def keepFirst (seen : List (Option String × Option String)) : List Tag → List Tag
  | [] => []
  | tag :: rest =>
    if tag.key ∈ seen then keepFirst seen rest
    else tag :: keepFirst (tag.key :: seen) rest

/-- The repaired list. -/
def repair (tags : List Tag) : Except Undecodable (List Tag) :=
  match decodeNames tags with
  | .ok decoded => .ok (keepFirst [] decoded)
  | .error u => .error u

/-- Whether a tag has a name that asks for decoding. -/
def needsDecoding (tag : Tag) : Bool :=
  match tag.name? with
  | some name => Escape.needsDecoding name
  | none => false

/-- One row's tags before and after its repair. -/
structure Preview where
  /-- Rows without a name that asks for decoding are not touched. -/
  selected : Bool
  before : List Tag
  after : List Tag
  decoded : Nat
  removed : Nat
  deriving DecidableEq

/-- What the repair would do to one row. -/
def preview (tags : List Tag) : Except Undecodable Preview :=
  if tags.any needsDecoding then
    match repair tags with
    | .ok after =>
      .ok ⟨true, tags, after, tags.countP needsDecoding, tags.length - after.length⟩
    | .error u => .error u
  else .ok ⟨false, tags, tags, 0, 0⟩

def Preview.toJson (p : Preview) : Json :=
  .object [("selected", .bool p.selected), ("before", .array (p.before.map Tag.toJson)),
    ("after", .array (p.after.map Tag.toJson)), ("decoded", .ofNat p.decoded),
    ("removed", .ofNat p.removed)]

end Tag

end MediaCatalog
