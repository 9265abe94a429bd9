import MediaCatalog.Json.Printer

/-! Media tags as the catalog stores them, and their JSON form. -/

namespace MediaCatalog

/-- The nearest double; every number that a text can hold has one. -/
def Number.toDouble : Number → Double
  | .whole n => (Double.ofNat? (n < 0) n.natAbs).getD (Double.zero (n < 0))
  | .real x => x

/--
A tag. A provider may be any value, and a missing one differs from null. Members that are not
listed here are kept as they are.
-/
structure Tag where
  name? : Option String
  provider? : Option Json
  accuracy? : Option Double
  extra : Json.Members
  deriving DecidableEq

namespace Tag

def create (name provider : String) (accuracy? : Option Double) : Tag :=
  ⟨some name, some (.string provider), accuracy?, []⟩

/-- The keys with a meaning of their own. -/
def ownKeys : List String := ["name", "provider", "accuracy"]

/-- A name is a string, and null stands for none. -/
def nameOf? : Option Json → Option (Option String)
  | none | some .null => some none
  | some (.string s) => some (some s)
  | some _ => none

/-- An accuracy is a number, and null stands for none. -/
def accuracyOf? : Option Json → Option (Option Double)
  | none | some .null => some none
  | some (.number n) => some (some n.toDouble)
  | some _ => none

/-- Reads a tag from an object whose members are still as written. -/
def ofMembers? (members : Json.Members) : Option Tag := do
  let name? ← nameOf? (← members.once? "name")
  let provider? ← members.once? "provider"
  let accuracy? ← accuracyOf? (← members.once? "accuracy")
  let extra := members.filter (fun m => m.1 ∉ ownKeys)
  return ⟨name?, provider?.map Json.settle, accuracy?, Json.settleMembers [] extra⟩

def ofJson? : Json → Option Tag
  | .object members => ofMembers? members
  | _ => none

/-- Reads a list of tags. -/
def listOfJson? : Json → Option (List Tag)
  | .array items => items.mapM ofJson?
  | _ => none

/-- Name, provider and accuracy come first, those that are there, then all other members. -/
def members (tag : Tag) : Json.Members :=
  (tag.name?.map (fun s => ("name", Json.string s))).toList ++
    (tag.provider?.map (fun v => ("provider", v))).toList ++
    (tag.accuracy?.map (fun x => ("accuracy", Json.number (.real x)))).toList ++ tag.extra

def toJson (tag : Tag) : Json :=
  .object tag.members

/-- The compact text of a tag. -/
def text (tag : Tag) : String :=
  tag.toJson.text

end Tag

end MediaCatalog
