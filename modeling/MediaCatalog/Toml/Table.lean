import MediaCatalog.Decimal.Double

/-!
TOML values, and how the lines of a document build its table. A table knows how it came to be,
since that decides what may still be added to it.
-/

namespace MediaCatalog.Toml

inductive Origin where
  /-- The document itself, or a table with a header of its own. -/
  | header
  /-- On the way to a table with a header. -/
  | implied
  /-- On the way to the last part of a dotted key. -/
  | dotted
  /-- Written in braces, and complete. -/
  | inline
  deriving DecidableEq

inductive Value where
  | string (s : String)
  | integer (n : Int)
  | float (x : Double)
  /-- An infinity, or no number. -/
  | notFinite
  | boolean (b : Bool)
  | dateTime
  | array (items : List Value)
  /-- The tables under headers in double brackets. -/
  | rows (tables : List (List (String × Value)))
  | table (origin : Origin) (entries : List (String × Value))

abbrev Table := List (String × Value)

/-- A name in a table, and the tables on the way to it. -/
structure Key where
  path : List String
  name : String

inductive Statement where
  | entry (key : Key) (value : Value)
  | header (key : Key)
  /-- A header in double brackets. -/
  | row (key : Key)

namespace Table

def get? (name : String) : Table → Option Value :=
  List.lookup name

/-- Changes what stands under a name, or adds it at the end. -/
def alter? (t : Table) (name : String) (change : Option Value → Option Value) : Option Table :=
  match t with
  | [] => (change none).map fun v => [(name, v)]
  | (n, v) :: rest =>
    if n = name then (change (some v)).map fun v => (n, v) :: rest
    else (alter? rest name change).map ((n, v) :: ·)

/-- Whether a path may go through a table. A dotted key leaves tables with headers alone. -/
def isOpenTo (made origin : Origin) : Bool :=
  origin != .inline && !(made == .dotted && origin == .header)

/--
Changes the table at the end of a path. Missing tables are made on the way, and of several rows the
last is meant.
-/
def within? (made : Origin) (change : Origin → Table → Option Table) :
    List String → Origin → Table → Option Table
  | [], origin, t => change origin t
  | name :: path, _, t =>
    t.alter? name fun
      | none => (within? made change path made []).map (.table made)
      | some (.table origin entries) =>
        if isOpenTo made origin then (within? made change path origin entries).map (.table origin)
        else none
      | some (.rows tables) =>
        match tables.getLast? with
        | some last =>
          (within? made change path .header last).map fun last => .rows (tables.dropLast ++ [last])
        | none => none
      | some _ => none

/-- Puts a value under a new name. Only tables that dotted keys made take what a dotted key adds. -/
def insert? (key : Key) (value : Value) : Table → Option Table :=
  within? .dotted (fun origin t =>
    if (origin == .dotted) == key.path.isEmpty || (t.get? key.name).isSome then none
    else some (t ++ [(key.name, value)])) key.path .header

/-- Begins the table of a header; one that was only implied so far becomes it. -/
def begin? (key : Key) : Table → Option Table :=
  within? .implied (fun _ t => t.alter? key.name fun
    | none => some (.table .header [])
    | some (.table .implied entries) => some (.table .header entries)
    | some _ => none) key.path .header

/-- Begins another row. -/
def addRow? (key : Key) : Table → Option Table :=
  within? .implied (fun _ t => t.alter? key.name fun
    | none => some (.rows [[]])
    | some (.rows tables) => some (.rows (tables ++ [[]]))
    | some _ => none) key.path .header

/-- Takes statements in their order; entries belong to the table of the last header. -/
def ofStatements? : List Statement → (header : List String) → Table → Option Table
  | [], _, t => some t
  | .entry key value :: rest, header, t =>
    match within? .implied (fun _ inner => insert? key value inner) header .header t with
    | some t => ofStatements? rest header t
    | none => none
  | .header key :: rest, _, t =>
    match begin? key t with
    | some t => ofStatements? rest (key.path ++ [key.name]) t
    | none => none
  | .row key :: rest, _, t =>
    match addRow? key t with
    | some t => ofStatements? rest (key.path ++ [key.name]) t
    | none => none

/-- The table in braces with the given entries. -/
def ofEntries? : List (Key × Value) → Table → Option Table
  | [], t => some t
  | (key, value) :: rest, t =>
    match insert? key value t with
    | some t => ofEntries? rest t
    | none => none

end Table

end MediaCatalog.Toml
