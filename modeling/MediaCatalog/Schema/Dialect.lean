import MediaCatalog.Schema.Language
import MediaCatalog.Schema.Registry

/-! How each language spells a type. -/

namespace MediaCatalog

/-- What stands before and after the arguments of a type. -/
structure Brackets where
  opening : String
  closing : String

def Brackets.around (b : Brackets) (text : String) : String :=
  b.opening ++ text ++ b.closing

/-- The spellings of one language. -/
structure Dialect where
  language : Language
  null : String
  boolean : String
  string : String
  integer : String
  number : String
  bytes : String
  any : String
  untypedList : String
  list : Brackets
  emptyTuple : String
  tuple : Brackets
  untypedMap : String
  map : Brackets
  /-- Whether a field that may be missing is null then. -/
  missingIsNull : Bool

/-- The sign between alternatives, in every language. -/
def Dialect.alternativeSign : String := " | "

def Dialect.python : Dialect where
  language := .python
  null := "None"
  boolean := "bool"
  string := "str"
  integer := "int"
  number := "float"
  bytes := "bytes"
  any := "Any"
  untypedList := "list[Any]"
  list := ⟨"list[", "]"⟩
  emptyTuple := "tuple[Any, ...]"
  tuple := ⟨"tuple[", "]"⟩
  untypedMap := "dict[str, Any]"
  map := ⟨"dict[str, ", "]"⟩
  missingIsNull := true

def Dialect.typeScript : Dialect where
  language := .typeScript
  null := "null"
  boolean := "boolean"
  string := "string"
  integer := "number"
  number := "number"
  bytes := "ReadableStream"
  any := "unknown"
  untypedList := "readonly unknown[]"
  list := ⟨"Array<", ">"⟩
  emptyTuple := "readonly unknown[]"
  tuple := ⟨"readonly [", "]"⟩
  untypedMap := "Record<string, unknown>"
  map := ⟨"Record<string, ", ">"⟩
  missingIsNull := false

def Language.dialect : Language → Dialect
  | .python => .python
  | .typeScript => .typeScript

/-- A type without a spelling: a model that is not registered, or no alternatives at all. -/
structure Unspellable where
  value : String
  language : Language
  deriving DecidableEq

def Unspellable.message (u : Unspellable) : String :=
  s!"cannot cast {u.value} to a {u.language.name} type"

namespace FieldType

mutual

/--
The spelling of a type. A registered model with the name of a built-in type comes before that
type, whatever its arguments.
-/
def spell (d : Dialect) (r : Registry) (t : FieldType) : Except Unspellable String :=
  match r.shadowing? t with
  | some m => .ok m.name
  | none =>
    match t with
    | .null => .ok d.null
    | .boolean => .ok d.boolean
    | .string => .ok d.string
    | .integer => .ok d.integer
    | .number => .ok d.number
    | .bytes => .ok d.bytes
    | .any => .ok d.any
    | .untypedList => .ok d.untypedList
    | .listOf element => (element.spell d r).map d.list.around
    | .tuple [] => .ok d.emptyTuple
    | .tuple (t :: rest) => (spellAll d r (t :: rest)).map (d.tuple.around <| ", ".intercalate ·)
    | .untypedMap => .ok d.untypedMap
    | .mapOf value => (value.spell d r).map d.map.around
    | .union [] => .error ⟨text (.union []), d.language⟩
    | .union (t :: rest) => (spellAll d r (t :: rest)).map Dialect.alternativeSign.intercalate
    | .model name =>
      match r.get? name with
      | some m => .ok m.name
      | none => .error ⟨name, d.language⟩

/-- The spellings of several types, up to the first without one. -/
def spellAll (d : Dialect) (r : Registry) : List FieldType → Except Unspellable (List String)
  | [] => .ok []
  | t :: rest =>
    match t.spell d r with
    | .error u => .error u
    | .ok s =>
      match spellAll d r rest with
      | .error u => .error u
      | .ok ss => .ok (s :: ss)

end

end FieldType

/-- Whether the annotation of a property has to admit null. -/
def Property.mayBeNull (d : Dialect) (p : Property) : Bool :=
  p.nullable || (d.missingIsNull && !p.required)

/-- The spelling of a property's type, with null as one more alternative where it needs it. -/
def Property.annotation (d : Dialect) (r : Registry) (p : Property) : Except Unspellable String :=
  match p.type.spell d r with
  | .error u => .error u
  | .ok base =>
    if p.mayBeNull d && !p.type.admitsNull then .ok (base ++ Dialect.alternativeSign ++ d.null)
    else .ok base

end MediaCatalog
