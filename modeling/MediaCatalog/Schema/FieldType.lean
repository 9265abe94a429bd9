import MediaCatalog.Json.Printer
import MediaCatalog.Text.Blank

/-! The types that a schema gives to fields, and which schemas give one. -/

namespace MediaCatalog

/-- The type of a field, in no language yet. Models are meant by name. -/
inductive FieldType where
  | null
  | boolean
  | string
  | integer
  | number
  | bytes
  | any
  | untypedList
  | listOf (element : FieldType)
  /-- No items stand for a sequence of unknown ones. -/
  | tuple (items : List FieldType)
  | untypedMap
  /-- The keys of a map are strings. -/
  | mapOf (value : FieldType)
  | union (members : List FieldType)
  | model (name : String)

instance : Inhabited FieldType := ⟨.any⟩

/-- A schema, or a part of one, that gives no type. -/
structure Untyped where
  fragment : Json
  deriving DecidableEq

namespace FieldType

/-- The name under which a model stands in for the built-in type. -/
def builtinName? : FieldType → Option String
  | .boolean => some "bool"
  | .string => some "str"
  | .integer => some "int"
  | .number => some "float"
  | .bytes => some "bytes"
  | .any => some "Any"
  | .untypedList | .listOf _ => some "list"
  | .tuple _ => some "tuple"
  | .untypedMap | .mapOf _ => some "dict"
  | .null | .union _ | .model _ => none

mutual

/-- The text of a type in messages. -/
def text : FieldType → String
  | .null => "Null"
  | .boolean => "Boolean"
  | .string => "String"
  | .integer => "Integer"
  | .number => "Number"
  | .bytes => "Bytes"
  | .any => "Any"
  | .untypedList => "List<Any>"
  | .listOf element => "List<" ++ element.text ++ ">"
  | .tuple items => "Tuple<" ++ ", ".intercalate (texts items) ++ ">"
  | .untypedMap => "Map<Any>"
  | .mapOf value => "Map<" ++ value.text ++ ">"
  | .union members => " | ".intercalate (texts members)
  | .model name => name

def texts : List FieldType → List String
  | [] => []
  | t :: rest => t.text :: texts rest

end

mutual

/-- Whether null is among the alternatives of a type. -/
def admitsNull : FieldType → Bool
  | .null => true
  | .union members => anyAdmitsNull members
  | _ => false

def anyAdmitsNull : List FieldType → Bool
  | [] => false
  | t :: rest => t.admitsNull || anyAdmitsNull rest

end

/-- The model that a reference such as `#/components/schemas/Tag` names. -/
def referenceName (reference : String) : String :=
  Text.afterLastSlash reference

end FieldType

namespace Json.Members

theorem sizeOf_get? {key : String} {v : Json} :
    {members : Members} → get? key members = some v → sizeOf v < 1 + sizeOf members
  | [], h => by simp [get?] at h
  | (k, w) :: rest, h => by
    simp only [get?] at h
    split at h
    · cases h
      simp only [List.cons.sizeOf_spec, Prod.mk.sizeOf_spec]
      omega
    · have : sizeOf v < 1 + sizeOf rest := sizeOf_get? h
      simp only [List.cons.sizeOf_spec]
      omega

end Json.Members

namespace FieldType

mutual

/--
The type that a schema gives. Only a small subset of schemas gives one; of the fragments that do
not, the first is reported.
-/
def ofSchema : Json → Except Untyped FieldType
  | .object members =>
    let untyped : Untyped := ⟨.object members⟩
    match Json.Members.get? "type" members with
    | some (.string "boolean") => .ok .boolean
    | some (.string "string") =>
      if Json.Members.get? "format" members = some (.string "binary") then .ok .bytes
      else .ok .string
    | some (.string "integer") => .ok .integer
    | some (.string "number") => .ok .number
    | some (.string "array") =>
      match _h : Json.Members.get? "items" members with
      | none | some .null | some (.object []) => .ok .untypedList
      | some items => (ofSchema items).map .listOf
    | some (.string "object") =>
      match _h : Json.Members.get? "additionalProperties" members with
      | some (.bool true) | some (.object []) => .ok .untypedMap
      | some (.object (m :: rest)) => (ofSchema (.object (m :: rest))).map .mapOf
      | _ => .error untyped
    | some _ => .error untyped
    | none =>
      match Json.Members.get? "$ref" members with
      | some (.string reference) => .ok (.model (referenceName reference))
      | _ =>
        match _h : Json.Members.get? "allOf" members with
        | some (.array schemas) =>
          match ofSchemas schemas with
          | .error u => .error u
          | .ok [] => .error untyped
          | .ok [t] => .ok t
          | .ok types => .ok (.union types)
        | _ => .error untyped
  | schema => .error ⟨schema⟩
termination_by schema => sizeOf schema
decreasing_by
  all_goals
    have := Json.Members.sizeOf_get? ‹Json.Members.get? _ _ = some _›
    simp only [Json.object.sizeOf_spec, Json.array.sizeOf_spec] at *
    omega

/-- The types of several schemas, up to the first that gives none. -/
def ofSchemas : List Json → Except Untyped (List FieldType)
  | [] => .ok []
  | schema :: rest =>
    match ofSchema schema with
    | .error u => .error u
    | .ok t =>
      match ofSchemas rest with
      | .error u => .error u
      | .ok types => .ok (t :: types)
termination_by schemas => sizeOf schemas

end

end FieldType

end MediaCatalog
