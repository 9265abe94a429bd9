import MediaCatalog.Schema.FieldType

/-! Models: the records that named schemas describe. -/

namespace MediaCatalog

/-- A field of a model. -/
structure Property where
  name : String
  description : String
  type : FieldType
  nullable : Bool
  required : Bool

/-- A record type. Its properties stand as in the schema. -/
structure Model where
  name : String
  description : String
  properties : List Property

/-- Why a schema describes no model. -/
inductive ModelFault where
  | notAnObject (model : String)
  | missingProperties (model : String)
  | untyped (u : Untyped)
  deriving DecidableEq

def ModelFault.message : ModelFault → String
  | .notAnObject model => s!"schema for model '{model}' must be a mapping"
  | .missingProperties model => s!"schema for model '{model}' has no properties"
  | .untyped u => s!"cannot resolve type of schema fragment: {u.fragment.text}"

namespace Model

def property? (name : String) (m : Model) : Option Property :=
  m.properties.find? (·.name == name)

/-- The properties as they are written: first those required, then the optional ones. -/
def renderingOrder (m : Model) : List Property :=
  m.properties.filter (·.required) ++ m.properties.filter (!·.required)

/-- The string under a key, empty if there is none. -/
def stringUnder (key : String) (schema : Json) : String :=
  ((schema.get? key).bind Json.string?).getD ""

/-- The strings in the list of required names; whatever else is there is skipped. -/
def requiredNames (schema : Json) : List String :=
  (((schema.get? "required").bind Json.array?).getD []).filterMap Json.string?

/-- The property that a member of `properties` describes. -/
def propertyOf (required : List String) (name : String) (schema : Json) :
    Except Untyped Property :=
  match FieldType.ofSchema schema with
  | .error u => .error u
  | .ok type =>
    .ok ⟨name, stringUnder "description" schema, type,
      ((schema.get? "nullable").bind Json.bool?).getD false, required.contains name⟩

/-- The properties of a schema, up to the first without a type. -/
def propertiesOf (required : List String) : Json.Members → Except Untyped (List Property)
  | [] => .ok []
  | (name, schema) :: rest =>
    match propertyOf required name schema with
    | .error u => .error u
    | .ok p =>
      match propertiesOf required rest with
      | .error u => .error u
      | .ok ps => .ok (p :: ps)

/-- The model that a schema describes under a name. -/
def ofSchema (name : String) : Json → Except ModelFault Model
  | .object members =>
    match Json.Members.get? "properties" members with
    | some (.object properties) =>
      match propertiesOf (requiredNames (.object members)) properties with
      | .ok ps => .ok ⟨name, stringUnder "description" (.object members), ps⟩
      | .error u => .error (.untyped u)
    | _ => .error (.missingProperties name)
  | _ => .error (.notAnObject name)

end Model

end MediaCatalog
