import MediaCatalog.Yaml.Document

/-! Schema documents: the named schemas that an API publishes. -/

namespace MediaCatalog

/-- A schema document. The bytes are kept as they came. -/
structure SchemaDocument where
  raw : ByteArray
  /-- The schemas under `components.schemas`, in the order of the document. -/
  components : Json.Members

/-- Why a text is no schema document. -/
inductive DocumentFault where
  | notYaml
  | missingComponents
  deriving DecidableEq

def DocumentFault.message : DocumentFault → String
  | .notYaml => "schema document is not valid YAML"
  | .missingComponents => "schema document has no components.schemas mapping"

namespace SchemaDocument

/-- Reads a document; its named schemas have to form a mapping that can be written in JSON. -/
def ofYaml (bytes : ByteArray) : Except DocumentFault SchemaDocument :=
  match Yaml.Value.ofBytes? bytes with
  | none => .error .notYaml
  | some document =>
    match (document.get? "components").bind (·.get? "schemas") with
    | none => .error .missingComponents
    | some schemas =>
      if !schemas.isMapping then .error .missingComponents
      else
        match schemas.toJson? with
        | some (.object members) => .ok ⟨bytes, members⟩
        | _ => .error .missingComponents

def component? (name : String) (d : SchemaDocument) : Option Json :=
  Json.Members.get? name d.components

end SchemaDocument

end MediaCatalog
