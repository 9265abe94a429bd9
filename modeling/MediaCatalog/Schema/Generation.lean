import MediaCatalog.Http.Fetch
import MediaCatalog.Schema.Session

/-! Generating models files from the schema document of an API. -/

namespace MediaCatalog

structure GenerationConfig where
  apiUrl : String := "https://api.openverse.org"
  directory : String := "out"
  models : List String := ["Provider", "Tag", "AudioAltFile", "AudioSet", "Audio", "Image"]
  languages : List Language := Language.all
  /-- Whether a copy of the document is written beside the models. -/
  writeSchema : Bool := true

structure GenerationReport where
  schemaPath : Option String
  modelFiles : List String
  modelCount : Nat
  deriving DecidableEq

inductive GenerationFault where
  | invalidBaseUrl (url : String) (fault : Url.Fault)
  | fetch (fault : Http.Fault)
  | document (fault : DocumentFault)
  | build (fault : BuildFault)
  | write (fault : WriteFault)
  deriving DecidableEq

namespace GenerationFault

def message : GenerationFault → String
  | .invalidBaseUrl url fault => s!"invalid API base URL '{url}': {fault.message}"
  | .fetch fault => s!"schema fetch failed: {fault.message}"
  | .document fault => fault.message
  | .build fault => fault.message
  | .write fault => fault.message

/-- What lies behind the message, from the outer to the inner cause. -/
def causes : GenerationFault → List String
  | .invalidBaseUrl _ fault => [fault.message]
  | .fetch fault => fault.message :: fault.causes
  | .write (.file _ fault) => [fault.message]
  | .document _ | .build _ | .write (.unspellable _) => []

end GenerationFault

namespace Generation

/-- How the program names itself to an API. -/
def agent : String := "openverse-codegen/0.1.0"

/-- The name of the copy of the document. -/
def schemaFile : String := "schema.yaml"

/-- Where an API publishes its document. -/
def schemaUrl (url : String) : Except GenerationFault String :=
  match Url.base url with
  | .ok base => .ok (base ++ "/v1/schema/")
  | .error fault => .error (.invalidBaseUrl url fault)

/-- Writes the copy of the document, if there is to be one, and answers its path. -/
def writeSchema (config : GenerationConfig) (raw : ByteArray) (f : Folder) :
    Folder × Except WriteFault (Option String) :=
  if config.writeSchema then
    match Session.makeDirectory config.directory f with
    | .error fault => (f, .error fault)
    | .ok f =>
      let path := Path.join config.directory schemaFile
      match Session.writeFile path raw f with
      | .error fault => (f, .error fault)
      | .ok f => (f, .ok (some path))
  else (f, .ok none)

/-- Writes the files for a document that has been fetched. -/
def writeFiles (config : GenerationConfig) (raw : ByteArray) (f : Folder) :
    Folder × Except GenerationFault GenerationReport :=
  match SchemaDocument.ofYaml raw with
  | .error fault => (f, .error (.document fault))
  | .ok document =>
    match writeSchema config document.raw f with
    | (f, .error fault) => (f, .error (.write fault))
    | (f, .ok schemaPath) =>
      match Session.build document config.models {} with
      | (_, some fault) => (f, .error (.build fault))
      | (session, none) =>
        match session.write config.directory config.languages f with
        | (f, .error fault) => (f, .error (.write fault))
        | (f, .ok modelFiles) => (f, .ok ⟨schemaPath, modelFiles, session.models.length⟩)

/-- Fetches the document and writes the files. The answer also tells what was asked for. -/
def generate (config : GenerationConfig) (server : Http.Server) (f : Folder) :
    Http.Conversation × Folder × Except GenerationFault GenerationReport :=
  match schemaUrl config.apiUrl with
  | .error fault => ({}, f, .error fault)
  | .ok url =>
    match Http.fetch server agent url {} with
    | (c, .error fault) => (c, f, .error (.fetch fault))
    | (c, .ok raw) => (c, writeFiles config raw f)

end Generation

end MediaCatalog
