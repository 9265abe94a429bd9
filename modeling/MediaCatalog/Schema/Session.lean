import MediaCatalog.Files.Folder
import MediaCatalog.Schema.Document
import MediaCatalog.Schema.ModelsFile

/-! Sessions: models built from schema documents, and the files written for them. -/

namespace MediaCatalog

/-- The models of a session in the order of their first builds, and what references mean. -/
structure Session where
  registry : Registry := {}
  models : List Model := []

/-- Why a model could not be built. -/
inductive BuildFault where
  | missingComponent (name : String)
  | model (fault : ModelFault)
  deriving DecidableEq

def BuildFault.message : BuildFault → String
  | .missingComponent name => s!"component schema '{name}' not found in schema document"
  | .model fault => fault.message

/-- Why a models file could not be written. -/
inductive WriteFault where
  | unspellable (u : Unspellable)
  | file (path : String) (fault : FileFault)
  deriving DecidableEq

def WriteFault.message : WriteFault → String
  | .unspellable u => u.message
  | .file path fault => s!"failed to write '{path}': {fault.message}"

namespace Session

/-- Adds a model. One with a name that is there takes its place. -/
def add (m : Model) (s : Session) : Session :=
  ⟨s.registry.register m, Registry.put m s.models⟩

/-- The model that a document describes under a name. -/
def modelOf (document : SchemaDocument) (name : String) : Except BuildFault Model :=
  match document.component? name with
  | none => .error (.missingComponent name)
  | some schema =>
    match Model.ofSchema name schema with
    | .ok m => .ok m
    | .error fault => .error (.model fault)

/-- Builds models by name, up to the first that cannot be built; those before it stay. -/
def build (document : SchemaDocument) : List String → Session → Session × Option BuildFault
  | [], s => (s, none)
  | name :: rest, s =>
    match modelOf document name with
    | .ok m => build document rest (s.add m)
    | .error fault => (s, some fault)

/-- The models file of a language. -/
def render (language : Language) (s : Session) : Except Unspellable String :=
  ModelsFile.render language s.registry s.models

/-- Makes a directory, also those on the way to it. -/
def makeDirectory (directory : String) (f : Folder) : Except WriteFault Folder :=
  match f.makeDirectory (f.place directory) with
  | .ok f => .ok f
  | .error fault => .error (.file directory fault)

def writeFile (path : String) (contents : ByteArray) (f : Folder) : Except WriteFault Folder :=
  match f.write (f.place path) contents with
  | .ok f => .ok f
  | .error fault => .error (.file path fault)

/--
Writes one models file after the other. The folder in the answer holds what was written, also
before a fault.
-/
def writeAll (directory : String) (s : Session) :
    List Language → Folder → Folder × Except WriteFault (List String)
  | [], f => (f, .ok [])
  | language :: rest, f =>
    let path := Path.join directory (ModelsFile.name language)
    match s.render language with
    | .error u => (f, .error (.unspellable u))
    | .ok text =>
      match writeFile path text.toUTF8 f with
      | .error fault => (f, .error fault)
      | .ok f =>
        match writeAll directory s rest f with
        | (f, .ok paths) => (f, .ok (path :: paths))
        | (f, .error fault) => (f, .error fault)

/-- Writes the models files of several languages into a directory, and answers their paths. -/
def write (directory : String) (languages : List Language) (s : Session) (f : Folder) :
    Folder × Except WriteFault (List String) :=
  match makeDirectory directory f with
  | .error fault => (f, .error fault)
  | .ok f => writeAll directory s languages f

end Session

end MediaCatalog
