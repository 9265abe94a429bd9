import MediaCatalog.CommandLine.Command
import MediaCatalog.CommandLine.Fault
import MediaCatalog.CommandLine.Report
import MediaCatalog.CommandLine.Settings

/-! The command that generates models files. -/

namespace MediaCatalog.CommandLine

/-- Every language once, in the order of its first place. -/
def distinct (languages : List Language) : List Language :=
  languages.foldl (fun done language =>
    if language ∈ done then done else done ++ [language]) []

/-- Arguments come first, then the settings, then what is built in. Empty lists count as missing. -/
def generationConfig (a : GenerationArguments) (s : GenerationSettings) : GenerationConfig :=
  let builtIn : GenerationConfig := {}
  { apiUrl := (a.apiUrl.or s.apiUrl).getD builtIn.apiUrl
    directory := (a.directory.or s.directory).getD builtIn.directory
    models := ((a.models.or s.models).filter (!List.isEmpty ·)).getD builtIn.models
    languages := if a.languages.isEmpty then builtIn.languages else distinct a.languages
    writeSchema := !a.noSchema }

/-- What the command prints about the files that it has written. -/
def generationText (apiUrl : String) (r : GenerationReport) : String :=
  Report.success s!"Generated {r.modelCount} model(s) from {apiUrl}" ++
    String.join ((r.schemaPath.toList ++ r.modelFiles).map Report.item)

def generate (config : GenerationConfig) (server : Http.Server) (f : Folder) :
    Http.Conversation × Folder × Except Fault String :=
  match Generation.generate config server f with
  | (c, f, .ok report) => (c, f, .ok (generationText config.apiUrl report))
  | (c, f, .error fault) => (c, f, .error (.generation config.apiUrl fault))

end MediaCatalog.CommandLine
