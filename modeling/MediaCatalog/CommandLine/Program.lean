import MediaCatalog.CommandLine.Generate
import MediaCatalog.CommandLine.PreviewTags
import MediaCatalog.CommandLine.Repair
import MediaCatalog.Environment.File

/-! The program: from the words of the command line to what it prints and the code it ends with. -/

namespace MediaCatalog.CommandLine

/-- What the program is started with, and what answers its requests. -/
structure World where
  words : List String
  environment : Environment := []
  folder : Folder := {}
  input : ByteArray := ByteArray.empty
  server : Http.Server
  catalog : RepairJob.Catalog
  /-- An id that no other run has. -/
  unique : String
  /-- What the clock shows when the orchestrator is first asked, in milliseconds. -/
  now : Nat := 0

structure Result where
  /--
  0 for success, 1 for a command that failed, 2 for words that are no command line, 134 for a program
  that was broken off.
  -/
  code : Nat
  output : String := ""
  /-- What is printed as an error. -/
  error : Option String := none
  folder : Folder
  requests : List Http.Sent := []
  statements : List String := []

namespace World

/-- The file that sets what the environment lacks. -/
def environmentFile : String := ".env"

def fullEnvironment (w : World) : Environment :=
  match w.folder.read environmentFile with
  | .ok contents => w.environment.offerFile contents
  | .error _ => w.environment

def versionText : String := "openverse-ctl 0.1.0\n"

/-- What a command ends with. -/
def ended (folder : Folder) (p : Printed) : Result where
  code := if p.brokenOff then 134 else if p.fault.isSome then 1 else 0
  output := p.output
  error := p.fault.map fun fault => Report.complaint fault.message
  folder := folder
  requests := p.requests
  statements := p.statements

def printed : Except Fault String → Printed
  | .ok text => { output := text }
  | .error fault => { fault := some fault }

def runCommand (w : World) (settings : Settings) : Command → Result
  | .generate a =>
    let (c, folder, result) :=
      generate (generationConfig a settings.generation) w.server w.folder
    ended folder { printed result with requests := c.sent }
  | .repair a =>
    ended w.folder
      (repair a settings.maintenance w.catalog w.server w.unique w.now)
  | .showWorkflow table dryRun format =>
    ended w.folder (printed (showWorkflow (repairJob table dryRun settings.maintenance) format))
  | .previewTags path format =>
    ended w.folder (printed (previewTags path format w.input w.folder))

def run (w : World) : Result :=
  let e := w.fullEnvironment
  match Command.ofWords e w.words with
  | .help => { code := 0, folder := w.folder }
  | .version => { code := 0, output := versionText, folder := w.folder }
  | .misuse => { code := 2, folder := w.folder }
  | .granted command => w.runCommand (Settings.load (e.get? "HOME") w.folder) command

end World

end MediaCatalog.CommandLine
