import MediaCatalog.RepairJob.Connection
import MediaCatalog.Schema.Generation
import MediaCatalog.Tag.Repair

/-! Why a command fails. The error line tells the causes one after the other. -/

namespace MediaCatalog.CommandLine

inductive Fault where
  | generation (apiUrl : String) (fault : GenerationFault)
  | missingOrchestrator
  | missingPassword
  | pauseTooShort
  | connection (fault : RepairJob.ConnectionFault)
  | failed (failure : Failure)
  /-- A run of the workflow has ended, but not all of its steps succeeded. -/
  | unsuccessful (run : String)
  | unreadableFile (path reason : String)
  | unreadableInput
  /-- The input is no JSON, or JSON of another shape. -/
  | notTags (reason : String)
  | undecodable (tag : Undecodable)

namespace Fault

/-- The causes behind a failure's own message. -/
def failureCauses : Failure → List String
  | .invalidUrl _ fault => [fault.message]
  | _ => []

def notTextReason : String := "stream did not contain valid UTF-8"

/-- The messages from the outer to the inner cause. -/
def chain : Fault → List String
  | .generation apiUrl fault =>
    s!"failed to generate models from {apiUrl}" :: fault.message :: fault.causes
  | .missingOrchestrator =>
    ["no orchestrator URL: pass --orchestrator-url, set OPENVERSE_ORCHESTRATOR_URL " ++
      "or add orchestrator-url to .openverse-ctl.toml"]
  | .missingPassword => ["an orchestrator username needs --orchestrator-password"]
  | .pauseTooShort => ["poll-interval-seconds must be at least 1"]
  | .connection fault =>
    ["failed to connect to the catalog database", fault.message, fault.reason]
  | .failed failure => failure.message :: failureCauses failure
  | .unsuccessful run => [s!"workflow run {run} did not succeed"]
  | .unreadableFile path reason => [s!"failed to read '{path}'", reason]
  | .unreadableInput => ["failed to read tags from stdin", notTextReason]
  | .notTags reason => ["expected a JSON tag list or a list of tag lists", reason]
  | .undecodable tag => [tag.message]

def message (f : Fault) : String :=
  ": ".intercalate f.chain

end Fault

end MediaCatalog.CommandLine
