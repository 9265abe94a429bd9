import MediaCatalog.Url.Fault
import MediaCatalog.Text.Hex

/-! Why a workflow, one of its steps or a request of theirs fails. Times are in milliseconds. -/

namespace MediaCatalog

inductive Failure where
  | database (reason : String)
  | invalidTableName (name : String)
  | invalidWorkflow (workflow : String) (findings : List String)
  | missingHandler (step : String)
  | tooManyActiveRuns (workflow : String) (active : Nat)
  | stepTimeout (step : String) (limit : Nat)
  | step (name reason : String)
  | invalidUrl (url : String) (fault : Url.Fault)
  | orchestrator (reason : String)
  | orchestratorResponse (status : Nat) (body : String)
  | batchedUpdateFailed (run state : String)
  | batchedUpdateTimeout (run : String) (limit : Nat)
  | undecodableTag (name reason : String)
  deriving DecidableEq, Repr

namespace Failure

/-- Whole seconds; what is left of the last one is dropped. -/
def secondsText (milliseconds : Nat) : String :=
  String.ofList (Text.decimalNumber (milliseconds / 1000)) ++ "s"

def message : Failure → String
  | .database reason => s!"database error: {reason}"
  | .invalidTableName name => s!"invalid table name '{name}'"
  | .invalidWorkflow workflow findings =>
    s!"workflow '{workflow}' is invalid: " ++ "; ".intercalate findings
  | .missingHandler name => s!"no handler registered for step '{name}'"
  | .tooManyActiveRuns workflow active =>
    s!"workflow '{workflow}' already has {active} active run(s)"
  | .stepTimeout name limit => s!"step '{name}' timed out after {secondsText limit}"
  | .step name reason => s!"step '{name}' failed: {reason}"
  | .invalidUrl url fault => s!"invalid orchestrator URL '{url}': {fault.message}"
  | .orchestrator reason => s!"orchestrator request failed: {reason}"
  | .orchestratorResponse status body => s!"orchestrator returned HTTP {status}: {body}"
  | .batchedUpdateFailed run state => s!"batched update run '{run}' finished in state '{state}'"
  | .batchedUpdateTimeout run limit =>
    s!"batched update run '{run}' did not finish within {secondsText limit}"
  | .undecodableTag name reason => s!"cannot decode tag name '{name}': {reason}"

/-- A failure that a step's time limit brings, its own or that of a step inside it. -/
def isTimeout : Failure → Bool
  | .stepTimeout _ _ => true
  | _ => false

end Failure

end MediaCatalog
