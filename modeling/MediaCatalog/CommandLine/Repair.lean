import MediaCatalog.CommandLine.Command
import MediaCatalog.CommandLine.Fault
import MediaCatalog.CommandLine.Report
import MediaCatalog.CommandLine.Settings
import MediaCatalog.Json.Printer

/-! The commands that show and run the repair of a table's tags. -/

namespace MediaCatalog.CommandLine

/-- The table of the arguments, else that of the settings. -/
def repairJob (table : Option String) (dryRun : Bool) (s : MaintenanceSettings) : RepairJob :=
  let builtIn : RepairJob := {}
  ⟨(table.or s.table).getD builtIn.table, dryRun⟩

/-! ### Showing the workflow -/

def stepText (s : Workflow.Step) : String :=
  let after :=
    if s.dependencies.isEmpty then "" else " (after " ++ ", ".intercalate s.dependencies ++ ")"
  let limit := match s.timeout with
    | some milliseconds => ", timeout " ++ Failure.secondsText milliseconds
    | none => ""
  s!"{s.name}{after}, retries {s.retries.toNat}{limit}"

def definitionText (d : Workflow.Definition) : String :=
  Report.line d.id ++ Report.line d.description ++
    Report.label "Max active runs" s!"{d.maxActiveRuns.toNat}" ++ Report.blank ++
    Report.line "Steps" ++ String.join (d.steps.map fun s => Report.item (stepText s))

def workflowText (payload : BatchedUpdate.Payload) : Format → String
  | .json =>
    Report.line (Json.object
      [("workflow", RepairJob.workflow.json), ("conf", payload.json)]).pretty
  | .text =>
    definitionText RepairJob.workflow ++ Report.blank ++ Report.line "Batched update payload" ++
      Report.line payload.json.pretty

def showWorkflow (job : RepairJob) (format : Format) : Except Fault String :=
  match job.payload with
  | .ok payload => .ok (workflowText payload format)
  | .error failure => .error (.failed failure)

/-! ### Running it -/

/-- Adds the login, if there is a user. -/
def withLogin (a : RepairArguments) (s : MaintenanceSettings) (t : BatchedUpdate.Trigger) :
    Except Fault BatchedUpdate.Trigger :=
  match a.user.or s.orchestratorUser, a.password with
  | none, _ => .ok t
  | some user, some password => .ok (t.withLogin user password)
  | some _, none => .error .missingPassword

/-- Sets the pause, if there is one. -/
def withPause (a : RepairArguments) (s : MaintenanceSettings) (t : BatchedUpdate.Trigger) :
    Except Fault BatchedUpdate.Trigger :=
  match a.pause.or s.pause with
  | none => .ok t
  | some seconds =>
    if seconds = 0 then .error .pauseTooShort else .ok (t.withPause (.ofSeconds seconds))

/-- How the orchestrator is asked for the update. -/
def repairTrigger (a : RepairArguments) (s : MaintenanceSettings) :
    Except Fault BatchedUpdate.Trigger :=
  match a.orchestratorUrl.or s.orchestratorUrl with
  | none => .error .missingOrchestrator
  | some url =>
    match BatchedUpdate.Trigger.ofUrl url with
    | .error failure => .error (.failed failure)
    | .ok t =>
      match withLogin a s t with
      | .error fault => .error fault
      | .ok t => withPause a s t

/-- What a command has printed, and why it failed if it did. -/
structure Printed where
  output : String := ""
  fault : Option Fault := none
  /-- The program was broken off. -/
  brokenOff : Bool := false
  statements : List String := []
  requests : List Http.Sent := []

def headingText (job : RepairJob) : String :=
  Report.line ("Running " ++ RepairJob.workflow.id) ++ Report.label "Table" job.table ++
    Report.label "Dry run" s!"{job.dryRun}"

def reportText (r : Workflow.Report) : String :=
  Report.blank ++ Report.line "Steps" ++ String.join (r.steps.map Report.stepLine)

/-- What is printed about a run, given its id. -/
def tracePrinted (job : RepairJob) (run : String) (trace : RepairJob.Trace) : Printed :=
  let printed (text : String) (fault : Option Fault) : Printed :=
    { output := headingText job ++ text
      fault
      brokenOff := trace.report.isNone
      statements := trace.statements
      requests := trace.requests }
  match trace.report with
  | some (.ok report) =>
    if report.succeeded then
      printed (reportText report ++ Report.success s!"Workflow run {run} succeeded") none
    else printed (reportText report) (some (.unsuccessful run))
  | some (.error failure) => printed "" (some (.failed failure))
  | none => printed "" none

/-- Runs the repair, if there is a database that can be reached and a table that can be repaired. -/
def repair (a : RepairArguments) (s : MaintenanceSettings) (catalog : RepairJob.Catalog)
    (server : Http.Server) (unique : String) (now : Nat) : Printed :=
  let job := repairJob a.table a.dryRun s
  match repairTrigger a s with
  | .error fault => { fault := some fault }
  | .ok trigger =>
    match catalog a.databaseUrl, job.payload with
    | .error fault, _ => { fault := some (.connection fault) }
    | .ok _, .error failure => { fault := some (.failed failure) }
    | .ok database, .ok _ => tracePrinted job unique (job.run database trigger server unique now)

end MediaCatalog.CommandLine
