import MediaCatalog.BatchedUpdate.Trigger
import MediaCatalog.RepairJob.Basic
import MediaCatalog.Workflow.Runner

/-! A run of the repair job against a database and an orchestrator, and what it sends to both. -/

namespace MediaCatalog.RepairJob

/-- What a database makes of a statement, after so many milliseconds. -/
inductive Database where
  | done (delay : Nat)
  | refused (delay : Nat) (reason : String)
  /-- No connection came about, so nothing was sent. -/
  | unreachable (reason : String)
  deriving DecidableEq, Repr

/-- The statements that a database receives when it is asked to execute one. -/
def Database.received (statement : String) : Database → List String
  | .done _ | .refused _ _ => [statement]
  | .unreachable _ => []

/-- What a run sent, and its report, or why it could not start; none if it does not come to its end. -/
structure Trace where
  report : Option (Except Failure Workflow.Report)
  statements : List String
  requests : List Http.Sent

/-- Installs the function. -/
def installer (d : Database) : Workflow.Worker := fun _ =>
  match d with
  | .done delay => { length := delay, answer := .ok (.object [("function", .string decodeFunction)]) }
  | .refused delay reason => { length := delay, answer := .error (.database reason) }
  | .unreachable reason => { answer := .error (.database reason) }

/-- Has the rows updated, in so many milliseconds; without a result the work has no end of its own. -/
def updater (length : Nat) (result : Option (Except Failure BatchedUpdate.RunStatus)) :
    Workflow.Worker := fun _ =>
  match result with
  | some (.ok status) => { length, answer := .ok status.json }
  | some (.error failure) => { length, answer := .error failure }
  | none => { length := none, answer := .ok .null }

/--
Runs the workflow of a job. A run of the orchestrator gets an id that no other has. The clock shows
`now` when the rows are to be updated. If it cannot tell a moment that the update has to wait for, and
the step still has time, then the program breaks off and there is no report.
-/
def run (j : RepairJob) (database : Database) (trigger : BatchedUpdate.Trigger)
    (server : Http.Server) (unique : String) (now : Nat) : Trace :=
  match j.payload with
  | .error failure => ⟨some (.error failure), [], []⟩
  | .ok payload =>
    let (conversation, result) := trigger.startAndAwait server
      (BatchedUpdate.Trigger.runId payload unique) payload { clock := now }
    let plan : Workflow.Plan := ⟨workflow,
      [(installStep, installer database), (triggerStep, updater (conversation.clock - now) result)]⟩
    let (runner, poll) := Workflow.Runner.run plan {}
    let calls := runner.log.map Workflow.LogEntry.call
    let updates := calls.filter (·.step == triggerStep)
    let breaksOff := !updates.isEmpty && result.isNone &&
      conversation.clock ≤ now + triggerTimeout
    { report :=
        match poll with
        | .ended e => if breaksOff then none else some e.result
        | .pending | .unknown => none
      statements := (calls.filter (·.step == installStep)).flatMap fun _ =>
        database.received installStatement
      requests := updates.flatMap fun _ =>
        conversation.sent.filter (·.time ≤ now + triggerTimeout) }

end MediaCatalog.RepairJob
