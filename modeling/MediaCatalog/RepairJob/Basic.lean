import MediaCatalog.BatchedUpdate.Payload
import MediaCatalog.RepairJob.Sql
import MediaCatalog.Workflow.Definition

/-! The job that repairs the tags of a table, and its workflow of two steps. -/

namespace MediaCatalog

structure RepairJob where
  table : String := "image"
  dryRun : Bool := false
  deriving DecidableEq, Repr

namespace RepairJob

def id : String := "decode_and_deduplicate_image_tags"

def installStep : String := "ensure_ov_unistr"

def triggerStep : String := "trigger_batched_update"

/-- Milliseconds that the batched update may take: five hours. -/
def triggerTimeout : Nat := 18000000

/-- Installs the database function, then has the rows updated in batches. -/
def workflow : Workflow.Definition where
  id := id
  description := "Decode unicode escape sequences in image tag names and drop tags " ++
    "duplicated by the decoding."
  maxActiveRuns := 1
  tags := ["database"]
  steps := [
    { name := installStep },
    { name := triggerStep, dependencies := [installStep], timeout := some triggerTimeout }]

def json (j : RepairJob) : Json :=
  .object [("table_name", .string j.table), ("dry_run", .bool j.dryRun)]

def payload (j : RepairJob) : Except Failure BatchedUpdate.Payload :=
  match checkTable j.table, selectQuery j.table, updateQuery j.table with
  | .ok table, .ok select, .ok update => .ok ⟨id, table, select, update, j.dryRun⟩
  | .error failure, _, _ => .error failure
  | _, .error failure, _ => .error failure
  | _, _, .error failure => .error failure

end RepairJob

end MediaCatalog
