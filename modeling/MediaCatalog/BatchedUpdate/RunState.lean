import MediaCatalog.Json.Selection

/-! How far a run of the orchestrator has come. -/

namespace MediaCatalog.BatchedUpdate

inductive RunState where
  | queued
  | running
  | success
  | failed
  /-- Any state that is not listed here. -/
  | unknown
  deriving DecidableEq, Repr

namespace RunState

def name : RunState → String
  | .queued => "queued"
  | .running => "running"
  | .success => "success"
  | .failed => "failed"
  | .unknown => "unknown"

def ofName : String → RunState
  | "queued" => .queued
  | "running" => .running
  | "success" => .success
  | "failed" => .failed
  | _ => .unknown

/-- A run in such a state has ended. -/
def isTerminal : RunState → Bool
  | .success | .failed => true
  | .queued | .running | .unknown => false

theorem ne_of_isTerminal_eq_false {s : RunState} (h : s.isTerminal = false) :
    s ≠ .success ∧ s ≠ .failed := by
  constructor <;> rintro rfl <;> cases h

/-- A name, alone or as the only member of an object with nothing under it. -/
def ofJson? : Json → Option RunState
  | .string name => some (ofName name)
  | .object [(name, .null)] => some (ofName name)
  | _ => none

def parse? (text : String) : Option RunState :=
  (Json.read text.toList).toOption.bind ofJson?

theorem ofName_name (s : RunState) : ofName s.name = s := by
  cases s <;> rfl

end RunState

/-- What the orchestrator tells about a run. -/
structure RunStatus where
  run : String
  state : RunState
  deriving DecidableEq, Repr

namespace RunStatus

def ofMembers? (members : Json.Members) : Option RunStatus := do
  let run ← (← (← members.once? "dag_run_id")).string?
  let state ← RunState.ofJson? (← (← members.once? "state"))
  return ⟨run, state⟩

/-- An object that may have other members, or the two values alone. -/
def ofJson? : Json → Option RunStatus
  | .object members => ofMembers? members
  | .array [.string run, state] => (RunState.ofJson? state).map (⟨run, ·⟩)
  | _ => none

def keys : List String :=
  ["dag_run_id", "state"]

def ofBody? (body : ByteArray) : Option RunStatus :=
  (Json.readBytesFor? keys body).bind ofJson?

def json (s : RunStatus) : Json :=
  .object [("dag_run_id", .string s.run), ("state", .string s.state.name)]

end RunStatus

end MediaCatalog.BatchedUpdate
