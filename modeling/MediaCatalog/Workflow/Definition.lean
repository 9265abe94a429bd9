import MediaCatalog.Json.Basic

/-! Workflows: named steps, the steps that they need first, retries and time limits. -/

namespace MediaCatalog.Workflow

structure Step where
  name : String
  /-- Names of the steps that have to succeed first. -/
  dependencies : List String := []
  /-- Attempts after the first. -/
  retries : UInt32 := 0
  /-- Milliseconds that one attempt may take. -/
  timeout : Option Nat := none
  deriving DecidableEq, Repr

structure Definition where
  id : String
  description : String := ""
  /-- Runs that may be live at once. -/
  maxActiveRuns : UInt32 := 1
  tags : List String := []
  steps : List Step
  deriving DecidableEq, Repr

namespace Step

/-- How often the step is attempted at most; the count stays a word of 32 bits. -/
def maxAttempts (s : Step) : Nat :=
  min (s.retries.toNat + 1) (UInt32.size - 1)

/-- The time limit is written in whole seconds. -/
def json (s : Step) : Json :=
  .object [("name", .string s.name), ("dependencies", .array (s.dependencies.map .string)),
    ("retries", .ofNat s.retries.toNat),
    ("execution_timeout_seconds", .ofOption (fun t => .ofNat (t / 1000)) s.timeout)]

end Step

namespace Definition

def names (d : Definition) : List String :=
  d.steps.map Step.name

/-- The first step of a name. -/
def step? (name : String) (d : Definition) : Option Step :=
  d.steps.find? (·.name == name)

def json (d : Definition) : Json :=
  .object [("id", .string d.id), ("description", .string d.description),
    ("max_active_runs", .ofNat d.maxActiveRuns.toNat), ("tags", .array (d.tags.map .string)),
    ("steps", .array (d.steps.map Step.json))]

end Definition

end MediaCatalog.Workflow
