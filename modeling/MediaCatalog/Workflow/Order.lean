import MediaCatalog.Workflow.Failure
import MediaCatalog.Workflow.Validation

/-! The order in which steps are executed: what a step needs comes first, ties as declared. -/

namespace MediaCatalog.Workflow.Definition

/-- Whether a step can come next after the placed ones. -/
def isReady (placed : List Step) (s : Step) : Bool :=
  let names := placed.map Step.name
  !names.contains s.name && s.dependencies.all names.contains

/-- Places so many more steps, always the first that is ready; none if no step is ready. -/
def place (d : Definition) : (count : Nat) → (placed : List Step) → Option (List Step)
  | 0, placed => some placed
  | count + 1, placed =>
    match d.steps.find? (isReady placed) with
    | some s => d.place count (placed ++ [s])
    | none => none

def executionOrder (d : Definition) : Except Failure (List Step) :=
  if d.isValid then
    match d.place d.steps.length [] with
    | some order => .ok order
    | none => .error (.invalidWorkflow d.id ["no step is ready to run"])
  else .error (.invalidWorkflow d.id d.errorMessages)

end MediaCatalog.Workflow.Definition
