import MediaCatalog.Workflow.Definition

/-!
Checks on the steps of a workflow: there are some, their names differ, what they depend on exists,
and no step needs itself in the end.
-/

namespace MediaCatalog.Workflow

inductive Severity where
  | error
  | warning
  deriving DecidableEq, Repr

def Severity.name : Severity → String
  | .error => "error"
  | .warning => "warning"

inductive Finding where
  | noSteps (workflow : String)
  | zeroMaxActiveRuns (workflow : String)
  | duplicateName (step : String)
  | selfDependency (step : String)
  | missingDependency (step dependency : String)
  /-- Each name depends on the next; the last is the first again. -/
  | cycle (path : List String)
  deriving DecidableEq, Repr

namespace Finding

def code : Finding → String
  | .noSteps _ => "NO_STEPS"
  | .zeroMaxActiveRuns _ => "ZERO_MAX_ACTIVE_RUNS"
  | .duplicateName _ => "DUPLICATE_STEP_NAME"
  | .selfDependency _ => "SELF_DEPENDENCY"
  | .missingDependency _ _ => "MISSING_DEP_REF"
  | .cycle _ => "CYCLE_DETECTED"

def severity : Finding → Severity
  | .zeroMaxActiveRuns _ => .warning
  | _ => .error

def message : Finding → String
  | .noSteps workflow => s!"Workflow '{workflow}' has no steps"
  | .zeroMaxActiveRuns workflow => s!"Workflow '{workflow}' allows no active runs"
  | .duplicateName step => s!"Duplicate step name: '{step}'"
  | .selfDependency step => s!"Step '{step}' depends on itself"
  | .missingDependency step dependency =>
    s!"Step '{step}' depends on '{dependency}' which does not exist"
  | .cycle path => "Dependency cycle detected: " ++ " -> ".intercalate path

/-- The step that the finding is about. -/
def step? : Finding → Option String
  | .noSteps _ | .zeroMaxActiveRuns _ => none
  | .duplicateName step | .selfDependency step | .missingDependency step _ => some step
  | .cycle path => path.head?

def isError (f : Finding) : Bool :=
  f.severity == .error

end Finding

/-! ### Cycles -/

namespace Definition

/-- The dependencies of the last step of a name, the step itself left out. -/
def edges (d : Definition) (name : String) : List String :=
  match d.steps.reverse.find? (·.name == name) with
  | some s => s.dependencies.filter (· != name)
  | none => []

/-- Steps whose dependencies have all been followed, and the cycles met so far. -/
structure Search where
  done : List String := []
  cycles : List (List String) := []

/--
Follows the dependencies of the last step of a path. A dependency on the path closes a cycle; one
that is done leads nowhere new. A path has no name twice, so its length bounds the fuel.
-/
def follow (d : Definition) : (fuel : Nat) → (path : List String) → (name : String) →
    Search → Search
  | 0, _, _, s => s
  | fuel + 1, path, name, s =>
    let path := path ++ [name]
    let s := (d.edges name).foldl (fun s next =>
      if path.contains next then
        { s with cycles := s.cycles ++ [path.dropWhile (· != next) ++ [next]] }
      else if s.done.contains next || !d.names.contains next then s
      else d.follow fuel path next s) s
    { s with done := name :: s.done }

/-- The cycles met on a way through all steps. -/
def cycles (d : Definition) : List (List String) :=
  (d.names.foldl (fun (s : Search) name =>
    if s.done.contains name then s else d.follow d.steps.length [] name s) {}).cycles

/-! ### All checks -/

/-- A finding for every name that an earlier step has. -/
def duplicates : (seen : List String) → List String → List Finding
  | _, [] => []
  | seen, name :: rest =>
    if seen.contains name then .duplicateName name :: duplicates seen rest
    else duplicates (name :: seen) rest

def dependencyFindings (names : List String) (s : Step) : List Finding :=
  s.dependencies.filterMap fun dependency =>
    if dependency = s.name then some (.selfDependency s.name)
    else if names.contains dependency then none
    else some (.missingDependency s.name dependency)

def findings (d : Definition) : List Finding :=
  (if d.steps.isEmpty then [.noSteps d.id] else []) ++
    (if d.maxActiveRuns = 0 then [.zeroMaxActiveRuns d.id] else []) ++
    duplicates [] d.names ++ d.steps.flatMap (dependencyFindings d.names) ++
    d.cycles.map .cycle

def errorMessages (d : Definition) : List String :=
  (d.findings.filter Finding.isError).map Finding.message

def isValid (d : Definition) : Bool :=
  !d.findings.any Finding.isError

def hasCycles (d : Definition) : Bool :=
  !d.cycles.isEmpty

end Definition

end MediaCatalog.Workflow
