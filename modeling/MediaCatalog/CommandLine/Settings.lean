import MediaCatalog.Files.Folder
import MediaCatalog.Toml.Reader

/-!
The settings file: what the command line and the environment leave open. A file that cannot be read
as settings sets nothing.
-/

namespace MediaCatalog.CommandLine

structure GenerationSettings where
  apiUrl : Option String := none
  directory : Option String := none
  models : Option (List String) := none
  deriving DecidableEq, Repr

structure MaintenanceSettings where
  orchestratorUrl : Option String := none
  orchestratorUser : Option String := none
  /-- Seconds between two questions for the state of a run. -/
  pause : Option UInt64 := none
  table : Option String := none
  deriving DecidableEq, Repr

structure Settings where
  generation : GenerationSettings := {}
  maintenance : MaintenanceSettings := {}
  deriving DecidableEq, Repr

namespace Settings

/-! ### Values -/

def string? : Toml.Value → Option String
  | .string s => some s
  | _ => none

def strings? : Toml.Value → Option (List String)
  | .array items => items.mapM string?
  | _ => none

/-- A number of 64 bits. -/
def natural? : Toml.Value → Option UInt64
  | .integer (.ofNat n) => if n < UInt64.size then some n.toUInt64 else none
  | _ => none

/-- A value that may be missing. -/
def optional {α : Type} (read : Toml.Value → Option α) : Option Toml.Value → Option (Option α)
  | none => some none
  | some v => (read v).map some

/--
The values of a section under the given names. An array gives them in the order of the names, and a
date has none.
-/
def fields? (names : List String) : Toml.Value → Option (List (Option Toml.Value))
  | .table _ entries => some (names.map fun name => Toml.Table.get? name entries)
  | .array items =>
    if names.length ≤ items.length then some ((items.take names.length).map some) else none
  | .dateTime => some (names.map fun _ => none)
  | _ => none

/-! ### Sections -/

def generation? (value : Toml.Value) : Option GenerationSettings :=
  match fields? ["openverse-api-url", "output-dir", "models"] value with
  | some [apiUrl, directory, models] => do
    return ⟨← optional string? apiUrl, ← optional string? directory, ← optional strings? models⟩
  | _ => none

def maintenance? (value : Toml.Value) : Option MaintenanceSettings :=
  match fields? ["orchestrator-url", "orchestrator-username", "poll-interval-seconds", "table"]
    value with
  | some [url, user, pause, table] => do
    return ⟨← optional string? url, ← optional string? user, ← optional natural? pause,
      ← optional string? table⟩
  | _ => none

def ofTable? (t : Toml.Table) : Option Settings := do
  let generation ← optional generation? (t.get? "generate")
  let maintenance ← optional maintenance? (t.get? "maintenance")
  return ⟨generation.getD {}, maintenance.getD {}⟩

def parse (contents : ByteArray) : Settings :=
  (((String.fromUTF8? contents).bind Toml.Table.parse?).bind ofTable?).getD {}

/-! ### Files -/

/-- The settings file of a directory. -/
def fileName : String := ".openverse-ctl.toml"

/-- The settings file of a user. -/
def homeFile (home : String) : String :=
  Path.join (Path.join home ".config") "openverse-ctl.toml"

/-- The file of the current directory, else that of the user. -/
def load (home : Option String) (f : Folder) : Settings :=
  match f.read fileName with
  | .ok contents => parse contents
  | .error _ =>
    match home with
    | none => {}
    | some home =>
      match f.read (homeFile home) with
      | .ok contents => parse contents
      | .error _ => {}

end Settings

end MediaCatalog.CommandLine
