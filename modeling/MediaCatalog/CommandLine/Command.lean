import MediaCatalog.CommandLine.Option
import MediaCatalog.Environment.Basic
import MediaCatalog.Schema.Language
import MediaCatalog.Text.Blank
import MediaCatalog.Text.Hex

/-! The commands, and how the words of a command line and the environment ask for them. -/

namespace MediaCatalog.CommandLine

inductive Format where
  | text
  | json
  deriving DecidableEq, Repr

structure GenerationArguments where
  apiUrl : Option String
  directory : Option String
  models : Option (List String)
  languages : List Language
  noSchema : Bool

structure RepairArguments where
  databaseUrl : String
  orchestratorUrl : Option String
  user : Option String
  password : Option String
  /-- Seconds between two questions for the state of a run. -/
  pause : Option UInt64
  table : Option String
  dryRun : Bool

inductive Command where
  | generate (arguments : GenerationArguments)
  | repair (arguments : RepairArguments)
  | showWorkflow (table : Option String) (dryRun : Bool) (format : Format)
  | previewTags (input : String) (format : Format)

/-! ### Options -/

/-- A number of 64 bits; a plus sign may stand in front. -/
def count? (text : String) : Option UInt64 :=
  let digits := match text.toList with
    | '+' :: rest => rest
    | chars => chars
  match digits with
  | [] => none
  | digits =>
    match Text.readDigits? 10 0 digits with
    | some n => if n < UInt64.size then some n.toUInt64 else none
    | none => none

def format? : String → Option Format
  | "text" => some .text
  | "json" => some .json
  | _ => none

/-- The options of every level. -/
def sharedRules : List OptionRule := [
  { name := "verbose", letter := some 'v' },
  { name := helpName, letter := some 'h' }]

def programRules : List OptionRule :=
  { name := versionName, letter := some 'V' } :: sharedRules

def formatRule : OptionRule :=
  { name := "format", arity := .one, allows := fun value => (format? value).isSome }

def tableRules : List OptionRule := [{ name := "table", arity := .one }, { name := "dry-run" }]

def generationRules : List OptionRule := sharedRules ++ [
  { name := "openverse-api-url", arity := .one },
  { name := "output-dir", arity := .one, allows := fun value => !value.isEmpty },
  { name := "models", arity := .many },
  { name := "language", arity := .many, allows := fun value => (Language.ofName value).isOk },
  { name := "no-schema" }]

def repairRules : List OptionRule := sharedRules ++ tableRules ++ [
  { name := "database-url", arity := .one },
  { name := "orchestrator-url", arity := .one },
  { name := "orchestrator-username", arity := .one },
  { name := "orchestrator-password", arity := .one },
  { name := "poll-interval", arity := .one, allows := fun value => (count? value).any (1 ≤ ·) }]

/-! ### Commands -/

/-- An option, else the setting of the environment that stands in for it. -/
def settingOf (e : Environment) (g : Given) (option setting : String) : Option String :=
  (g.value? option).or (e.get? setting)

def generationArguments (e : Environment) (g : Given) : GenerationArguments where
  apiUrl := settingOf e g "openverse-api-url" "OPENVERSE_API_URL"
  directory := g.value? "output-dir"
  models :=
    if g.has "models" then
      some ((g.values "models").flatMap fun list =>
        (Text.splitAt ',' list.toList).map String.ofList)
    else none
  languages := (g.values "language").filterMap fun name => (Language.ofName name).toOption
  noSchema := g.has "no-schema"

/-- A repair needs a database. -/
def repairArguments? (e : Environment) (g : Given) : Option RepairArguments :=
  (settingOf e g "database-url" "DATABASE_URL").map fun databaseUrl =>
    { databaseUrl
      orchestratorUrl := settingOf e g "orchestrator-url" "OPENVERSE_ORCHESTRATOR_URL"
      user := settingOf e g "orchestrator-username" "OPENVERSE_ORCHESTRATOR_USERNAME"
      password := settingOf e g "orchestrator-password" "OPENVERSE_ORCHESTRATOR_PASSWORD"
      pause := (g.value? "poll-interval").bind count?
      table := g.value? "table"
      dryRun := g.has "dry-run" }

def formatOf (g : Given) : Format :=
  ((g.value? "format").bind format?).getD .text

/-- Reads the words of a command that takes so many operands. -/
def takeCommand (rules : List OptionRule) (operands : Nat) (words : List String) : Wish Given :=
  (takeWords (.command operands) rules words {}).bind fun (g, _) =>
    if g.operands.length = operands then .granted g else .misuse

def generateCommand (e : Environment) (words : List String) : Wish Command :=
  (takeCommand generationRules 0 words).bind fun g => .granted (.generate (generationArguments e g))

def repairCommand (e : Environment) (words : List String) : Wish Command :=
  (takeCommand repairRules 0 words).bind fun g =>
    Wish.ofOption ((repairArguments? e g).map .repair)

def showCommand (words : List String) : Wish Command :=
  (takeCommand (formatRule :: sharedRules ++ tableRules) 0 words).bind fun g =>
    .granted (.showWorkflow (g.value? "table") (g.has "dry-run") (formatOf g))

def previewCommand (words : List String) : Wish Command :=
  (takeCommand (formatRule :: sharedRules) 1 words).bind fun g =>
    match g.operands with
    | [input] => .granted (.previewTags input (formatOf g))
    | _ => .misuse

/-! ### Groups -/

/-- Whether help can be asked for a command by its names. -/
def isHelpTopic : List String → Bool
  | [] | ["help"] | ["generate"] | ["maintenance"] => true
  | ["maintenance", name] =>
    name ∈ ["decode-image-tags", "show-workflow", "preview-tags", "help"]
  | _ => false

/-- Help for a topic. -/
def helpOn {α : Type} (topic : List String) : Wish α :=
  if isHelpTopic topic then .help else .misuse

/-- Reads the words of a group up to the name of a command, and goes on with that. -/
def takeGroup {α : Type} (rules : List OptionRule) (go : String → List String → Wish α)
    (words : List String) : Wish α :=
  (takeWords .group rules words {}).bind fun
    | (_, some (name, rest)) => go name rest
    | (_, none) => .misuse

def maintenanceCommand (e : Environment) : List String → Wish Command :=
  takeGroup sharedRules fun
    | "decode-image-tags", rest => repairCommand e rest
    | "show-workflow", rest => showCommand rest
    | "preview-tags", rest => previewCommand rest
    | "help", rest => helpOn ("maintenance" :: rest)
    | _, _ => .misuse

/-- What a command line asks for. -/
def Command.ofWords (e : Environment) : List String → Wish Command :=
  takeGroup programRules fun
    | "generate", rest => generateCommand e rest
    | "maintenance", rest => maintenanceCommand e rest
    | "help", rest => helpOn rest
    | _, _ => .misuse

end MediaCatalog.CommandLine
