import MediaCatalog.CommandLine.Program

/-!
The program itself: it gathers what a run needs from the machine, runs, and prints. The machine is
taken to have no network.
-/

open MediaCatalog MediaCatalog.CommandLine

/-- The settings of the environment that have a meaning of their own. -/
def settingNames : List String := [
  "HOME", "OPENVERSE_API_URL", "DATABASE_URL", "OPENVERSE_ORCHESTRATOR_URL",
  "OPENVERSE_ORCHESTRATOR_USERNAME", "OPENVERSE_ORCHESTRATOR_PASSWORD"]

/-- Names that a file may set or refer to. -/
def namesIn (contents : ByteArray) : List String :=
  match String.fromUTF8? contents with
  | some text => ((text.map fun c => if c.isAlphanum || c == '_' || c == '.' then c else ' ').splitOn
      " ").filter (!String.isEmpty ·)
  | none => []

/-- Adds the file that a path names, if there is one. -/
def gather (f : Folder) (path : String) : IO Folder := do
  try
    let contents ← IO.FS.readBinFile path
    return { f with files := f.files ++ [(f.place path, contents)] }
  catch
    | .inappropriateType .. => return { f with directories := f.directories ++ [f.place path] }
    | _ => return f

def environmentOf (names : List String) : IO Environment := do
  let mut e : Environment := []
  for name in names do
    if let some value ← IO.getEnv name then
      e := e.offer name value
  return e

/-- Writes the files that a run has created or changed. -/
def save (before after : Folder) : IO Unit := do
  for (path, contents) in after.files do
    if before.file? path != some contents then
      IO.FS.createDirAll ("/" ++ "/".intercalate path.dropLast)
      IO.FS.writeBinFile ("/" ++ "/".intercalate path) contents

/-- All that is left on a stream. -/
partial def readAll (stream : IO.FS.Stream) (done : ByteArray) : IO ByteArray := do
  let more ← stream.read 65536
  if more.isEmpty then return done else readAll stream (done ++ more)

/-- A random id in five groups of hexadecimal digits. -/
def freshId : IO String := do
  let bytes ← IO.getRandomBytes 16
  let digits := bytes.data.toList.flatMap fun b => Text.hexDigits 2 b.toNat
  let group (start count : Nat) := String.ofList ((digits.drop start).take count)
  -- the first digit of the third group is the version, that of the fourth the variant
  return s!"{group 0 8}-{group 8 4}-7{group 12 3}-a{group 15 3}-{group 18 12}"

def main (words : List String) : IO UInt32 := do
  let current := Path.ofText (← IO.currentDir).toString
  let outer ← gather { current, directories := [current] } World.environmentFile
  let assigned := (outer.read World.environmentFile).toOption.getD ByteArray.empty
  let environment ← environmentOf (settingNames ++ namesIn assigned)
  let home := ((environment.offerFile assigned).get? "HOME").getD ""
  let folder ← ([Settings.fileName, Settings.homeFile home] ++ words).foldlM gather outer
  let input ← if words.any isStandardInput then readAll (← IO.getStdin) ByteArray.empty
    else pure ByteArray.empty
  let unique ← freshId
  let now ← IO.monoMsNow
  let result := World.run {
    words, environment, folder, input, server := .offline, catalog := .offline, unique, now }
  save folder result.folder
  IO.print result.output
  if let some text := result.error then
    IO.eprint text
  return result.code.toUInt32
