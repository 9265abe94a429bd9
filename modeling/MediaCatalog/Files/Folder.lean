import MediaCatalog.Text.Blank

/-!
Files and directories under one root. Links are left out: every place has one path, and a file that is
written is the file that the path names.
-/

namespace MediaCatalog

/-- Why a file or directory could not be reached. -/
inductive FileFault where
  | notFound
  | exists
  | notADirectory
  | isADirectory
  deriving DecidableEq

def FileFault.message : FileFault → String
  | .notFound => "No such file or directory (os error 2)"
  | .exists => "File exists (os error 17)"
  | .notADirectory => "Not a directory (os error 20)"
  | .isADirectory => "Is a directory (os error 21)"

/-- The names on the way from the root. -/
abbrev Path := List String

namespace Path

/-- Adds a name to a path given as a text. -/
def join (directory name : String) : String :=
  if name.startsWith "/" || directory.isEmpty then name
  else if directory.endsWith "/" then directory ++ name
  else directory ++ "/" ++ name

/-- Goes from a place to one of its names; two points go back. -/
def step (path : Path) (name : String) : Path :=
  if name = "" ∨ name = "." then path
  else if name = ".." then path.dropLast
  else path ++ [name]

/-- The names that slashes part. -/
def names (text : String) : List String :=
  (Text.splitAt '/' text.toList).map String.ofList

def isAbsolute (text : String) : Bool :=
  text.startsWith "/"

def ofText (text : String) : Path :=
  (names text).foldl step []

/-- The places on the way to a path, the root and the path itself left out. -/
def ancestors (path : Path) : List Path :=
  ((List.range path.length).drop 1).map path.take

end Path

/-- Files by path, and the directories that were made for themselves. -/
structure Folder where
  files : List (Path × ByteArray) := []
  directories : List Path := []
  /-- Where paths begin that do not begin at the root. -/
  current : Path := []

namespace Folder

/-- Where a path begins. -/
def origin (text : String) (f : Folder) : Path :=
  if Path.isAbsolute text then [] else f.current

/-- The place that a path names. -/
def place (text : String) (f : Folder) : Path :=
  (Path.names text).foldl Path.step (f.origin text)

def file? (path : Path) (f : Folder) : Option ByteArray :=
  f.files.lookup path

def isFile (path : Path) (f : Folder) : Bool :=
  (f.file? path).isSome

/-- The root is a directory, and so is every place on the way to a file or a directory. -/
def isDirectory (path : Path) (f : Folder) : Bool :=
  path.isEmpty || f.directories.any (path.isPrefixOf ·) ||
    f.files.any fun entry => path.length < entry.1.length && path.isPrefixOf entry.1

/-- Makes a directory and those on the way to it. -/
def makeDirectory (path : Path) (f : Folder) : Except FileFault Folder :=
  if path.ancestors.any f.isFile then .error .notADirectory
  else if f.isFile path then .error .exists
  else .ok { f with directories := f.directories ++ [path] }

/-- Puts a file in the place of the one at its path, or behind all others. -/
def put (path : Path) (contents : ByteArray) : List (Path × ByteArray) → List (Path × ByteArray)
  | [] => [(path, contents)]
  | (p, old) :: rest =>
    if p = path then (p, contents) :: rest else (p, old) :: put path contents rest

/-- Writes a file into a directory that is there. -/
def write (path : Path) (contents : ByteArray) (f : Folder) : Except FileFault Folder :=
  if path.ancestors.any f.isFile then .error .notADirectory
  else if f.isDirectory path then .error .isADirectory
  else if !f.isDirectory path.dropLast then .error .notFound
  else .ok { f with files := put path contents f.files }

/-- Follows names from a place; each has to be looked up in a directory. -/
def follow (f : Folder) : Path → List String → Except FileFault Path
  | here, [] => .ok here
  | here, name :: rest =>
    if f.isDirectory here then follow f (Path.step here name) rest
    else if f.isFile here then .error .notADirectory
    else .error .notFound

def read (text : String) (f : Folder) : Except FileFault ByteArray :=
  match f.follow (f.origin text) (Path.names text) with
  | .error fault => .error fault
  | .ok path =>
    match f.file? path with
    | some contents => .ok contents
    | none => .error (if f.isDirectory path then .isADirectory else .notFound)

end Folder

end MediaCatalog
