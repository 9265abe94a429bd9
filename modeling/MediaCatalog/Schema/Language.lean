/-! The languages that models are written in. -/

namespace MediaCatalog

inductive Language where
  | python
  | typeScript
  deriving DecidableEq

/-- A name that no language has, in lower case. -/
structure UnsupportedLanguage where
  name : String
  deriving DecidableEq

def UnsupportedLanguage.message (u : UnsupportedLanguage) : String :=
  s!"unsupported language '{u.name}'. Supported: python, typescript"

namespace Language

def all : List Language := [.python, .typeScript]

def name : Language → String
  | .python => "python"
  | .typeScript => "typescript"

/-- The extension of a models file. -/
def extension : Language → String
  | .python => "py"
  | .typeScript => "ts"

/-- Letters of a language's name are read in either case, those of ASCII alone. -/
def ofName (text : String) : Except UnsupportedLanguage Language :=
  let name := text.map Char.toLower
  if name = "python" ∨ name = "py" then .ok .python
  else if name = "typescript" ∨ name = "ts" then .ok .typeScript
  else .error ⟨name⟩

/-- Reads several names, up to the first that is not a language's. -/
def ofNames : List String → Except UnsupportedLanguage (List Language)
  | [] => .ok []
  | text :: rest =>
    match ofName text with
    | .error u => .error u
    | .ok language =>
      match ofNames rest with
      | .error u => .error u
      | .ok languages => .ok (language :: languages)

end Language

end MediaCatalog
