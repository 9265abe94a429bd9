import MediaCatalog.Schema.Declaration
import MediaCatalog.Text.Lines

/-! The layout of the models files: Python dataclasses and TypeScript interfaces. -/

namespace MediaCatalog

namespace PythonFile

def header : List String :=
  ["\"\"\"",
   "Openverse API models.",
   "",
   "Generated by `openverse-ctl generate` from the Openverse API schema. Do not edit.",
   "\"\"\"",
   "",
   "from __future__ import annotations",
   "",
   "from dataclasses import dataclass",
   "from typing import Any"]

/-- The text between the quotes of a docstring: a backslash and a quote get a backslash. -/
def docstringBody : List Char → List Char
  | [] => []
  | c :: rest =>
    if c = '\\' ∨ c = '"' then '\\' :: c :: docstringBody rest else c :: docstringBody rest

def docstring (text : String) : String :=
  "\"\"\"" ++ String.ofList (docstringBody text.toList) ++ "\"\"\""

def fieldLines (f : FieldDeclaration) : List String :=
  (if f.comment.isEmpty then [] else ["    # " ++ f.comment]) ++
    ["    " ++ f.name ++ ": " ++ f.annotation ++ (if f.required then "" else " = None")]

/-- Two blank lines stand before every class. -/
def classLines (m : Declaration) : List String :=
  ["", "", "@dataclass", "class " ++ m.name ++ ":"] ++
    (if m.comment.isEmpty then [] else ["    " ++ docstring m.comment]) ++
    m.fields.flatMap fieldLines ++
    (if m.fields.isEmpty then ["    pass"] else [])

def text (models : List Declaration) : String :=
  Text.ofLines (header ++ models.flatMap classLines)

end PythonFile

namespace TypeScriptFile

def header : List String :=
  ["/**",
   " * Openverse API models.",
   " *",
   " * Generated by `openverse-ctl generate` from the Openverse API schema. Do not edit.",
   " */"]

/-- The text of a comment: a backslash parts a star from a slash that would end it. -/
def commentBody : List Char → List Char
  | '*' :: '/' :: rest => '*' :: '\\' :: '/' :: commentBody rest
  | c :: rest => c :: commentBody rest
  | [] => []

def comment (text : String) : String :=
  "/** " ++ String.ofList (commentBody text.toList) ++ " */"

def fieldLines (f : FieldDeclaration) : List String :=
  (if f.comment.isEmpty then [] else ["  " ++ comment f.comment]) ++
    ["  " ++ f.name ++ (if f.required then "" else "?") ++ ": " ++ f.annotation]

/-- A blank line stands before every interface. -/
def interfaceLines (m : Declaration) : List String :=
  [""] ++ (if m.comment.isEmpty then [] else [comment m.comment]) ++
    ["export interface " ++ m.name ++ " \x7b"] ++ m.fields.flatMap fieldLines ++ ["\x7d"]

def text (models : List Declaration) : String :=
  Text.ofLines (header ++ models.flatMap interfaceLines)

end TypeScriptFile

namespace ModelsFile

def name (language : Language) : String :=
  "models." ++ language.extension

/-- The models file of a language, the models in the given order. -/
def render (language : Language) (r : Registry) (models : List Model) :
    Except Unspellable String :=
  match Declaration.ofModels language.dialect r models with
  | .error u => .error u
  | .ok declarations =>
    match language with
    | .python => .ok (PythonFile.text declarations)
    | .typeScript => .ok (TypeScriptFile.text declarations)

end ModelsFile

end MediaCatalog
