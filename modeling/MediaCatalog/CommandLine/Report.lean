import MediaCatalog.Text.Visible
import MediaCatalog.Workflow.Run

/-! The lines that commands print. What they are told is printed without commands for a terminal. -/

namespace MediaCatalog.CommandLine.Report

def line (text : String) : String :=
  Text.visible text ++ "\n"

def success (text : String) : String :=
  "✓ " ++ line text

def warning (text : String) : String :=
  "! " ++ line text

def complaint (text : String) : String :=
  "✗ " ++ line text

def label (name value : String) : String :=
  "  " ++ name ++ ": " ++ line value

def item (text : String) : String :=
  "  • " ++ line text

def blank : String := "\n"

/-- The sign of a step's status. -/
def sign : Workflow.Status → String
  | .succeeded => "✓"
  | .blocked => "-"
  | .failed | .timedOut => "✗"

def stepLine (o : Workflow.Outcome) : String :=
  let told := s!"{o.step} ({o.attempts} attempt(s))"
  let text := match o.error with
    | some error => told ++ ": " ++ error
    | none => told
  "  " ++ sign o.status ++ " " ++ line text

end MediaCatalog.CommandLine.Report
