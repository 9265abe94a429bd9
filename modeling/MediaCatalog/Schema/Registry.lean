import MediaCatalog.Schema.Model

/-! The models that references are resolved against. -/

namespace MediaCatalog

/-- Models by name, in the order in which the names first came. -/
structure Registry where
  models : List Model := []

namespace Registry

/-- Puts a model in the place of the one with its name, or at the end. -/
def put (m : Model) : List Model → List Model
  | [] => [m]
  | n :: rest => if n.name = m.name then m :: rest else n :: put m rest

/-- Registers a model; one with the same name gives way to it. -/
def register (m : Model) (r : Registry) : Registry :=
  ⟨put m r.models⟩

def get? (name : String) (r : Registry) : Option Model :=
  r.models.find? (·.name == name)

theorem name_of_get? {name : String} {r : Registry} {m : Model} (h : r.get? name = some m) :
    m.name = name := by
  simpa using List.find?_some h

def contains (name : String) (r : Registry) : Bool :=
  (r.get? name).isSome

/-- The model that a reference means. -/
def resolve? (reference : String) (r : Registry) : Option Model :=
  r.get? (FieldType.referenceName reference)

/-- The model that stands in for a built-in type. -/
def shadowing? (t : FieldType) (r : Registry) : Option Model :=
  t.builtinName?.bind r.get?

def size (r : Registry) : Nat :=
  r.models.length

end Registry

end MediaCatalog
