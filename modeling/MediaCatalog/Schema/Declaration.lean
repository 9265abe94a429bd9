import MediaCatalog.Schema.Dialect

/-! Model declarations: all that a models file says, before it is laid out. -/

namespace MediaCatalog

/-- A field with its annotation. Its comment is one line, empty for none. -/
structure FieldDeclaration where
  name : String
  annotation : String
  comment : String
  required : Bool

/-- A model whose types are all spelled. Its comment is one line, empty for none. -/
structure Declaration where
  name : String
  comment : String
  fields : List FieldDeclaration

namespace FieldDeclaration

def ofProperty (d : Dialect) (r : Registry) (p : Property) : Except Unspellable FieldDeclaration :=
  match p.annotation d r with
  | .ok annotation => .ok ⟨p.name, annotation, Text.oneLine p.description, p.required⟩
  | .error u => .error u

/-- Several fields, up to the first without an annotation. -/
def ofProperties (d : Dialect) (r : Registry) :
    List Property → Except Unspellable (List FieldDeclaration)
  | [] => .ok []
  | p :: rest =>
    match ofProperty d r p with
    | .error u => .error u
    | .ok field =>
      match ofProperties d r rest with
      | .error u => .error u
      | .ok fields => .ok (field :: fields)

end FieldDeclaration

namespace Declaration

/-- A model's declaration, its fields in rendering order. -/
def ofModel (d : Dialect) (r : Registry) (m : Model) : Except Unspellable Declaration :=
  match FieldDeclaration.ofProperties d r m.renderingOrder with
  | .ok fields => .ok ⟨m.name, Text.oneLine m.description, fields⟩
  | .error u => .error u

/-- Several declarations, up to the first with a type that has no spelling. -/
def ofModels (d : Dialect) (r : Registry) : List Model → Except Unspellable (List Declaration)
  | [] => .ok []
  | m :: rest =>
    match ofModel d r m with
    | .error u => .error u
    | .ok declaration =>
      match ofModels d r rest with
      | .error u => .error u
      | .ok declarations => .ok (declaration :: declarations)

end Declaration

end MediaCatalog
