import MediaCatalog.Proofs.Schema.Spelling
import MediaCatalog.Schema.Session

/-!
# Rendering — a models file fails to come to be in all languages or in none

Types stand in a models file one after the other: models in their order, fields in rendering order.
The first that has no spelling decides (`firstOffender?`), and it is the same in every language.
-/

namespace MediaCatalog

namespace FieldType

theorem Spelt.bind {α β : Type} {d : Dialect} {first? more? : Option FieldType}
    {answer : Except Unspellable α} {next : α → Except Unspellable β}
    (h : Spelt d first? answer) (hnext : ∀ a, Spelt d more? (next a)) :
    Spelt d (first?.or more?) (answer.bind next) := by
  cases first? with
  | some part =>
    obtain rfl : answer = .error ⟨part.text, d.language⟩ := h
    rfl
  | none =>
    obtain ⟨a, rfl⟩ := h
    rw [Option.none_or]
    exact hnext a

end FieldType

open FieldType (Spelt)

/-! ## 1. Fields, models, files -/

theorem Model.renderingOrder_perm (m : Model) : m.renderingOrder.Perm m.properties :=
  List.filter_append_perm _ m.properties

theorem Model.mem_renderingOrder {m : Model} {p : Property} :
    p ∈ m.renderingOrder ↔ p ∈ m.properties :=
  m.renderingOrder_perm.mem_iff

/-- Of the types in several models, in the order in which they are written, the first that
offends. -/
def firstOffender? (r : Registry) (models : List Model) : Option FieldType :=
  (models.flatMap Model.renderingOrder).findSome? fun p => p.type.offender? r

theorem spelt_typed (d : Dialect) (r : Registry) (p : Property) :
    Spelt d (p.type.offender? r) (p.annotation d r) := by
  have heq : p.annotation d r = (p.type.spell d r).map fun base =>
      if p.mayBeNull d && !p.type.admitsNull then base ++ Dialect.alternativeSign ++ d.null
      else base := by
    rw [Property.annotation]
    cases p.type.spell d r with
    | error u => rfl
    | ok base => exact (apply_ite Except.ok _ _ _).symm
  rw [heq]
  exact (FieldType.spelt_spell d r p.type).map _

theorem spelt_ofProperty (d : Dialect) (r : Registry) (p : Property) :
    Spelt d (p.type.offender? r) (FieldDeclaration.ofProperty d r p) := by
  have heq : FieldDeclaration.ofProperty d r p = (p.annotation d r).map fun annotation =>
      ⟨p.name, annotation, Text.oneLine p.description, p.required⟩ := by
    rw [FieldDeclaration.ofProperty]
    cases p.annotation d r <;> rfl
  rw [heq]
  exact (spelt_typed d r p).map _

theorem spelt_ofProperties (d : Dialect) (r : Registry) (ps : List Property) :
    Spelt d (ps.findSome? fun p => p.type.offender? r) (FieldDeclaration.ofProperties d r ps) := by
  induction ps with
  | nil => exact ⟨[], rfl⟩
  | cons p rest ih =>
    have heq : FieldDeclaration.ofProperties d r (p :: rest) =
        (FieldDeclaration.ofProperty d r p).bind fun field =>
          (FieldDeclaration.ofProperties d r rest).map (field :: ·) := by
      rw [FieldDeclaration.ofProperties]
      cases FieldDeclaration.ofProperty d r p with
      | error u => rfl
      | ok field => cases FieldDeclaration.ofProperties d r rest <;> rfl
    rw [heq, ← List.singleton_append, List.findSome?_append, List.findSome?_singleton]
    exact (spelt_ofProperty d r p).bind fun field => ih.map _

theorem spelt_ofModel (d : Dialect) (r : Registry) (m : Model) :
    Spelt d (m.renderingOrder.findSome? fun p => p.type.offender? r)
      (Declaration.ofModel d r m) := by
  have heq : Declaration.ofModel d r m =
      (FieldDeclaration.ofProperties d r m.renderingOrder).map fun fields =>
        ⟨m.name, Text.oneLine m.description, fields⟩ := by
    rw [Declaration.ofModel]
    cases FieldDeclaration.ofProperties d r m.renderingOrder <;> rfl
  rw [heq]
  exact (spelt_ofProperties d r m.renderingOrder).map _

theorem spelt_ofModels (d : Dialect) (r : Registry) (models : List Model) :
    Spelt d (firstOffender? r models) (Declaration.ofModels d r models) := by
  induction models with
  | nil => exact ⟨[], rfl⟩
  | cons m rest ih =>
    have heq : Declaration.ofModels d r (m :: rest) =
        (Declaration.ofModel d r m).bind fun declaration =>
          (Declaration.ofModels d r rest).map (declaration :: ·) := by
      rw [Declaration.ofModels]
      cases Declaration.ofModel d r m with
      | error u => rfl
      | ok declaration => cases Declaration.ofModels d r rest <;> rfl
    rw [heq, firstOffender?, List.flatMap_cons, List.findSome?_append]
    exact (spelt_ofModel d r m).bind fun declaration => ih.map _

namespace Session

theorem spelt_render (language : Language) (s : Session) :
    Spelt language.dialect (firstOffender? s.registry s.models) (s.render language) := by
  have h := spelt_ofModels language.dialect s.registry s.models
  have heq : s.render language =
      (Declaration.ofModels language.dialect s.registry s.models).map fun declarations =>
        match language with
        | .python => PythonFile.text declarations
        | .typeScript => TypeScriptFile.text declarations := by
    rw [render, ModelsFile.render]
    cases Declaration.ofModels language.dialect s.registry s.models with
    | error u => rfl
    | ok declarations => cases language <;> rfl
  rw [heq]
  exact h.map _

theorem exists_render_iff {language : Language} {s : Session} :
    (∃ text, s.render language = .ok text) ↔ firstOffender? s.registry s.models = none :=
  (spelt_render language s).exists_ok_iff

/-- A session that one language renders is rendered by all. -/
theorem exists_render_of_render {language : Language} {s : Session} {text : String}
    (h : s.render language = .ok text) (other : Language) : ∃ text, s.render other = .ok text :=
  exists_render_iff.mpr (exists_render_iff.mp ⟨text, h⟩)

end Session

end MediaCatalog
