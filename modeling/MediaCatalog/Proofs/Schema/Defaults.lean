import MediaCatalog.Proofs.Schema.Layout

/-!
# Defaults — behind a field with a default there is none without

Required fields are written first (`renderingOrder_eq_mergeSort`), and only optional ones are
written with a default, so that every class of a Python file may be a dataclass.
-/

namespace MediaCatalog

/-! ## 1. The order of the fields -/

namespace Property

/-- Required properties stand before optional ones. -/
def mayPrecede (p q : Property) : Bool :=
  p.required || !q.required

theorem mayPrecede_iff {p q : Property} :
    p.mayPrecede q = true ↔ (q.required = true → p.required = true) := by
  rw [mayPrecede, Bool.or_eq_true, Bool.not_eq_true', ← Bool.not_eq_true]
  tauto

theorem mayPrecede_trans (p q r : Property) (h : p.mayPrecede q = true)
    (h' : q.mayPrecede r = true) : p.mayPrecede r = true := by
  rw [mayPrecede_iff] at *
  exact h ∘ h'

theorem mayPrecede_total (p q : Property) : (p.mayPrecede q || q.mayPrecede p) = true := by
  rw [Bool.or_eq_true, mayPrecede_iff, mayPrecede_iff]
  tauto

theorem pairwise_mayPrecede_required (ps : List Property) :
    (ps.filter (·.required)).Pairwise fun p q => p.mayPrecede q = true := by
  refine List.pairwise_of_forall_mem_list fun p hp _ _ => ?_
  exact mayPrecede_iff.mpr fun _ => (List.mem_filter.mp hp).2

theorem pairwise_mayPrecede_optional (ps : List Property) :
    (ps.filter (!·.required)).Pairwise fun p q => p.mayPrecede q = true := by
  refine List.pairwise_of_forall_mem_list fun p _ q hq => ?_
  rw [mayPrecede, (List.mem_filter.mp hq).2, Bool.or_true]

/-- A list in order is its required properties and then its optional ones. -/
theorem eq_filter_append_filter {ps : List Property}
    (h : ps.Pairwise fun p q => p.mayPrecede q = true) :
    ps = ps.filter (·.required) ++ ps.filter (!·.required) := by
  induction h with
  | nil => rfl
  | @cons p rest hp _ ih =>
    cases hrequired : p.required with
    | true =>
      rw [List.filter_cons_of_pos hrequired, List.filter_cons_of_neg (by simp [hrequired]),
        List.cons_append, ← ih]
    | false =>
      -- Behind an optional property all are optional, so that no required one is found.
      have hrest : ∀ q ∈ rest, (!q.required) = true := by
        intro q hq
        have hq := hp q hq
        rwa [mayPrecede, hrequired, Bool.false_or] at hq
      have hnone : rest.filter (·.required) = [] := by
        rw [List.filter_eq_nil_iff]
        intro q hq
        simpa using hrest q hq
      rw [List.filter_cons_of_neg (by simp [hrequired]), hnone, List.nil_append,
        List.filter_eq_self.mpr]
      exact List.forall_mem_cons.mpr ⟨by simp [hrequired], hrest⟩

end Property

namespace Model
open Property

/-- As the sort is stable, it leaves alone what is in order already. -/
theorem filter_mergeSort {ps : List Property} {choose : Property → Bool}
    (h : (ps.filter choose).Pairwise fun p q => p.mayPrecede q = true) :
    (ps.mergeSort mayPrecede).filter choose = ps.filter choose := by
  have hsublist : (ps.filter choose).Sublist ((ps.mergeSort mayPrecede).filter choose) := by
    have hkept := List.sublist_mergeSort mayPrecede_trans mayPrecede_total h List.filter_sublist
    have hchosen := hkept.filter choose
    rwa [List.filter_eq_self.mpr fun p hp => (List.mem_filter.mp hp).2] at hchosen
  have hperm := (List.mergeSort_perm ps mayPrecede).filter choose
  exact (hsublist.eq_of_length hperm.length_eq.symm).symm

theorem renderingOrder_eq_mergeSort (m : Model) :
    m.renderingOrder = m.properties.mergeSort mayPrecede := by
  have hsorted := List.pairwise_mergeSort mayPrecede_trans mayPrecede_total m.properties
  rw [renderingOrder, eq_filter_append_filter hsorted,
    filter_mergeSort (pairwise_mayPrecede_required m.properties),
    filter_mergeSort (pairwise_mayPrecede_optional m.properties)]

theorem pairwise_renderingOrder (m : Model) :
    m.renderingOrder.Pairwise fun p q => p.mayPrecede q = true := by
  rw [renderingOrder_eq_mergeSort]
  exact List.pairwise_mergeSort mayPrecede_trans mayPrecede_total m.properties

end Model

/-! ## 2. Fields -/

namespace FieldDeclaration

/-- The line of a field, up to its default. -/
def line (f : FieldDeclaration) : String :=
  "    " ++ f.name ++ ": " ++ f.annotation

/-- The field is written with a default, behind its annotation. -/
def HasDefault (f : FieldDeclaration) : Prop :=
  (PythonFile.fieldLines f).getLast? = some (f.line ++ " = None")

variable {f : FieldDeclaration}

theorem getLast?_fieldLines (f : FieldDeclaration) : (PythonFile.fieldLines f).getLast? =
    some (f.line ++ if f.required then "" else " = None") := by
  rw [PythonFile.fieldLines, List.getLast?_append, List.getLast?_singleton]
  rfl

theorem hasDefault_iff : f.HasDefault ↔ f.required = false := by
  rw [HasDefault, getLast?_fieldLines, Option.some.injEq, String.append_right_inj]
  cases f.required <;> decide

/-- In the annotation there is no sign of a default, and the colon stands before it. -/
theorem not_suffix_line (h : '=' ∉ f.annotation.toList) :
    ¬" = None".toList <:+ f.line.toList := by
  rintro ⟨front, hfront⟩
  have hline : f.line.toList =
      ("    " ++ f.name).toList ++ ':' :: ' ' :: f.annotation.toList := by
    simp [line]
  have hsign : front ++ " = None".toList = (front ++ [' ']) ++ '=' :: " None".toList := by
    rw [List.append_assoc]
    rfl
  rw [hline, hsign, List.append_eq_append_iff] at hfront
  obtain ⟨between, -, hbetween⟩ | ⟨between, -, hbetween⟩ := hfront
  · have hcolon : ':' ∈ '=' :: " None".toList := by
      rw [hbetween]
      exact List.mem_append_right between List.mem_cons_self
    exact absurd hcolon (by decide)
  · have hmem : '=' ∈ ':' :: ' ' :: f.annotation.toList := by
      rw [hbetween]
      exact List.mem_append_right between List.mem_cons_self
    simp [h] at hmem

theorem hasDefault_iff_suffix (h : '=' ∉ f.annotation.toList) : f.HasDefault ↔
    ∃ line, (PythonFile.fieldLines f).getLast? = some line ∧ " = None".toList <:+ line.toList := by
  constructor
  · intro hdefault
    refine ⟨_, hdefault, ?_⟩
    rw [String.toList_append]
    exact List.suffix_append _ _
  · rintro ⟨last, hlast, hsuffix⟩
    rw [hasDefault_iff, ← Bool.not_eq_true]
    intro hrequired
    rw [getLast?_fieldLines, if_pos hrequired, String.append_empty, Option.some.injEq] at hlast
    exact not_suffix_line h (hlast ▸ hsuffix)

end FieldDeclaration

/-! ## 3. Classes -/

namespace PythonFile

/-- A field is written for a property: with a default just when that is optional, and otherwise
with nothing behind the annotation. -/
structure IsFieldOf (r : Registry) (p : Property) (f : FieldDeclaration) : Prop where
  name : f.name = p.name
  annotation : p.annotation .python r = .ok f.annotation
  hasDefault : f.HasDefault ↔ p.required = false
  required : p.required = true → (fieldLines f).getLast? = some f.line

/-- A class is written for a model: the fields in rendering order, and behind one with a default
only such. -/
structure IsClassOf (r : Registry) (m : Model) (c : Declaration) : Prop where
  name : c.name = m.name
  fields : List.Forall₂ (IsFieldOf r) m.renderingOrder c.fields
  defaultsLast : c.fields.Pairwise fun f g => f.HasDefault → g.HasDefault

variable {r : Registry} {typeText : Property → String}

theorem isFieldOf_declaration {p : Property} (h : p.annotation .python r = .ok (typeText p)) :
    IsFieldOf r p (p.declaration typeText) where
  name := rfl
  annotation := h
  hasDefault := FieldDeclaration.hasDefault_iff
  required hrequired := by
    have hfield : (p.declaration typeText).required = true := hrequired
    rw [FieldDeclaration.getLast?_fieldLines, if_pos hfield, String.append_empty]

theorem isClassOf_declaration {m : Model}
    (h : ∀ p ∈ m.properties, p.annotation .python r = .ok (typeText p)) :
    IsClassOf r m (m.declaration typeText) where
  name := rfl
  fields := by
    rw [Model.declaration, List.forall₂_map_right_iff, List.forall₂_same]
    intro p hp
    exact isFieldOf_declaration (h p (Model.mem_renderingOrder.mp hp))
  defaultsLast := by
    rw [Model.declaration, List.pairwise_map]
    refine m.pairwise_renderingOrder.imp fun {p q} hpq hp => ?_
    rw [FieldDeclaration.hasDefault_iff, ← Bool.not_eq_true] at *
    exact mt (Property.mayPrecede_iff.mp hpq) hp

end PythonFile

open PythonFile (IsClassOf)

namespace Session

theorem render_python_eq {s : Session} {file : String} (h : s.render .python = .ok file) :
    file = PythonFile.text (s.models.map (Model.declaration (s.typeText .python))) :=
  render_eq h

/-- Required properties are written before optional ones, and otherwise the order of the schema is
kept, as by a stable sort. So the classes of a Python file have no field without a default behind
one that has a default. If no name of a model has the sign of a default in it, then the defaults
are known from the lines alone. -/
theorem defaults_stand_last :
    (∀ m : Model, m.renderingOrder.Perm m.properties ∧
      m.renderingOrder =
        m.properties.filter (·.required) ++ m.properties.filter (!·.required) ∧
      m.renderingOrder = m.properties.mergeSort fun p q => p.required || !q.required) ∧
    ∀ (s : Session) (file : String), s.render .python = .ok file →
      ∃ classes : List Declaration, file = PythonFile.text classes ∧
        List.Forall₂ (IsClassOf s.registry) s.models classes ∧
        ((∀ m ∈ s.registry.models, '=' ∉ m.name.toList) →
          ∀ c ∈ classes, ∀ f ∈ c.fields, f.HasDefault ↔
            ∃ line, (PythonFile.fieldLines f).getLast? = some line ∧
              " = None".toList <:+ line.toList) := by
  refine ⟨fun m => ⟨m.renderingOrder_perm, rfl, m.renderingOrder_eq_mergeSort⟩, ?_⟩
  intro s file h
  have hspelled : ∀ m ∈ s.models, ∀ p ∈ m.properties,
      p.annotation Language.python.dialect s.registry = .ok (s.typeText .python p) :=
    fun m hm p hp => annotation_eq_ok h hm hp
  refine ⟨_, render_python_eq h, ?_, ?_⟩
  · rw [List.forall₂_map_right_iff, List.forall₂_same]
    exact fun m hm => PythonFile.isClassOf_declaration (hspelled m hm)
  · intro hnames c hc f hf
    obtain ⟨m, hm, rfl⟩ := List.mem_map.mp hc
    obtain ⟨p, hp, rfl⟩ := List.mem_map.mp hf
    have hlacks : Dialect.python.Lacks '=' := ⟨by decide +kernel, by decide, by decide⟩
    exact FieldDeclaration.hasDefault_iff_suffix (Property.not_mem_annotation hlacks hnames
      (hspelled m hm p (Model.mem_renderingOrder.mp hp)))

/-- Among its properties are a required one that is nullable and an optional one that is not. -/
def mixed : Model :=
  ⟨"Media", "", [⟨"creator", "", .string, true, false⟩, ⟨"id", "", .string, false, true⟩,
    ⟨"tags", "", .untypedList, false, false⟩, ⟨"url", "", .string, true, true⟩]⟩

theorem defaults_stand_last_mixed :
    mixed.renderingOrder.map Property.name = ["id", "url", "creator", "tags"] ∧
    ∃ file, (Session.add mixed {}).render .python = .ok file ∧
      ∃ c, file = PythonFile.text [c] ∧ IsClassOf (Session.add mixed {}).registry mixed c ∧
        ∀ f ∈ c.fields, f.HasDefault ↔
          ∃ line, (PythonFile.fieldLines f).getLast? = some line ∧
            " = None".toList <:+ line.toList := by
  obtain ⟨file, hfile⟩ : ∃ file, (Session.add mixed {}).render .python = .ok file :=
    exists_render_iff.mpr (by cbv)
  obtain ⟨classes, htext, hclasses, hlines⟩ := defaults_stand_last.2 _ file hfile
  have hmodels : (Session.add mixed {}).models = [mixed] := rfl
  rw [hmodels, List.forall₂_cons_left_iff] at hclasses
  obtain ⟨c, rest, hc, hrest, rfl⟩ := hclasses
  obtain rfl := List.forall₂_nil_left_iff.mp hrest
  exact ⟨by cbv, file, hfile, c, htext, hc, hlines (by decide) c List.mem_cons_self⟩

end Session

end MediaCatalog
