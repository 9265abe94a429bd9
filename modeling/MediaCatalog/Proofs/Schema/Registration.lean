import MediaCatalog.Proofs.Schema.Parts
import MediaCatalog.Proofs.Schema.Session

/-!
# Registration — of the models in a registry only the names are written

A registry finds under a name the model that was registered last with it (`holds_ofSteps`). What it
finds is written by its name, so registries with the same names spell all types alike. More names
change no spelling (`spell_mono`), unless they are those of built-in types.
-/

namespace MediaCatalog

/-! ## 1. What registrations leave -/

namespace Registry

/-- A model that is to be registered: as it is, or as a schema describes it under a name. -/
inductive Registration where
  | model (m : Model)
  | schema (name : String) (schema : Json)

namespace Registration

/-- The model of a registration, unless it is one of a schema that describes none. -/
def model? : Registration → Option Model
  | .model m => some m
  | .schema name s => (Model.ofSchema name s).toOption

end Registration

/-- A schema that describes no model changes nothing. -/
def perform (r : Registry) : Registration → Registry
  | .model m => r.register m
  | .schema name schema =>
    match Model.ofSchema name schema with
    | .ok m => r.register m
    | .error _ => r

/-- The registry after registrations, one after the other. -/
def ofSteps (steps : List Registration) : Registry :=
  steps.foldl perform {}

/-- The models that are registered, in order. -/
def registered (steps : List Registration) : List Model :=
  steps.filterMap Registration.model?

theorem perform_eq (r : Registry) (step : Registration) :
    r.perform step = step.model?.elim r fun m => r.register m := by
  cases step with
  | model m => rfl
  | schema name s =>
    rw [perform, Registration.model?]
    cases Model.ofSchema name s <;> rfl

/-- Under a name there is the last model of a history that has it. -/
def Holds (history : List Model) (r : Registry) : Prop :=
  ∀ name m, r.get? name = some m ↔ m.name = name ∧ Session.IsLatest history m

namespace Holds
variable {history : List Model} {r : Registry}

theorem nil : Holds [] {} := by
  intro name m
  refine iff_of_false (by simp [get?]) ?_
  rintro ⟨-, before, after, hsplit, -⟩
  simp at hsplit

theorem register (h : Holds history r) (m : Model) : Holds (history ++ [m]) (r.register m) := by
  intro name n
  rw [get?_register, Session.isLatest_concat]
  by_cases hname : name = m.name
  · -- The new model is the one that is found, and none with its name is the latest any more.
    rw [if_pos hname, Option.some.injEq, hname]
    constructor
    · rintro rfl
      exact ⟨rfl, Or.inl rfl⟩
    · rintro ⟨hn, rfl | ⟨-, hne⟩⟩
      · rfl
      · exact absurd hn hne
  · rw [if_neg hname, h name n]
    constructor
    · rintro ⟨rfl, hlatest⟩
      exact ⟨rfl, Or.inr ⟨hlatest, hname⟩⟩
    · rintro ⟨rfl, rfl | ⟨hlatest, -⟩⟩
      · exact absurd rfl hname
      · exact ⟨rfl, hlatest⟩

theorem perform (h : Holds history r) (step : Registration) :
    Holds (history ++ step.model?.toList) (r.perform step) := by
  rw [perform_eq]
  cases step.model? with
  | none => rwa [Option.toList_none, List.append_nil]
  | some m => exact h.register m

theorem foldl_perform (h : Holds history r) (steps : List Registration) :
    Holds (history ++ registered steps) (steps.foldl Registry.perform r) := by
  induction steps generalizing history r with
  | nil => rwa [registered, List.filterMap_nil, List.append_nil]
  | cons step rest ih =>
    have hsteps := ih (h.perform step)
    rw [List.append_assoc] at hsteps
    rw [List.foldl_cons, registered, List.filterMap_cons]
    cases hstep : step.model? <;> simpa [hstep, registered] using hsteps

end Holds

theorem holds_ofSteps (steps : List Registration) : Holds (registered steps) (ofSteps steps) :=
  Holds.nil.foldl_perform steps

end Registry

/-! ## 2. More names -/

namespace FieldType

/-- The names under which models stand in for built-in types. -/
def builtinNames : List String :=
  ["bool", "str", "int", "float", "bytes", "Any", "list", "tuple", "dict"]

theorem mem_builtinNames {t : FieldType} {name : String} (h : t.builtinName? = some name) :
    name ∈ builtinNames := by
  cases t <;> cases h <;> decide

end FieldType

namespace Registry

/-- The second registry has all names of the first, and of the names of built-in types no others. -/
structure Extends (r' r : Registry) : Prop where
  names : ∀ name, r.contains name = true → r'.contains name = true
  builtin : ∀ name ∈ FieldType.builtinNames, r'.contains name = true → r.contains name = true

namespace Extends
variable {r r' : Registry} {name : String} {m : Model} {t : FieldType}

theorem exists_get? (h : r'.Extends r) (hm : r.get? name = some m) :
    ∃ m', r'.get? name = some m' ∧ m'.name = m.name := by
  have hname := h.names name (by rw [contains, hm]; rfl)
  obtain ⟨m', hm'⟩ := Option.isSome_iff_exists.mp hname
  exact ⟨m', hm', (name_of_get? hm').trans (name_of_get? hm).symm⟩

theorem exists_shadowing? (h : r'.Extends r) (hm : r.shadowing? t = some m) :
    ∃ m', r'.shadowing? t = some m' ∧ m'.name = m.name := by
  obtain ⟨name, hname, hm⟩ := Option.bind_eq_some_iff.mp hm
  obtain ⟨m', hm', heq⟩ := h.exists_get? hm
  exact ⟨m', Option.bind_eq_some_iff.mpr ⟨name, hname, hm'⟩, heq⟩

/-- No model comes to stand in for a built-in type. -/
theorem shadowing?_eq_none (h : r'.Extends r) (hs : r.shadowing? t = none) :
    r'.shadowing? t = none := by
  rw [Option.eq_none_iff_forall_ne_some]
  intro m' hm'
  obtain ⟨name, hname, hm'⟩ := Option.bind_eq_some_iff.mp hm'
  have hcontains := h.builtin name (FieldType.mem_builtinNames hname) (by rw [contains, hm']; rfl)
  obtain ⟨m, hm⟩ := Option.isSome_iff_exists.mp hcontains
  rw [shadowing?, hname, Option.bind_some, hm] at hs
  cases hs

theorem offends_eq_false (h : r'.Extends r) (ht : FieldType.offends r t = false) :
    FieldType.offends r' t = false := by
  rw [← Bool.not_eq_true, FieldType.offends_iff] at *
  rintro (⟨name, rfl, hm'⟩ | rfl)
  · cases hm : r.get? name with
    | none => exact ht (Or.inl ⟨name, rfl, hm⟩)
    | some m =>
      obtain ⟨m', hm'', -⟩ := h.exists_get? hm
      rw [hm'] at hm''
      cases hm''
  · exact ht (Or.inr rfl)

end Extends

end Registry

namespace FieldType
variable {d : Dialect} {r r' : Registry}

/-- A spelling does not change with more names. -/
theorem spell_mono (h : r'.Extends r) {t : FieldType} {text : String}
    (htext : t.spell d r = .ok text) : t.spell d r' = .ok text := by
  induction t using parts_induction generalizing text with
  | step t ih =>
    cases hs : r.shadowing? t with
    | some m =>
      obtain ⟨m', hm', hname⟩ := h.exists_shadowing? hs
      rw [spell_of_shadowing hs] at htext
      rw [spell_of_shadowing hm', hname, htext]
    | none =>
      obtain ⟨hoffends, texts, htexts, rfl⟩ := (spell_eq_ok_iff hs).mp htext
      have hparts : Spellings d r' (t.parts.map id) texts := htexts.map fun p hp _ => ih p hp
      rw [List.map_id] at hparts
      exact (spell_eq_ok_iff (h.shadowing?_eq_none hs)).mpr
        ⟨h.offends_eq_false hoffends, texts, hparts, rfl⟩

end FieldType

/-! ## 3. Two registries -/

namespace Registry

/-- A registry finds under a name the model that was last registered with it, and what it finds for
a reference or for a built-in type has the name that was looked up. Registries with the same names
spell every type alike or fail alike, and one with more names, none of them that of a built-in type,
spells all that the other does in the same way. -/
theorem spellings_depend_on_names (steps steps' : List Registration) :
    (∀ name m, (ofSteps steps).get? name = some m ↔
      m.name = name ∧ Session.IsLatest (registered steps) m) ∧
    (∀ reference m, (ofSteps steps).resolve? reference = some m →
      m.name = FieldType.referenceName reference) ∧
    (∀ t m, (ofSteps steps).shadowing? t = some m → t.builtinName? = some m.name) ∧
    ((∀ name, (ofSteps steps).contains name = (ofSteps steps').contains name) →
      ∀ (language : Language) (t : FieldType),
        t.spell language.dialect (ofSteps steps) = t.spell language.dialect (ofSteps steps')) ∧
    ((∀ name, (ofSteps steps).contains name = true → (ofSteps steps').contains name = true) →
      (∀ name, (ofSteps steps').contains name = true → (ofSteps steps).contains name = false →
        name ∉ FieldType.builtinNames) →
      ∀ (language : Language) (t : FieldType) (text : String),
        t.spell language.dialect (ofSteps steps) = .ok text →
          t.spell language.dialect (ofSteps steps') = .ok text) := by
  refine ⟨holds_ofSteps steps, fun reference m hm => name_of_get? hm, ?_, ?_, ?_⟩
  · intro t m hm
    obtain ⟨name, hname, hm⟩ := Option.bind_eq_some_iff.mp hm
    rw [hname, name_of_get? hm]
  · exact fun hnames language t => FieldType.spell_congr hnames t
  · intro hnames hothers language t text htext
    have hextends : (ofSteps steps').Extends (ofSteps steps) := by
      refine ⟨hnames, fun name hname hcontains => ?_⟩
      by_contra hnot
      exact hothers name hcontains (Bool.not_eq_true _ ▸ hnot) hname
    exact FieldType.spell_mono hextends htext

/-- The model "Tag" comes from a schema. -/
def tagAndImage : List Registration :=
  [.schema "Tag" (.object [("properties", .object [])]), .model ⟨"Image", "", []⟩]

/-- The model "Tag" is registered twice, and its schema describes none. -/
def imageAndTags : List Registration :=
  [.model ⟨"Image", "of media", []⟩, .model ⟨"Tag", "old", []⟩, .schema "Tag" .null,
    .model ⟨"Tag", "new", []⟩]

theorem spellings_depend_on_names_reordered :
    (∀ name, (ofSteps tagAndImage).contains name = (ofSteps imageAndTags).contains name) ∧
    (ofSteps imageAndTags).get? "Tag" = some ⟨"Tag", "new", []⟩ ∧
    (FieldType.union [.listOf (.model "Tag"), .model "Image"]).spell .python
      (ofSteps imageAndTags) = .ok "list[Tag] | Image" ∧
    (FieldType.union [.listOf (.model "Tag"), .model "Image"]).spell .python
      (ofSteps (imageAndTags ++ [.model ⟨"Audio", "", []⟩])) = .ok "list[Tag] | Image" := by
  have hnames : (ofSteps tagAndImage).models.map Model.name = ["Tag", "Image"] := by cbv
  have hnames' : (ofSteps imageAndTags).models.map Model.name = ["Image", "Tag"] := by cbv
  have hmore : (ofSteps (imageAndTags ++ [.model ⟨"Audio", "", []⟩])).models.map Model.name =
      ["Image", "Tag", "Audio"] := by cbv
  have hsame (name : String) :
      (ofSteps tagAndImage).contains name = (ofSteps imageAndTags).contains name := by
    rw [Bool.eq_iff_iff, contains_iff, contains_iff, hnames, hnames', List.mem_pair, List.mem_pair,
      or_comm]
  have htag : Session.IsLatest (registered imageAndTags) ⟨"Tag", "new", []⟩ :=
    ⟨[⟨"Image", "of media", []⟩, ⟨"Tag", "old", []⟩], [], by cbv, by simp⟩
  have htext : (FieldType.union [.listOf (.model "Tag"), .model "Image"]).spell
      Language.python.dialect (ofSteps tagAndImage) = .ok "list[Tag] | Image" := by cbv
  have htext' := ((spellings_depend_on_names tagAndImage imageAndTags).2.2.2.1 hsame .python
    (.union [.listOf (.model "Tag"), .model "Image"])).symm.trans htext
  refine ⟨hsame, ((spellings_depend_on_names imageAndTags []).1 _ _).mpr ⟨rfl, htag⟩, htext', ?_⟩
  refine (spellings_depend_on_names imageAndTags _).2.2.2.2 ?_ ?_ .python _ _ htext'
  · intro name hname
    rw [contains_iff, hnames'] at hname
    rw [contains_iff, hmore]
    exact List.mem_append_left ["Audio"] hname
  · intro name hname hnot
    rw [← Bool.not_eq_true, contains_iff, hnames'] at hnot
    rw [contains_iff, hmore] at hname
    have hsplit : name ∈ ["Image", "Tag"] ++ ["Audio"] := hname
    obtain rfl : name = "Audio" :=
      List.mem_singleton.mp ((List.mem_append.mp hsplit).resolve_left hnot)
    decide

end Registry

end MediaCatalog
