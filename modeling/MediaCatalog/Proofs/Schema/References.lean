import Mathlib
import MediaCatalog.Proofs.Schema.Rendering
import MediaCatalog.Proofs.Schema.Session
import MediaCatalog.Proofs.Schema.Subset

/-!
# References — a session is rendered if and only if it has all models that it refers to

Of the types that schemas give, only references can be without a spelling
(`offender?_eq_missing?`). A session registers the models that it lists and no others, so the names
in its list decide which references can be spelled, and the order of the list does not count
(`render_fails_iff_of_same_models`).
-/

namespace MediaCatalog

namespace FieldType

/-! ## 1. The references in a type -/

mutual

/--
The models that a type refers to, from left to right, when models of some names are there. The
elements of lists and the values of maps do not count if a model has the name `list` or `dict`.
-/
def references (names : List String) : FieldType → List String
  | .model name => [name]
  | .listOf element => if "list" ∈ names then [] else element.references names
  | .mapOf value => if "dict" ∈ names then [] else value.references names
  | .tuple items => referencesAll names items
  | .union members => referencesAll names members
  | _ => []

def referencesAll (names : List String) : List FieldType → List String
  | [] => []
  | t :: rest => t.references names ++ referencesAll names rest

end

variable {names : List String} {r : Registry}

/-- The first reference to a model that is not registered, as a type. -/
def missing? (r : Registry) (references : List String) : Option FieldType :=
  (references.find? fun name => !r.contains name).map .model

theorem missing?_append (r : Registry) (front back : List String) :
    missing? r (front ++ back) = (missing? r front).or (missing? r back) := by
  unfold missing?
  rw [List.find?_append]
  cases front.find? fun name => !r.contains name <;> rfl

theorem offender?_model (r : Registry) (name : String) :
    (model name).offender? r = missing? r [name] := by
  have hshadowing : r.shadowing? (.model name) = none := rfl
  rw [missing?, List.find?_singleton, Registry.contains]
  cases hget : r.get? name with
  | some m =>
    have ht : offends r (.model name) = false := by rw [offends, hget]; rfl
    rw [offender?_of_parts hshadowing ht]
    rfl
  | none =>
    have ht : offends r (.model name) = true := by rw [offends, hget]; rfl
    rw [offender?_of_offends hshadowing ht]
    rfl

/-- What a registered model stands in for is not looked into. -/
theorem offender?_eq_ite {t : FieldType} (ht : offends r t = false) :
    t.offender? r =
      if (r.shadowing? t).isSome then none else (exposedAll r t.parts).find? (offends r) := by
  cases h : r.shadowing? t with
  | some m => exact offender?_of_shadowing h
  | none => exact offender?_of_parts h ht

theorem offender?_of_parts_eq_nil {t : FieldType} (ht : offends r t = false)
    (hparts : t.parts = []) : t.offender? r = none := by
  rw [offender?_eq_ite ht, hparts]
  exact ite_self none

theorem offender?_of_part {t part : FieldType} {name : String}
    (hname : t.builtinName? = some name) (ht : offends r t = false) (hparts : t.parts = [part]) :
    t.offender? r = if r.contains name = true then none else part.offender? r := by
  rw [offender?_eq_ite ht, hparts, Registry.shadowing?, hname, exposedAll, exposedAll,
    List.append_nil]
  rfl

/-- A part of a type that schemas give is such a type itself. -/
theorem plain_of_mem_parts {t part : FieldType} (h : ∀ s, Within s t → Plain s)
    (hpart : part ∈ t.parts) : ∀ s, Within s part → Plain s :=
  fun s hs => h s (.part hpart hs)

mutual

/-- In a type that schemas give, the first part without a spelling is the first missing model. -/
theorem offender?_eq_missing? (hnames : ∀ name, r.contains name = true ↔ name ∈ names)
    (t : FieldType) (hplain : ∀ s, Within s t → Plain s) :
    t.offender? r = missing? r (t.references names) := by
  match t, hplain with
  | .model name, _ => exact offender?_model r name
  | .listOf element, hplain =>
    have helement := offender?_eq_missing? hnames element
      (plain_of_mem_parts hplain (List.mem_singleton_self element))
    rw [offender?_of_part rfl rfl rfl, references, helement]
    simp only [hnames]
    split <;> rfl
  | .mapOf value, hplain =>
    have hvalue := offender?_eq_missing? hnames value
      (plain_of_mem_parts hplain (List.mem_singleton_self value))
    rw [offender?_of_part rfl rfl rfl, references, hvalue]
    simp only [hnames]
    split <;> rfl
  | .tuple items, hplain => exact absurd (hplain _ .refl) id
  | .union [], hplain => exact absurd (hplain _ .refl) (Nat.not_succ_le_zero 1)
  | .union (first :: rest), hplain =>
    have hmembers := find?_exposedAll_eq_missing? hnames (first :: rest)
      fun member hmember => plain_of_mem_parts hplain hmember
    rw [offender?_of_parts rfl rfl, parts, hmembers, references]
  | .null, _ | .boolean, _ | .string, _ | .integer, _ | .number, _ | .bytes, _ | .any, _
  | .untypedList, _ | .untypedMap, _ => exact offender?_of_parts_eq_nil rfl rfl

theorem find?_exposedAll_eq_missing? (hnames : ∀ name, r.contains name = true ↔ name ∈ names)
    (ts : List FieldType) (hplain : ∀ t ∈ ts, ∀ s, Within s t → Plain s) :
    (exposedAll r ts).find? (offends r) = missing? r (referencesAll names ts) := by
  match ts, hplain with
  | [], _ => rfl
  | t :: rest, hplain =>
    obtain ⟨ht, hrest⟩ := List.forall_mem_cons.mp hplain
    have hfirst : (t.exposed r).find? (offends r) = _ := offender?_eq_missing? hnames t ht
    rw [exposedAll, List.find?_append, hfirst, find?_exposedAll_eq_missing? hnames rest hrest,
      referencesAll, missing?_append]

end

mutual

/-- Of the names only those count under which a model stands in for lists or for maps. -/
theorem references_congr {names names' : List String} (h : ∀ name, name ∈ names ↔ name ∈ names')
    (t : FieldType) : t.references names = t.references names' := by
  match t with
  | .listOf element => simp only [references, h, references_congr h element]
  | .mapOf value => simp only [references, h, references_congr h value]
  | .tuple items => simp only [references]; exact referencesAll_congr h items
  | .union members => simp only [references]; exact referencesAll_congr h members
  | .null | .boolean | .string | .integer | .number | .bytes | .any | .untypedList
  | .untypedMap | .model _ => rfl

theorem referencesAll_congr {names names' : List String} (h : ∀ name, name ∈ names ↔ name ∈ names')
    (ts : List FieldType) : referencesAll names ts = referencesAll names' ts := by
  match ts with
  | [] => rfl
  | t :: rest => rw [referencesAll, referencesAll, references_congr h t, referencesAll_congr h rest]

end

end FieldType

/-! ## 2. Models that schemas describe -/

namespace Model

theorem exists_schema_of_propertiesOf {required : List String} {members : Json.Members}
    {ps : List Property} (h : propertiesOf required members = .ok ps) :
    ∀ p ∈ ps, ∃ schema, FieldType.ofSchema schema = .ok p.type := by
  induction members generalizing ps with
  | nil =>
    cases h
    simp
  | cons member rest ih =>
    obtain ⟨name, schema⟩ := member
    rw [propertiesOf, propertyOf] at h
    cases htype : FieldType.ofSchema schema with
    | error u =>
      rw [htype] at h
      cases h
    | ok t =>
      rw [htype] at h
      cases hrest : propertiesOf required rest with
      | error u =>
        rw [hrest] at h
        cases h
      | ok ps =>
        rw [hrest] at h
        cases h
        exact List.forall_mem_cons.mpr ⟨⟨schema, htype⟩, ih hrest⟩

theorem exists_schema_of_ofSchema {name : String} {schema : Json} {m : Model}
    (h : ofSchema name schema = .ok m) :
    ∀ p ∈ m.properties, ∃ schema, FieldType.ofSchema schema = .ok p.type := by
  unfold ofSchema at h
  split at h
  · split at h
    · split at h
      next hps =>
        cases h
        exact exists_schema_of_propertiesOf hps
      next => cases h
    · cases h
  · cases h

end Model

namespace Session

/-- Types in a session are types that schemas give. -/
theorem exists_schema_of_mem {calls : List Call} {m : Model} (hm : m ∈ (ofCalls calls).models)
    {p : Property} (hp : p ∈ m.properties) :
    ∃ schema, FieldType.ofSchema schema = .ok p.type := by
  obtain ⟨before, after, hsplit, -⟩ := ((follows_ofCalls calls).latest m).mp hm
  have hbuilt : m ∈ builtBy calls := hsplit ▸ List.mem_append_right before List.mem_cons_self
  obtain ⟨c, -, hc⟩ := List.mem_flatMap.mp hbuilt
  obtain ⟨name, -, hname⟩ := exists_modelOf_of_mem_modelsOf hc
  obtain ⟨schema, hschema⟩ := exists_ofSchema_of_modelOf hname
  exact Model.exists_schema_of_ofSchema hschema p hp

/-! ## 3. References in a session -/

/-- The references in all models of a session, in the order in which they are written. -/
def references (s : Session) : List String :=
  (s.models.flatMap Model.renderingOrder).flatMap fun p =>
    p.type.references (s.models.map Model.name)

/-- The first of the references that is not to a model of the session. -/
def IsFirstMissing (s : Session) (name : String) : Prop :=
  ∃ before after, s.references = before ++ name :: after ∧
    (∀ n ∈ before, n ∈ s.models.map Model.name) ∧ name ∉ s.models.map Model.name

theorem mem_references {s : Session} {name : String} :
    name ∈ s.references ↔ ∃ m ∈ s.models, ∃ p ∈ m.properties,
      name ∈ p.type.references (s.models.map Model.name) := by
  simp only [references, List.mem_flatMap, Model.mem_renderingOrder]
  constructor
  · rintro ⟨p, ⟨m, hm, hp⟩, hname⟩
    exact ⟨m, hm, p, hp, hname⟩
  · rintro ⟨m, hm, p, hp, hname⟩
    exact ⟨p, ⟨m, hm, hp⟩, hname⟩

theorem firstOffender?_eq_missing? (calls : List Call) :
    firstOffender? (ofCalls calls).registry (ofCalls calls).models =
      FieldType.missing? (ofCalls calls).registry (ofCalls calls).references := by
  have htypes : ∀ p ∈ (ofCalls calls).models.flatMap Model.renderingOrder,
      p.type.offender? (ofCalls calls).registry =
        FieldType.missing? (ofCalls calls).registry
          (p.type.references ((ofCalls calls).models.map Model.name)) := by
    intro p hp
    obtain ⟨m, hm, hp⟩ := List.mem_flatMap.mp hp
    obtain ⟨schema, hschema⟩ := exists_schema_of_mem hm (Model.mem_renderingOrder.mp hp)
    exact FieldType.offender?_eq_missing? (follows_ofCalls calls).registered p.type fun s hs =>
      (FieldType.hasType_of_ofSchema schema hschema).plain hs
  rw [firstOffender?, ← Function.id_comp fun p : Property => p.type.offender? _,
    ← List.findSome?_map, List.map_congr_left htypes, List.findSome?_map, FieldType.missing?,
    references, List.find?_flatMap, List.map_findSome?]
  rfl

theorem firstOffender?_eq_some_iff (calls : List Call) {part : FieldType} :
    firstOffender? (ofCalls calls).registry (ofCalls calls).models = some part ↔
      ∃ name, part = .model name ∧ (ofCalls calls).IsFirstMissing name := by
  rw [firstOffender?_eq_missing?, FieldType.missing?]
  simp only [Option.map_eq_some_iff, List.find?_eq_some_iff_append, Bool.not_not,
    Bool.not_eq_true', ← Bool.not_eq_true, (follows_ofCalls calls).registered]
  constructor
  · rintro ⟨name, ⟨hname, before, after, hsplit, hbefore⟩, rfl⟩
    exact ⟨name, rfl, before, after, hsplit, hbefore, hname⟩
  · rintro ⟨name, rfl, before, after, hsplit, hbefore, hname⟩
    exact ⟨name, ⟨hname, before, after, hsplit, hbefore⟩, rfl⟩

theorem render_eq_error_iff (calls : List Call) {language : Language} {u : Unspellable} :
    (ofCalls calls).render language = .error u ↔
      u.language = language ∧ (ofCalls calls).IsFirstMissing u.value := by
  rw [(spelt_render language (ofCalls calls)).eq_error_iff, language.language_dialect]
  simp only [firstOffender?_eq_some_iff]
  constructor
  · rintro ⟨part, ⟨name, rfl, hname⟩, rfl⟩
    exact ⟨rfl, hname⟩
  · rintro ⟨rfl, hname⟩
    exact ⟨.model u.value, ⟨u.value, rfl, hname⟩, rfl⟩

theorem exists_isFirstMissing_iff {s : Session} :
    (∃ name, s.IsFirstMissing name) ↔ ∃ name ∈ s.references, name ∉ s.models.map Model.name := by
  constructor
  · rintro ⟨name, before, after, hsplit, -, hname⟩
    exact ⟨name, hsplit ▸ List.mem_append_right before List.mem_cons_self, hname⟩
  · rintro ⟨name, hmem, hname⟩
    have hsome : (s.references.find? fun n => decide (n ∉ s.models.map Model.name)).isSome :=
      List.find?_isSome.mpr ⟨name, hmem, decide_eq_true hname⟩
    obtain ⟨first, hfirst⟩ := Option.isSome_iff_exists.mp hsome
    obtain ⟨hmissing, before, after, hsplit, hbefore⟩ := List.find?_eq_some_iff_append.mp hfirst
    exact ⟨first, before, after, hsplit, fun n hn => by simpa using hbefore n hn,
      of_decide_eq_true hmissing⟩

theorem render_fails_iff (calls : List Call) (language : Language) :
    (∃ u, (ofCalls calls).render language = .error u) ↔
      ∃ m ∈ (ofCalls calls).models, ∃ p ∈ m.properties,
        ∃ name ∈ p.type.references ((ofCalls calls).models.map Model.name),
          name ∉ (ofCalls calls).models.map Model.name := by
  have hfirst : (∃ u, (ofCalls calls).render language = .error u) ↔
      ∃ name, (ofCalls calls).IsFirstMissing name := by
    constructor
    · rintro ⟨u, hu⟩
      exact ⟨u.value, ((render_eq_error_iff calls).mp hu).2⟩
    · rintro ⟨name, hname⟩
      exact ⟨⟨name, language⟩, (render_eq_error_iff calls).mpr ⟨rfl, hname⟩⟩
  rw [hfirst, exists_isFirstMissing_iff]
  constructor
  · rintro ⟨name, hmem, hname⟩
    obtain ⟨m, hm, p, hp, hmem⟩ := mem_references.mp hmem
    exact ⟨m, hm, p, hp, name, hmem, hname⟩
  · rintro ⟨m, hm, p, hp, name, hmem, hname⟩
    exact ⟨name, mem_references.mpr ⟨m, hm, p, hp, hmem⟩, hname⟩

/-! ## 4. The order of builds -/

/-- Two sessions with the same models, in whatever order, fail together. -/
theorem render_fails_iff_of_same_models {calls calls' : List Call}
    (h : ∀ m, m ∈ (ofCalls calls').models ↔ m ∈ (ofCalls calls).models) (language : Language) :
    (∃ u, (ofCalls calls').render language = .error u) ↔
      ∃ u, (ofCalls calls).render language = .error u := by
  have hnames : ∀ name, name ∈ (ofCalls calls').models.map Model.name ↔
      name ∈ (ofCalls calls).models.map Model.name := fun name => by
    simp only [List.mem_map, h]
  simp only [render_fails_iff, h, FieldType.references_congr hnames, hnames]

/-- After a call that does not fail, the models of its names are those of its document. -/
theorem isLatest_append_modelsOf {document : SchemaDocument} {names : List String}
    (hall : ∀ name ∈ names, ∃ m, modelOf document name = .ok m) {history : List Model}
    {m : Model} : IsLatest (history ++ modelsOf document names) m ↔
      m.name ∈ names ∧ modelOf document m.name = .ok m ∨ m.name ∉ names ∧ IsLatest history m := by
  induction names generalizing history with
  | nil => simp [modelsOf]
  | cons name rest ih =>
    obtain ⟨⟨first, hfirst⟩, hrest⟩ := List.forall_mem_cons.mp hall
    have hname := name_of_modelOf hfirst
    rw [modelsOf, hfirst]
    dsimp only
    rw [List.append_cons, ih hrest, isLatest_concat, hname]
    have hself : m = first ↔ m.name = name ∧ modelOf document m.name = .ok m := by
      constructor
      · rintro rfl
        exact ⟨hname, hname ▸ hfirst⟩
      · rintro ⟨rfl, hm⟩
        rw [hfirst, Except.ok.injEq] at hm
        exact hm.symm
    rw [hself, List.mem_cons]
    tauto

theorem mem_models_append_iff {calls : List Call} {document : SchemaDocument}
    {names : List String} (hall : ∀ name ∈ names, ∃ m, modelOf document name = .ok m) {m : Model} :
    m ∈ (ofCalls (calls ++ [⟨document, names⟩])).models ↔
      m.name ∈ names ∧ modelOf document m.name = .ok m ∨
        m.name ∉ names ∧ m ∈ (ofCalls calls).models := by
  rw [(follows_ofCalls _).latest, (follows_ofCalls calls).latest, builtBy, List.flatMap_append,
    List.flatMap_singleton]
  exact isLatest_append_modelsOf hall

/-- Rendering a session fails just when some model refers, not inside lists or maps for which a
model stands in, to a model that the session does not have, and the first such reference is
reported. The order in which the same models were built does not count. -/
theorem render_fails_at_missing_model (calls : List Call) :
    (∀ (language : Language) (u : Unspellable), (ofCalls calls).render language = .error u ↔
      u.language = language ∧ (ofCalls calls).IsFirstMissing u.value) ∧
    (∀ language : Language, (∃ u, (ofCalls calls).render language = .error u) ↔
      ∃ m ∈ (ofCalls calls).models, ∃ p ∈ m.properties,
        ∃ name ∈ p.type.references ((ofCalls calls).models.map Model.name),
          name ∉ (ofCalls calls).models.map Model.name) ∧
    (∀ calls' : List Call, (∀ m, m ∈ (ofCalls calls').models ↔ m ∈ (ofCalls calls).models) →
      ∀ language : Language, (∃ u, (ofCalls calls').render language = .error u) ↔
        ∃ u, (ofCalls calls).render language = .error u) ∧
    ∀ (document : SchemaDocument) (names names' : List String),
      (∀ name, name ∈ names' ↔ name ∈ names) →
      (∀ name ∈ names, ∃ m, modelOf document name = .ok m) →
      ∀ language : Language,
        (∃ u, (ofCalls (calls ++ [⟨document, names'⟩])).render language = .error u) ↔
          ∃ u, (ofCalls (calls ++ [⟨document, names⟩])).render language = .error u := by
  refine ⟨fun language u => render_eq_error_iff calls, render_fails_iff calls,
    fun calls' h => render_fails_iff_of_same_models h, fun document names names' h hall => ?_⟩
  have hall' : ∀ name ∈ names', ∃ m, modelOf document name = .ok m := fun name hname =>
    hall name ((h name).mp hname)
  refine render_fails_iff_of_same_models fun m => ?_
  rw [mem_models_append_iff hall, mem_models_append_iff hall', h]

/-- A model that refers to another one and to itself in a list, and the other. -/
def forwardDocument : SchemaDocument :=
  let reference (name : String) : Json := .object [("$ref", .string name)]
  ⟨.empty,
    [("Image", .object [("required", .array [.string "tag"]), ("properties", .object
        [("related", .object [("type", .string "array"), ("items", reference "Image")]),
          ("tag", reference "#/components/schemas/Tag")])]),
      ("Tag", .object [("properties", .object [("name", .object [("type", .string "string")])])])]⟩

theorem render_fails_at_missing_model_forward :
    (ofCalls [⟨forwardDocument, ["Image"]⟩]).render .python = .error ⟨"Tag", .python⟩ ∧
      (∀ name ∈ ["Image", "Tag"], ∃ m, modelOf forwardDocument name = .ok m) ∧
      ∀ language : Language,
        (∃ u, (ofCalls [⟨forwardDocument, ["Tag", "Image"]⟩]).render language = .error u) ↔
          ∃ u, (ofCalls [⟨forwardDocument, ["Image", "Tag"]⟩]).render language = .error u := by
  have hnames : (ofCalls [⟨forwardDocument, ["Image"]⟩]).models.map Model.name = ["Image"] := by
    cbv
  have hmissing : (ofCalls [⟨forwardDocument, ["Image"]⟩]).IsFirstMissing "Tag" :=
    ⟨[], ["Image"], by cbv, by simp, by rw [hnames]; decide⟩
  have hall : ∀ name ∈ ["Image", "Tag"], ∃ m, modelOf forwardDocument name = .ok m := by
    simp only [List.forall_mem_cons, List.not_mem_nil, false_imp_iff, implies_true, and_true]
    refine ⟨⟨⟨"Image", "", [⟨"related", "", .listOf (.model "Image"), false, false⟩,
      ⟨"tag", "", .model "Tag", false, true⟩]⟩, by cbv⟩,
      ⟨⟨"Tag", "", [⟨"name", "", .string, false, false⟩]⟩, by cbv⟩⟩
  exact ⟨((render_fails_at_missing_model _).1 .python ⟨"Tag", .python⟩).mpr ⟨rfl, hmissing⟩, hall,
    (render_fails_at_missing_model []).2.2.2 forwardDocument ["Image", "Tag"] ["Tag", "Image"]
      (by simp [or_comm]) hall⟩

end Session

end MediaCatalog
