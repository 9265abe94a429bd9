import MediaCatalog.Schema.Dialect

/-!
# Spelling types — a type that no language can spell

Spelling a type fails because of one of its parts: a model that is not registered, or a union
without members. Parts count where they are written (`exposed`), and of those that offend the first
is reported. Nothing of this depends on the language, so that the models files of all languages
come to be or fail together.
-/

namespace MediaCatalog

theorem Except.exists_of_map_eq_ok {ε α β : Type} {f : α → β} {answer : Except ε α} {b : β}
    (h : answer.map f = .ok b) : ∃ a, answer = .ok a ∧ f a = b := by
  cases answer with
  | error e => cases h
  | ok a => exact ⟨a, rfl, Except.ok.inj h⟩

theorem Language.language_dialect (language : Language) : language.dialect.language = language := by
  cases language <;> rfl

namespace FieldType

/-! ## 1. The parts of a type -/

/-- The types that a type is made of. -/
def parts : FieldType → List FieldType
  | .listOf t | .mapOf t => [t]
  | .tuple ts | .union ts => ts
  | _ => []

mutual

/--
A type, then its parts and theirs, from left to right. The parts of a type that a registered model
stands in for are not written.
-/
def exposed (r : Registry) (t : FieldType) : List FieldType :=
  if (r.shadowing? t).isSome then [t]
  else
    match t with
    | .listOf element => t :: element.exposed r
    | .mapOf value => t :: value.exposed r
    | .tuple items => t :: exposedAll r items
    | .union members => t :: exposedAll r members
    | _ => [t]

def exposedAll (r : Registry) : List FieldType → List FieldType
  | [] => []
  | t :: rest => t.exposed r ++ exposedAll r rest

end

/-- No language has a spelling for a model without a registration or a union without members. -/
def offends (r : Registry) : FieldType → Bool
  | .model name => (r.get? name).isNone
  | .union [] => true
  | _ => false

theorem offends_iff {r : Registry} {t : FieldType} :
    offends r t = true ↔ (∃ name, t = .model name ∧ r.get? name = none) ∨ t = .union [] := by
  unfold offends
  split
  next name => simp
  next => simp
  next hmodel hunion =>
    refine iff_of_false (by simp) ?_
    rintro (⟨name, rfl, -⟩ | rfl)
    · exact hmodel name rfl
    · exact hunion rfl

/-- The first part that offends. -/
def offender? (r : Registry) (t : FieldType) : Option FieldType :=
  (t.exposed r).find? (offends r)

theorem exposed_of_shadowing {r : Registry} {t : FieldType} {m : Model}
    (h : r.shadowing? t = some m) : t.exposed r = [t] := by
  rw [exposed.eq_def, h]
  rfl

theorem exposed_of_not_shadowing {r : Registry} {t : FieldType} (h : r.shadowing? t = none) :
    t.exposed r = t :: exposedAll r t.parts := by
  cases t <;> simp [exposed, h, parts, exposedAll]

/-- A model may only stand in for a type with a name of its own, and such a type does not offend. -/
theorem offends_of_shadowing {r : Registry} {t : FieldType} {m : Model}
    (h : r.shadowing? t = some m) : offends r t = false := by
  unfold offends
  split
  next => cases h
  next => cases h
  next => rfl

theorem offender?_of_shadowing {r : Registry} {t : FieldType} {m : Model}
    (h : r.shadowing? t = some m) : t.offender? r = none := by
  rw [offender?, exposed_of_shadowing h, List.find?_singleton, offends_of_shadowing h]
  rfl

theorem offender?_of_parts {r : Registry} {t : FieldType} (h : r.shadowing? t = none)
    (ht : offends r t = false) :
    t.offender? r = (exposedAll r t.parts).find? (offends r) := by
  rw [offender?, exposed_of_not_shadowing h, List.find?_cons, ht]

theorem offender?_of_offends {r : Registry} {t : FieldType} (h : r.shadowing? t = none)
    (ht : offends r t = true) : t.offender? r = some t := by
  rw [offender?, exposed_of_not_shadowing h, List.find?_cons, ht]

/-! ## 2. Spelling up to the first offender -/

/-- What spelling comes to: the fault of the first part that offends, or else an answer. -/
def Spelt {α : Type} (d : Dialect) (offender? : Option FieldType)
    (answer : Except Unspellable α) : Prop :=
  match offender? with
  | some part => answer = .error ⟨part.text, d.language⟩
  | none => ∃ s, answer = .ok s

theorem Spelt.map {α β : Type} {d : Dialect} {offender? : Option FieldType}
    {answer : Except Unspellable α} (h : Spelt d offender? answer) (f : α → β) :
    Spelt d offender? (answer.map f) := by
  cases offender? with
  | some part =>
    obtain rfl : answer = .error ⟨part.text, d.language⟩ := h
    rfl
  | none =>
    obtain ⟨s, rfl⟩ := h
    exact ⟨f s, rfl⟩

theorem Spelt.eq_error_iff {α : Type} {d : Dialect} {offender? : Option FieldType}
    {answer : Except Unspellable α} (h : Spelt d offender? answer) {u : Unspellable} :
    answer = .error u ↔ ∃ part, offender? = some part ∧ u = ⟨part.text, d.language⟩ := by
  cases offender? with
  | some part =>
    obtain rfl : answer = .error ⟨part.text, d.language⟩ := h
    rw [Except.error.injEq]
    simp [eq_comm]
  | none =>
    obtain ⟨s, rfl⟩ := h
    simp

theorem Spelt.exists_ok_iff {α : Type} {d : Dialect} {offender? : Option FieldType}
    {answer : Except Unspellable α} (h : Spelt d offender? answer) :
    (∃ s, answer = .ok s) ↔ offender? = none := by
  cases offender? with
  | some part =>
    obtain rfl : answer = .error ⟨part.text, d.language⟩ := h
    simp
  | none => exact iff_of_true h rfl

/-- What comes first decides, unless it can be spelled. -/
theorem Spelt.cons {d : Dialect} {r : Registry} {t : FieldType} {rest : List FieldType}
    {first? more? : Option FieldType} (ht : Spelt d first? (t.spell d r))
    (hrest : Spelt d more? (spellAll d r rest)) :
    Spelt d (first?.or more?) (spellAll d r (t :: rest)) := by
  rw [spellAll]
  cases first? with
  | some part =>
    have hfault : t.spell d r = .error ⟨part.text, d.language⟩ := ht
    rw [hfault]
    rfl
  | none =>
    obtain ⟨s, hs⟩ := ht
    rw [hs, Option.none_or]
    cases more? with
    | some part =>
      have hfault : spellAll d r rest = .error ⟨part.text, d.language⟩ := hrest
      rw [hfault]
      rfl
    | none =>
      obtain ⟨ss, hss⟩ := hrest
      rw [hss]
      exact ⟨s :: ss, rfl⟩

theorem spell_of_shadowing {d : Dialect} {r : Registry} {t : FieldType} {m : Model}
    (h : r.shadowing? t = some m) : t.spell d r = .ok m.name := by
  rw [spell.eq_def, h]

theorem spelt_of_shadowing {d : Dialect} {r : Registry} {t : FieldType} {m : Model}
    (h : r.shadowing? t = some m) : Spelt d (t.offender? r) (t.spell d r) := by
  rw [offender?_of_shadowing h, spell_of_shadowing h]
  exact ⟨m.name, rfl⟩

theorem spelt_model (d : Dialect) (r : Registry) (name : String) :
    Spelt d ((model name).offender? r) ((model name).spell d r) := by
  have h : r.shadowing? (.model name) = none := rfl
  rw [spell, h]
  cases hget : r.get? name with
  | some m =>
    have ht : offends r (.model name) = false := by rw [offends, hget]; rfl
    rw [offender?_of_parts h ht]
    exact ⟨m.name, rfl⟩
  | none =>
    have ht : offends r (.model name) = true := by rw [offends, hget]; rfl
    rw [offender?_of_offends h ht]
    rfl

mutual

theorem spelt_spell (d : Dialect) (r : Registry) (t : FieldType) :
    Spelt d (t.offender? r) (t.spell d r) := by
  cases h : r.shadowing? t with
  | some m => exact spelt_of_shadowing h
  | none =>
    match t, h with
    | .listOf element, h =>
      rw [offender?_of_parts h rfl, parts, exposedAll, exposedAll, List.append_nil, spell, h]
      exact (spelt_spell d r element).map _
    | .mapOf value, h =>
      rw [offender?_of_parts h rfl, parts, exposedAll, exposedAll, List.append_nil, spell, h]
      exact (spelt_spell d r value).map _
    | .tuple [], h =>
      rw [offender?_of_parts h rfl, spell, h]
      exact ⟨_, rfl⟩
    | .tuple (t :: rest), h =>
      rw [offender?_of_parts h rfl, spell, h]
      exact (spelt_spellAll d r (t :: rest)).map _
    | .union [], h =>
      rw [offender?_of_offends h rfl, spell, h]
      rfl
    | .union (t :: rest), h =>
      rw [offender?_of_parts h rfl, spell, h]
      exact (spelt_spellAll d r (t :: rest)).map _
    | .model name, _ => exact spelt_model d r name
    | .null, h | .boolean, h | .string, h | .integer, h | .number, h | .bytes, h | .any, h
    | .untypedList, h | .untypedMap, h =>
      rw [offender?_of_parts h rfl, spell, h]
      exact ⟨_, rfl⟩

theorem spelt_spellAll (d : Dialect) (r : Registry) (ts : List FieldType) :
    Spelt d ((exposedAll r ts).find? (offends r)) (spellAll d r ts) := by
  match ts with
  | [] =>
    rw [spellAll]
    exact ⟨[], rfl⟩
  | t :: rest =>
    rw [exposedAll, List.find?_append]
    exact (spelt_spell d r t).cons (spelt_spellAll d r rest)

end

theorem spell_eq_error_iff {d : Dialect} {r : Registry} {t : FieldType} {u : Unspellable} :
    t.spell d r = .error u ↔
      ∃ part, t.offender? r = some part ∧ u = ⟨part.text, d.language⟩ :=
  (spelt_spell d r t).eq_error_iff

theorem exists_spell_iff {d : Dialect} {r : Registry} {t : FieldType} :
    (∃ s, t.spell d r = .ok s) ↔ t.offender? r = none :=
  (spelt_spell d r t).exists_ok_iff

/-! ## 3. All languages alike -/

/-- In the order of writing, the first part without a spelling, and its text. -/
def IsFirstOffence (r : Registry) (t : FieldType) (value : String) : Prop :=
  ∃ before part after, t.exposed r = before ++ part :: after ∧ value = part.text ∧
    (∀ p ∈ before, offends r p = false) ∧
    ((∃ name, part = .model name ∧ r.get? name = none) ∨ part = .union [])

theorem isFirstOffence_iff {r : Registry} {t : FieldType} {value : String} :
    IsFirstOffence r t value ↔ ∃ part, t.offender? r = some part ∧ value = part.text := by
  simp only [IsFirstOffence, ← offends_iff, offender?, List.find?_eq_some_iff_append]
  constructor
  · rintro ⟨before, part, after, hsplit, hvalue, hbefore, hpart⟩
    exact ⟨part, ⟨hpart, before, after, hsplit, fun p hp => by simp [hbefore p hp]⟩, hvalue⟩
  · rintro ⟨part, ⟨hpart, before, after, hsplit, hbefore⟩, hvalue⟩
    exact ⟨before, part, after, hsplit, hvalue, fun p hp => by simpa using hbefore p hp, hpart⟩

theorem spell_dialect_eq_error_iff (language : Language) {r : Registry} {t : FieldType}
    {u : Unspellable} : t.spell language.dialect r = .error u ↔
      u.language = language ∧ IsFirstOffence r t u.value := by
  rw [spell_eq_error_iff, isFirstOffence_iff, language.language_dialect]
  constructor
  · rintro ⟨part, hpart, rfl⟩
    exact ⟨rfl, part, hpart, rfl⟩
  · rintro ⟨rfl, part, hpart, hvalue⟩
    exact ⟨part, hpart, by rw [← hvalue]⟩

/-- A type has a spelling in both languages or in none. Then both report the same value, the first
model without a registration or union without members that is not hidden in a type for which a
registered model stands in. -/
theorem spell_fails_alike (r : Registry) (t : FieldType) :
    ((∃ s, t.spell .python r = .ok s) ↔ ∃ s, t.spell .typeScript r = .ok s) ∧
    (∀ value, t.spell .python r = .error ⟨value, .python⟩ ↔
      t.spell .typeScript r = .error ⟨value, .typeScript⟩) ∧
    ∀ (language : Language) (u : Unspellable), t.spell language.dialect r = .error u ↔
      u.language = language ∧ IsFirstOffence r t u.value := by
  refine ⟨?_, fun value => ?_, fun language u => spell_dialect_eq_error_iff language⟩
  · rw [exists_spell_iff, exists_spell_iff]
  · have hpython : t.spell .python r = .error ⟨value, .python⟩ ↔ _ :=
      spell_dialect_eq_error_iff .python
    have htypeScript : t.spell .typeScript r = .error ⟨value, .typeScript⟩ ↔ _ :=
      spell_dialect_eq_error_iff .typeScript
    rw [hpython, htypeScript]
    simp

end FieldType

/-! ## 4. Registries with the same names -/

/-- What a look-up finds is known by name as soon as the names are. -/
theorem Registry.map_name_get? {r r' : Registry}
    (h : ∀ name, r.contains name = r'.contains name) (name : String) :
    (r.get? name).map Model.name = (r'.get? name).map Model.name := by
  have hname := h name
  rw [contains, contains] at hname
  cases hm : r.get? name with
  | none =>
    rw [hm, Option.isSome_none, eq_comm, Option.isSome_eq_false_iff, Option.isNone_iff_eq_none]
      at hname
    rw [hname]
  | some m =>
    rw [hm, Option.isSome_some, eq_comm, Option.isSome_iff_exists] at hname
    obtain ⟨m', hm'⟩ := hname
    rw [hm', Option.map_some, Option.map_some, name_of_get? hm, name_of_get? hm']

theorem Registry.map_name_shadowing? {r r' : Registry}
    (h : ∀ name, r.contains name = r'.contains name) (t : FieldType) :
    (r.shadowing? t).map Model.name = (r'.shadowing? t).map Model.name := by
  rw [shadowing?, shadowing?, Option.map_bind, Option.map_bind]
  exact congrArg _ (funext (map_name_get? h))

namespace FieldType
variable {d : Dialect} {r r' : Registry}

theorem spell_congr_of_shadowing {t : FieldType} {m : Model} (hm : r.shadowing? t = some m)
    (h : (r.shadowing? t).map Model.name = (r'.shadowing? t).map Model.name) :
    t.spell d r = t.spell d r' := by
  rw [hm, Option.map_some, eq_comm, Option.map_eq_some_iff] at h
  obtain ⟨m', hm', hname⟩ := h
  rw [spell_of_shadowing hm, spell_of_shadowing hm', hname]

mutual

/-- Of the models in a registry only the names are written. -/
theorem spell_congr (h : ∀ name, r.contains name = r'.contains name) (t : FieldType) :
    t.spell d r = t.spell d r' := by
  have hshadowing := Registry.map_name_shadowing? h t
  cases hs : r.shadowing? t with
  | some m => exact spell_congr_of_shadowing hs hshadowing
  | none =>
    rw [hs, Option.map_none, eq_comm, Option.map_eq_none_iff] at hshadowing
    match t, hs, hshadowing with
    | .listOf inner, hs, hs' | .mapOf inner, hs, hs' =>
      rw [spell, hs, spell, hs', spell_congr h inner]
    | .tuple (first :: rest), hs, hs' | .union (first :: rest), hs, hs' =>
      rw [spell, hs, spell, hs', spellAll_congr h (first :: rest)]
    | .model name, hs, hs' =>
      rw [spell, hs, spell, hs']
      have hname := Registry.map_name_get? h name
      cases hm : r.get? name with
      | none =>
        rw [hm, Option.map_none, eq_comm, Option.map_eq_none_iff] at hname
        rw [hname]
      | some m =>
        rw [hm, Option.map_some, eq_comm, Option.map_eq_some_iff] at hname
        obtain ⟨m', hm', hname⟩ := hname
        rw [hm']
        exact congrArg Except.ok hname.symm
    | .null, hs, hs' | .boolean, hs, hs' | .string, hs, hs' | .integer, hs, hs'
    | .number, hs, hs' | .bytes, hs, hs' | .any, hs, hs' | .untypedList, hs, hs'
    | .untypedMap, hs, hs' | .tuple [], hs, hs' | .union [], hs, hs' =>
      rw [spell, hs, spell, hs']

theorem spellAll_congr (h : ∀ name, r.contains name = r'.contains name) (ts : List FieldType) :
    spellAll d r ts = spellAll d r' ts := by
  match ts with
  | [] => rfl
  | t :: rest => rw [spellAll, spellAll, spell_congr h t, spellAll_congr h rest]

end

end FieldType

end MediaCatalog
