import Mathlib.Data.List.Forall2
import Mathlib.Data.List.TakeWhile
import MediaCatalog.Proofs.Schema.Spelling
import MediaCatalog.Schema.Model

/-!
# The subset — which schemas give a type, and what is to blame in one that does not

`HasType` writes down which schemas give a type, and which type, without a reader. The type of a
schema is made of those of other schemas in it (`sources`), which are found one after the other
(`ofSchema_composed`). If a schema gives no type, then one of its fragments is at fault by itself,
and of these the first is reported (`ofSchema_eq_error_iff`).
-/

namespace MediaCatalog.FieldType

/-! ## 1. The subset -/

/-- What stands behind the last slash of a reference, the whole reference if it has none. -/
def IsLastPart (reference name : String) : Prop :=
  '/' ∉ name.toList ∧
    (reference = name ∨ ∃ front, reference.toList = front ++ '/' :: name.toList)

/-- The schemas that give a type, and the type. -/
inductive HasType : Json → FieldType → Prop where
  | boolean {ms : Json.Members} (type : ms.get? "type" = some (.string "boolean")) :
    HasType (.object ms) .boolean
  | string {ms : Json.Members} (type : ms.get? "type" = some (.string "string"))
      (format : ms.get? "format" ≠ some (.string "binary")) : HasType (.object ms) .string
  | bytes {ms : Json.Members} (type : ms.get? "type" = some (.string "string"))
      (format : ms.get? "format" = some (.string "binary")) : HasType (.object ms) .bytes
  | integer {ms : Json.Members} (type : ms.get? "type" = some (.string "integer")) :
    HasType (.object ms) .integer
  | number {ms : Json.Members} (type : ms.get? "type" = some (.string "number")) :
    HasType (.object ms) .number
  | untypedList {ms : Json.Members} (type : ms.get? "type" = some (.string "array"))
      (items : ms.get? "items" = none ∨ ms.get? "items" = some .null ∨
        ms.get? "items" = some (.object [])) : HasType (.object ms) .untypedList
  | listOf {ms : Json.Members} {items : Json} {t : FieldType}
      (type : ms.get? "type" = some (.string "array")) (found : ms.get? "items" = some items)
      (element : HasType items t) : HasType (.object ms) (.listOf t)
  | untypedMap {ms : Json.Members} (type : ms.get? "type" = some (.string "object"))
      (values : ms.get? "additionalProperties" = some (.bool true) ∨
        ms.get? "additionalProperties" = some (.object [])) : HasType (.object ms) .untypedMap
  | mapOf {ms values : Json.Members} {t : FieldType}
      (type : ms.get? "type" = some (.string "object"))
      (found : ms.get? "additionalProperties" = some (.object values)) (nonempty : values ≠ [])
      (value : HasType (.object values) t) : HasType (.object ms) (.mapOf t)
  | model {ms : Json.Members} {reference name : String} (type : ms.get? "type" = none)
      (found : ms.get? "$ref" = some (.string reference)) (last : IsLastPart reference name) :
    HasType (.object ms) (.model name)
  | single {ms : Json.Members} {schema : Json} {t : FieldType} (type : ms.get? "type" = none)
      (reference : ∀ reference, ms.get? "$ref" ≠ some (.string reference))
      (found : ms.get? "allOf" = some (.array [schema])) (member : HasType schema t) :
    HasType (.object ms) t
  /-- The members with their types. -/
  | union {ms : Json.Members} {typed : List (Json × FieldType)} (type : ms.get? "type" = none)
      (reference : ∀ reference, ms.get? "$ref" ≠ some (.string reference))
      (found : ms.get? "allOf" = some (.array (typed.map Prod.fst)))
      (several : 2 ≤ typed.length) (members : ∀ p ∈ typed, HasType p.1 p.2) :
    HasType (.object ms) (.union (typed.map Prod.snd))

theorem isLastPart_referenceName (reference : String) :
    IsLastPart reference (referenceName reference) := by
  have hname : (referenceName reference).toList =
      (reference.toList.reverse.takeWhile (· != '/')).reverse := by
    rw [referenceName, Text.afterLastSlash, String.toList_ofList]
  have hsplit : reference.toList =
      (reference.toList.reverse.dropWhile (· != '/')).reverse ++
        (referenceName reference).toList := by
    rw [hname, ← List.reverse_append, List.takeWhile_append_dropWhile, List.reverse_reverse]
  refine ⟨?_, ?_⟩
  · rw [hname, List.mem_reverse]
    intro hslash
    have hne := List.mem_takeWhile_imp hslash
    simp at hne
  · cases hrest : reference.toList.reverse.dropWhile (· != '/') with
    | nil =>
      rw [hrest, List.reverse_nil, List.nil_append] at hsplit
      exact Or.inl (String.toList_injective hsplit)
    | cons c front =>
      have hc : c = '/' := by
        have hslash := List.head_dropWhile_not (· != '/') (l := reference.toList.reverse)
          (by rw [hrest]; exact List.cons_ne_nil c front)
        simpa [hrest] using hslash
      rw [hrest, hc, List.reverse_cons, List.append_assoc, List.singleton_append] at hsplit
      exact Or.inr ⟨front.reverse, hsplit⟩

theorem IsLastPart.eq_referenceName {reference name : String} (h : IsLastPart reference name) :
    name = referenceName reference := by
  obtain ⟨hname, hreference⟩ := h
  have hpart : ∀ c ∈ name.toList.reverse, (c != '/') = true := by
    intro c hc
    rw [bne_iff_ne]
    rintro rfl
    exact hname (List.mem_reverse.mp hc)
  have htake : reference.toList.reverse.takeWhile (· != '/') = name.toList.reverse := by
    rcases hreference with rfl | ⟨front, hfront⟩
    · exact List.takeWhile_eq_self_iff.mpr hpart
    · rw [hfront, List.reverse_append, List.reverse_cons, List.append_assoc,
        List.takeWhile_append_of_pos hpart, List.singleton_append,
        List.takeWhile_cons_of_neg (by simp), List.append_nil]
  rw [referenceName, Text.afterLastSlash, htake, List.reverse_reverse, String.ofList_toList]

/-! ## 2. Fragments -/

/-- The schemas whose types the type of a schema is made of, from left to right. -/
def sources : Json → List Json
  | .object ms =>
    match Json.Members.get? "type" ms with
    | some (.string "array") =>
      match Json.Members.get? "items" ms with
      | none | some .null | some (.object []) => []
      | some items => [items]
    | some (.string "object") =>
      match Json.Members.get? "additionalProperties" ms with
      | some (.object (m :: rest)) => [.object (m :: rest)]
      | _ => []
    | some _ => []
    | none =>
      match Json.Members.get? "$ref" ms, Json.Members.get? "allOf" ms with
      | some (.string _), _ => []
      | _, some (.array schemas) => schemas
      | _, _ => []
  | _ => []

theorem sizeOf_sources {v w : Json} (h : w ∈ sources v) : sizeOf w < sizeOf v := by
  unfold sources at h
  split at h
  next ms =>
    have hmember {key : String} {v : Json} (hv : Json.Members.get? key ms = some v) :
        sizeOf v < sizeOf (Json.object ms) := by
      have := Json.Members.sizeOf_get? hv
      rwa [Json.object.sizeOf_spec]
    split at h
    next =>
      split at h
      next => cases h
      next => cases h
      next => cases h
      next items _ _ found =>
        rw [List.mem_singleton.mp h]
        exact hmember found
    next =>
      split at h
      next hvalues =>
        rw [List.mem_singleton.mp h]
        exact hmember hvalues
      next => cases h
    next => cases h
    next =>
      split at h
      next => cases h
      next schemas found _ =>
        have := List.sizeOf_lt_of_mem h
        have := hmember found
        rw [Json.array.sizeOf_spec] at this
        omega
      next => cases h
  next => cases h

/-- A schema, then its sources and theirs, from left to right. -/
def fragments (v : Json) : List Json :=
  v :: (sources v).attach.flatMap fun ⟨w, _⟩ => fragments w
termination_by sizeOf v
decreasing_by exact sizeOf_sources ‹_›

theorem fragments_eq (v : Json) : fragments v = v :: (sources v).flatMap fragments := by
  rw [fragments]
  simp

/-- What an answer for a schema is made of: the first fault of its sources, or their types. -/
def Composed (v : Json) (answer : Except Untyped FieldType) : Prop :=
  (∃ u, ofSchemas (sources v) = .error u ∧ answer = .error u) ∨
    ∃ types, ofSchemas (sources v) = .ok types ∧
      (answer = .error ⟨v⟩ ∨
        ∃ t, answer = .ok t ∧ (List.Forall₂ HasType (sources v) types → HasType v t))

theorem ofSchemas_nil : ofSchemas [] = .ok [] := by
  rw [ofSchemas]

theorem composed_of_typed {v : Json} {t : FieldType} (hsources : sources v = [])
    (h : HasType v t) : Composed v (.ok t) :=
  Or.inr ⟨[], by rw [hsources, ofSchemas_nil], Or.inr ⟨t, rfl, fun _ => h⟩⟩

theorem composed_of_untyped {v : Json} (hsources : sources v = []) : Composed v (.error ⟨v⟩) :=
  Or.inr ⟨[], by rw [hsources, ofSchemas_nil], Or.inl rfl⟩

theorem composed_of_single {v w : Json} {f : FieldType → FieldType} (hsources : sources v = [w])
    (h : ∀ t, HasType w t → HasType v (f t)) : Composed v ((ofSchema w).map f) := by
  unfold Composed
  rw [hsources, ofSchemas]
  cases ofSchema w with
  | error u => exact Or.inl ⟨u, rfl, rfl⟩
  | ok t =>
    rw [ofSchemas_nil]
    refine Or.inr ⟨[t], rfl, Or.inr ⟨f t, rfl, fun htypes => ?_⟩⟩
    cases htypes with
    | cons ht _ => exact h t ht

theorem composed_of_several {v : Json} {ws : List Json} (hsources : sources v = ws)
    (hsingle : ∀ w t, ws = [w] → HasType w t → HasType v t)
    (hunion : ∀ types, 2 ≤ types.length → List.Forall₂ HasType ws types →
      HasType v (.union types)) :
    Composed v (match ofSchemas ws with
      | .error u => .error u
      | .ok [] => .error ⟨v⟩
      | .ok [t] => .ok t
      | .ok types => .ok (.union types)) := by
  unfold Composed
  rw [hsources]
  split
  next u hfault => exact Or.inl ⟨u, hfault, rfl⟩
  next htypes => exact Or.inr ⟨[], htypes, Or.inl rfl⟩
  next t htypes =>
    refine Or.inr ⟨[t], htypes, Or.inr ⟨t, rfl, fun hmembers => ?_⟩⟩
    cases hmembers with
    | cons ht hrest =>
      cases hrest
      exact hsingle _ t rfl ht
  next types hempty hsingleton htypes =>
    refine Or.inr ⟨types, htypes, Or.inr ⟨.union types, rfl, hunion types ?_⟩⟩
    obtain _ | ⟨t, _ | ⟨u, rest⟩⟩ := types
    · exact absurd rfl hempty
    · exact absurd rfl (hsingleton t)
    · simp

theorem HasType.union_of_forall₂ {ms : Json.Members} {schemas : List Json}
    {types : List FieldType} (type : ms.get? "type" = none)
    (reference : ∀ reference, ms.get? "$ref" ≠ some (.string reference))
    (found : ms.get? "allOf" = some (.array schemas)) (several : 2 ≤ types.length)
    (members : List.Forall₂ HasType schemas types) : HasType (.object ms) (.union types) := by
  have hlength := members.length_eq
  have hschemas : (schemas.zip types).map Prod.fst = schemas :=
    List.map_fst_zip hlength.le
  have htypes : (schemas.zip types).map Prod.snd = types :=
    List.map_snd_zip hlength.ge
  rw [← htypes]
  refine .union type reference (by rw [hschemas]; exact found) ?_ ?_
  · rw [← List.length_map Prod.snd, htypes]
    exact several
  · rintro ⟨schema, t⟩ hp
    exact List.forall₂_zip members hp

/-- The cases are those of the reader, and in each the sources are what it goes on to read. -/
theorem ofSchema_composed (v : Json) : Composed v (ofSchema v) := by
  unfold ofSchema
  split
  next ms =>
    dsimp only
    split
    next type => exact composed_of_typed (by simp [sources, type]) (.boolean type)
    next type =>
      split
      next format => exact composed_of_typed (by simp [sources, type]) (.bytes type format)
      next format => exact composed_of_typed (by simp [sources, type]) (.string type format)
    next type => exact composed_of_typed (by simp [sources, type]) (.integer type)
    next type => exact composed_of_typed (by simp [sources, type]) (.number type)
    next type =>
      split
      next items =>
        exact composed_of_typed (by simp [sources, type, items]) (.untypedList type (Or.inl items))
      next items =>
        exact composed_of_typed (by simp [sources, type, items])
          (.untypedList type (Or.inr (Or.inl items)))
      next items =>
        exact composed_of_typed (by simp [sources, type, items])
          (.untypedList type (Or.inr (Or.inr items)))
      next items hnull hempty found =>
        refine composed_of_single ?_ fun t ht => .listOf type found ht
        simp only [sources, type, found]
    next type =>
      split
      next values =>
        exact composed_of_typed (by simp [sources, type, values])
          (.untypedMap type (Or.inl values))
      next values =>
        exact composed_of_typed (by simp [sources, type, values])
          (.untypedMap type (Or.inr values))
      next found =>
        exact composed_of_single (by simp [sources, type, found]) fun t ht =>
          .mapOf type found (by simp) ht
      next h1 h2 h3 =>
        refine composed_of_untyped ?_
        simp only [sources, type]
    next type =>
      refine composed_of_untyped ?_
      simp [sources, type]
    next type =>
      split
      next reference found =>
        exact composed_of_typed (by simp [sources, type, found])
          (.model type found (isLastPart_referenceName reference))
      next hreference =>
        split
        next schemas found =>
          have hsources : sources (.object ms) = schemas := by
            simp only [sources, type, found]
          refine composed_of_several hsources ?_ ?_
          · rintro w t rfl ht
            exact .single type hreference found ht
          · intro types hseveral hmembers
            exact .union_of_forall₂ type hreference found hseveral hmembers
        next hall =>
          refine composed_of_untyped ?_
          simp only [sources, type]
  next schema hschema =>
    refine composed_of_untyped ?_
    cases v with
    | object ms => exact absurd rfl (hschema ms)
    | null | bool | number | string | array => rfl

/-! ## 3. The type of a schema -/

theorem forall₂_of_ofSchemas {ws : List Json} {types : List FieldType}
    (h : ofSchemas ws = .ok types) :
    List.Forall₂ (fun w t => ofSchema w = .ok t) ws types := by
  induction ws generalizing types with
  | nil =>
    rw [ofSchemas_nil] at h
    cases h
    exact .nil
  | cons w rest ih =>
    rw [ofSchemas] at h
    split at h
    next => cases h
    next t ht =>
      split at h
      next => cases h
      next ts hts =>
        cases h
        exact .cons ht (ih hts)

theorem ofSchemas_of_forall₂ {ws : List Json} {types : List FieldType}
    (h : List.Forall₂ (fun w t => ofSchema w = .ok t) ws types) :
    ofSchemas ws = .ok types := by
  induction h with
  | nil => exact ofSchemas_nil
  | cons ht _ ih => rw [ofSchemas, ht, ih]

theorem split_of_ofSchemas {ws : List Json} {u : Untyped} (h : ofSchemas ws = .error u) :
    ∃ before w after, ws = before ++ w :: after ∧
      (∀ b ∈ before, ∃ t, ofSchema b = .ok t) ∧ ofSchema w = .error u := by
  induction ws with
  | nil =>
    rw [ofSchemas_nil] at h
    cases h
  | cons w rest ih =>
    rw [ofSchemas] at h
    split at h
    next u' hw =>
      cases h
      exact ⟨[], w, rest, rfl, by simp, hw⟩
    next t hw =>
      split at h
      next u' hrest =>
        cases h
        obtain ⟨before, w', after, rfl, hbefore, hw'⟩ := ih hrest
        refine ⟨w :: before, w', after, rfl, ?_, hw'⟩
        rintro b (_ | ⟨_, hb⟩)
        · exact ⟨t, hw⟩
        · exact hbefore b hb
      next => cases h

theorem hasType_of_ofSchema (v : Json) {t : FieldType} (h : ofSchema v = .ok t) :
    HasType v t := by
  have hcomposed := ofSchema_composed v
  rw [h] at hcomposed
  obtain ⟨u, -, hu⟩ | ⟨types, htypes, hfault | ⟨t', ht', htyped⟩⟩ := hcomposed
  · cases hu
  · cases hfault
  · cases ht'
    refine htyped (List.forall₂_iff_get.mpr ?_)
    obtain ⟨hlength, hget⟩ := List.forall₂_iff_get.mp (forall₂_of_ofSchemas htypes)
    refine ⟨hlength, fun i hv ht => ?_⟩
    have : sizeOf ((sources v).get ⟨i, hv⟩) < sizeOf v := sizeOf_sources (List.get_mem _ _)
    exact hasType_of_ofSchema _ (hget i hv ht)
termination_by sizeOf v

theorem not_hasType_empty {t : FieldType} : ¬HasType (.object []) t := by
  intro h
  cases h <;> simp_all [Json.Members.get?]

theorem ofSchema_of_hasType {v : Json} {t : FieldType} (h : HasType v t) :
    ofSchema v = .ok t := by
  induction h with
  | boolean type => simp only [ofSchema, type]
  | string type format => simp only [ofSchema, type, if_neg format]
  | bytes type format => simp only [ofSchema, type, if_pos format]
  | integer type => simp only [ofSchema, type]
  | number type => simp only [ofSchema, type]
  | untypedList type items =>
    simp only [ofSchema, type]
    split <;> simp_all
  | @listOf ms items t type found element ih =>
    simp only [ofSchema, type]
    split
    next hnone => simp [found] at hnone
    next hnull =>
      rw [found, Option.some.injEq] at hnull
      subst hnull
      cases element
    next hempty =>
      rw [found, Option.some.injEq] at hempty
      subst hempty
      exact absurd element not_hasType_empty
    next items' hnull hempty hitems =>
      rw [found, Option.some.injEq] at hitems
      rw [← hitems, ih]
      rfl
  | untypedMap type values =>
    rw [ofSchema]
    simp only [type]
    split <;> simp_all
  | @mapOf ms values t type found nonempty value ih =>
    rw [ofSchema]
    simp only [type]
    split
    next h => simp [found] at h
    next h => simp [found, nonempty] at h
    next m rest hvalues =>
      rw [found, Option.some.injEq] at hvalues
      rw [← hvalues, ih]
      rfl
    next h1 h2 h3 =>
      cases values with
      | nil => exact absurd rfl nonempty
      | cons m rest => exact absurd found (h3 m rest)
  | model type found last =>
    simp only [ofSchema, type, found, last.eq_referenceName]
  | single type reference found member ih =>
    rw [ofSchema]
    simp only [type]
    split
    next schemas hschemas =>
      rw [found, Option.some.injEq, Json.array.injEq] at hschemas
      rw [← hschemas, ofSchemas, ih, ofSchemas_nil]
    next h => exact absurd found (h _)
  | @union ms typed type reference found several members ih =>
    have htypes : ofSchemas (typed.map Prod.fst) = .ok (typed.map Prod.snd) := by
      refine ofSchemas_of_forall₂ ?_
      rw [List.forall₂_map_left_iff, List.forall₂_map_right_iff, List.forall₂_same]
      exact ih
    rw [ofSchema]
    simp only [type]
    split
    next schemas hschemas =>
      rw [found, Option.some.injEq, Json.array.injEq] at hschemas
      rw [← hschemas, htypes]
      obtain _ | ⟨p, _ | ⟨q, rest⟩⟩ := typed
      · cases several
      · exact absurd several (Nat.not_succ_le_self 1)
      · rfl
    next h => exact absurd found (h _)

theorem ofSchema_eq_ok_iff {v : Json} {t : FieldType} : ofSchema v = .ok t ↔ HasType v t :=
  ⟨hasType_of_ofSchema v, ofSchema_of_hasType⟩

/-! ## 4. The fault of a schema -/

/-- A schema without a type, although what its type would be made of has one. -/
def Unsupported (v : Json) : Prop :=
  (∀ t, ¬HasType v t) ∧ ∀ w ∈ sources v, ∃ t, HasType w t

/-- The first fragment that is itself unsupported. -/
def IsBlamed (v fragment : Json) : Prop :=
  ∃ before after, fragments v = before ++ fragment :: after ∧
    (∀ f ∈ before, ¬Unsupported f) ∧ Unsupported fragment

theorem HasType.not_unsupported {v : Json} {t : FieldType} (h : HasType v t) : ¬Unsupported v :=
  fun hv => hv.1 t h

theorem HasType.source {v w : Json} {t : FieldType} (h : HasType v t) (hw : w ∈ sources v) :
    ∃ t, HasType w t := by
  have hcomposed := ofSchema_composed v
  rw [ofSchema_eq_ok_iff.mpr h] at hcomposed
  obtain ⟨u, -, hu⟩ | ⟨types, htypes, -⟩ := hcomposed
  · cases hu
  · obtain ⟨i, hi, rfl⟩ := List.mem_iff_getElem.mp hw
    obtain ⟨hlength, hget⟩ := List.forall₂_iff_get.mp (forall₂_of_ofSchemas htypes)
    exact ⟨_, hasType_of_ofSchema _ (hget i hi (hlength ▸ hi))⟩

theorem mem_fragments {v f : Json} :
    f ∈ fragments v ↔ f = v ∨ ∃ w ∈ sources v, f ∈ fragments w := by
  rw [fragments_eq, List.mem_cons, List.mem_flatMap]

theorem HasType.fragment {v f : Json} {t : FieldType} (h : HasType v t) (hf : f ∈ fragments v) :
    ∃ t, HasType f t := by
  obtain rfl | ⟨w, hw, hfw⟩ := mem_fragments.mp hf
  · exact ⟨t, h⟩
  · have : sizeOf w < sizeOf v := sizeOf_sources hw
    obtain ⟨t', ht'⟩ := h.source hw
    exact ht'.fragment hfw
termination_by sizeOf v

theorem IsBlamed.of_source {v w fragment : Json} {before after : List Json}
    (hsources : sources v = before ++ w :: after) (hbefore : ∀ b ∈ before, ∃ t, HasType b t)
    (hw : ∀ t, ¬HasType w t) (h : IsBlamed w fragment) : IsBlamed v fragment := by
  obtain ⟨before', after', hfragments, hbefore', hfragment⟩ := h
  refine ⟨v :: before.flatMap fragments ++ before', after' ++ after.flatMap fragments, ?_, ?_,
    hfragment⟩
  · rw [fragments_eq, hsources, List.flatMap_append, List.flatMap_cons, hfragments]
    simp
  · intro f hf
    rw [List.cons_append, List.mem_cons, List.mem_append, List.mem_flatMap] at hf
    obtain rfl | ⟨b, hb, hfb⟩ | hf := hf
    · intro hv
      obtain ⟨t, ht⟩ := hv.2 w (by rw [hsources]; exact List.mem_append_right _ List.mem_cons_self)
      exact hw t ht
    · obtain ⟨t, ht⟩ := hbefore b hb
      obtain ⟨t', ht'⟩ := ht.fragment hfb
      exact ht'.not_unsupported
    · exact hbefore' f hf

theorem isBlamed_of_ofSchema {v : Json} {u : Untyped} (h : ofSchema v = .error u) :
    IsBlamed v u.fragment := by
  have huntyped {w : Json} {u : Untyped} (hw : ofSchema w = .error u) (t : FieldType) :
      ¬HasType w t := by
    intro ht
    rw [ofSchema_eq_ok_iff.mpr ht] at hw
    cases hw
  have hcomposed := ofSchema_composed v
  rw [h] at hcomposed
  obtain ⟨u', hfault, hu⟩ | ⟨types, htypes, hu | ⟨t, ht, -⟩⟩ := hcomposed
  · cases hu
    obtain ⟨before, w, after, hsources, hbefore, hw⟩ := split_of_ofSchemas hfault
    have : sizeOf w < sizeOf v :=
      sizeOf_sources (by rw [hsources]; exact List.mem_append_right _ List.mem_cons_self)
    refine .of_source hsources (fun b hb => ?_) (huntyped hw) (isBlamed_of_ofSchema hw)
    obtain ⟨t, ht⟩ := hbefore b hb
    exact ⟨t, hasType_of_ofSchema b ht⟩
  · cases hu
    refine ⟨[], (sources v).flatMap fragments, fragments_eq v, by simp, huntyped h, fun w hw => ?_⟩
    obtain ⟨i, hi, rfl⟩ := List.mem_iff_getElem.mp hw
    obtain ⟨hlength, hget⟩ := List.forall₂_iff_get.mp (forall₂_of_ofSchemas htypes)
    exact ⟨_, hasType_of_ofSchema _ (hget i hi (hlength ▸ hi))⟩
  · cases ht
termination_by sizeOf v

/-- Of two fragments one is not reported if the other comes first. -/
theorem IsBlamed.unique {v f g : Json} (hf : IsBlamed v f) (hg : IsBlamed v g) : f = g := by
  obtain ⟨before, after, hsplit, hbefore, hfault⟩ := hf
  obtain ⟨before', after', hsplit', hbefore', hfault'⟩ := hg
  classical
  have hfind : (fragments v).find? (fun w => decide (Unsupported w)) = some f :=
    List.find?_eq_some_iff_append.mpr
      ⟨by simpa using hfault, before, after, hsplit, fun b hb => by simpa using hbefore b hb⟩
  have hfind' : (fragments v).find? (fun w => decide (Unsupported w)) = some g :=
    List.find?_eq_some_iff_append.mpr
      ⟨by simpa using hfault', before', after', hsplit', fun b hb => by simpa using hbefore' b hb⟩
  rw [hfind] at hfind'
  exact Option.some.inj hfind'

theorem ofSchema_eq_error_iff {v : Json} {u : Untyped} :
    ofSchema v = .error u ↔ IsBlamed v u.fragment := by
  refine ⟨isBlamed_of_ofSchema, fun h => ?_⟩
  cases hanswer : ofSchema v with
  | error u' =>
    have heq : u'.fragment = u.fragment := (isBlamed_of_ofSchema hanswer).unique h
    rw [Except.error.injEq, Untyped.mk.injEq]
    exact heq
  | ok t =>
    obtain ⟨before, after, hsplit, -, hfault⟩ := h
    have hmem : u.fragment ∈ fragments v := by
      rw [hsplit]
      exact List.mem_append_right _ List.mem_cons_self
    obtain ⟨t', ht'⟩ := (hasType_of_ofSchema v hanswer).fragment hmem
    exact absurd hfault ht'.not_unsupported

/-! ## 5. What the type of a schema is made of -/

/-- A type, its parts, and theirs. -/
inductive Within (s : FieldType) : FieldType → Prop where
  | refl : Within s s
  | part {t p : FieldType} (isPart : p ∈ t.parts) (rest : Within s p) : Within s t

/-- Schemas give no null, no type that takes anything, no tuples, and no unions of fewer than two
members. -/
def Plain : FieldType → Prop
  | .null | .any | .tuple _ => False
  | .union members => 2 ≤ members.length
  | _ => True

theorem HasType.plain {v : Json} {t s : FieldType} (h : HasType v t) (hs : Within s t) :
    Plain s := by
  induction h with
  | boolean | string | bytes | integer | number | untypedList | untypedMap | model =>
    cases hs with
    | refl => trivial
    | part isPart _ => cases isPart
  | listOf _ _ _ ih | mapOf _ _ _ _ ih =>
    cases hs with
    | refl => trivial
    | part isPart rest =>
      rw [List.mem_singleton.mp isPart] at rest
      exact ih rest
  | single _ _ _ _ ih => exact ih hs
  | @union _ typed _ _ _ several _ ih =>
    cases hs with
    | refl =>
      have : (typed.map Prod.snd).length = typed.length := List.length_map _
      exact several.trans this.ge
    | part isPart rest =>
      obtain ⟨p, hp, rfl⟩ := List.mem_map.mp isPart
      exact ih p hp rest

/-- A schema gives a type just when it is in the subset, and otherwise the first fragment that is
itself unsupported is reported in its compact form. -/
theorem ofSchema_characterized (v : Json) :
    (∀ t, ofSchema v = .ok t ↔ HasType v t) ∧
    (∀ u, ofSchema v = .error u ↔ IsBlamed v u.fragment) ∧
    (∀ u, ofSchema v = .error u → (ModelFault.untyped u).message =
      "cannot resolve type of schema fragment: " ++ u.fragment.text) ∧
    ∀ t s, ofSchema v = .ok t → Within s t →
      s ≠ .null ∧ s ≠ .any ∧ (∀ items, s ≠ .tuple items) ∧
        ∀ members, s = .union members → 2 ≤ members.length := by
  refine ⟨fun t => ofSchema_eq_ok_iff, fun u => ofSchema_eq_error_iff, fun u _ => ?_, ?_⟩
  · rfl
  · intro t s ht hs
    have hplain : Plain s := (hasType_of_ofSchema v ht).plain hs
    refine ⟨?_, ?_, ?_, ?_⟩
    · rintro rfl
      exact hplain
    · rintro rfl
      exact hplain
    · rintro items rfl
      exact hplain
    · rintro members rfl
      exact hplain

end MediaCatalog.FieldType
