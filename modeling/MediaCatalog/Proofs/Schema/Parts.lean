import Mathlib.Data.List.Forall2
import MediaCatalog.Proofs.Schema.Spelling

/-!
# Parts — the text of a type stands around those of its parts

Unless a model stands in for it, a type is spelled just when its parts are and it does not offend
itself (`spell_eq_ok_iff`). What holds of the texts of all types is shown from this by induction on
parts.
-/

namespace MediaCatalog

theorem exists_of_forall₂ {α β : Type} {R : α → β → Prop} {as : List α} {bs : List β}
    (h : List.Forall₂ R as bs) {a : α} (ha : a ∈ as) : ∃ b ∈ bs, R a b := by
  induction h with
  | nil => cases ha
  | cons hfirst _ ih =>
    obtain rfl | ha := List.mem_cons.mp ha
    · exact ⟨_, List.mem_cons_self, hfirst⟩
    · obtain ⟨b, hb, hab⟩ := ih ha
      exact ⟨b, List.mem_cons_of_mem _ hb, hab⟩

namespace FieldType

/-! ## 1. Induction on parts -/

theorem sizeOf_of_mem_parts {t p : FieldType} (h : p ∈ t.parts) : sizeOf p < sizeOf t := by
  cases t with
  | listOf inner | mapOf inner =>
    rw [List.mem_singleton.mp h]
    simp
  | tuple ts | union ts =>
    have : sizeOf p < sizeOf ts := List.sizeOf_lt_of_mem h
    simp
    omega
  | _ => cases h

/-- A type has a property if it follows from that of its parts. -/
theorem parts_induction {P : FieldType → Prop} (step : ∀ t, (∀ p ∈ t.parts, P p) → P t)
    (t : FieldType) : P t := by
  apply step
  intro p hp
  have := sizeOf_of_mem_parts hp
  exact parts_induction step p
termination_by sizeOf t

/-! ## 2. Spellings of several types -/

/-- The spellings of types, one of each. -/
def Spellings (d : Dialect) (r : Registry) : List FieldType → List String → Prop :=
  List.Forall₂ fun t text => t.spell d r = .ok text

variable {d : Dialect} {r : Registry}

theorem spellAll_eq_ok_iff {ts : List FieldType} {texts : List String} :
    spellAll d r ts = .ok texts ↔ Spellings d r ts texts := by
  induction ts generalizing texts with
  | nil =>
    rw [spellAll, Spellings, List.forall₂_nil_left_iff, Except.ok.injEq]
    exact eq_comm
  | cons t rest ih =>
    rw [spellAll, Spellings, List.forall₂_cons_left_iff]
    constructor
    · intro h
      split at h
      next => cases h
      next text ht =>
        split at h
        next => cases h
        next texts hrest =>
          cases h
          exact ⟨text, texts, ht, ih.mp hrest, rfl⟩
    · rintro ⟨text, texts, ht, hrest, rfl⟩
      rw [ht, ih.mpr hrest]

namespace Spellings
variable {ts : List FieldType} {texts texts' : List String}

theorem singleton_iff {t : FieldType} :
    Spellings d r [t] texts ↔ ∃ text, t.spell d r = .ok text ∧ texts = [text] := by
  rw [Spellings, List.forall₂_cons_left_iff]
  simp only [List.forall₂_nil_left_iff]
  constructor
  · rintro ⟨text, _, h, rfl, rfl⟩
    exact ⟨text, h, rfl⟩
  · rintro ⟨text, h, rfl⟩
    exact ⟨text, [], h, rfl, rfl⟩

/-- Other types have the same spellings if each of them is spelled as that in its place. -/
theorem map (h : Spellings d r ts texts) {d' : Dialect} {r' : Registry} {f : FieldType → FieldType}
    (hts : ∀ t ∈ ts, ∀ text, t.spell d r = .ok text → (f t).spell d' r' = .ok text) :
    Spellings d' r' (ts.map f) texts := by
  rw [Spellings, List.forall₂_map_left_iff]
  exact ((List.forall₂_and_left _ _).mpr ⟨hts, h⟩).imp fun t text ht => ht.1 text ht.2

/-- Of a type in the list there is a spelling among the texts. -/
theorem exists_mem (h : Spellings d r ts texts) {t : FieldType} (ht : t ∈ ts) :
    ∃ text ∈ texts, t.spell d r = .ok text :=
  exists_of_forall₂ h ht

theorem exists_of_mem (h : Spellings d r ts texts) {text : String} (htext : text ∈ texts) :
    ∃ t ∈ ts, t.spell d r = .ok text :=
  exists_of_forall₂ h.flip htext

theorem unique (h : Spellings d r ts texts) (h' : Spellings d r ts texts') : texts = texts' := by
  refine List.right_unique_forall₂' (fun t text text' ht ht' => ?_) h h'
  rw [ht, Except.ok.injEq] at ht'
  exact ht'

end Spellings

/-! ## 3. The text around its parts -/

/-- The text of a type, from the texts of its parts. -/
def frame (d : Dialect) (texts : List String) : FieldType → String
  | .null => d.null
  | .boolean => d.boolean
  | .string => d.string
  | .integer => d.integer
  | .number => d.number
  | .bytes => d.bytes
  | .any => d.any
  | .untypedList => d.untypedList
  | .listOf _ => d.list.around (", ".intercalate texts)
  | .tuple [] => d.emptyTuple
  | .tuple _ => d.tuple.around (", ".intercalate texts)
  | .untypedMap => d.untypedMap
  | .mapOf _ => d.map.around (", ".intercalate texts)
  | .union _ => Dialect.alternativeSign.intercalate texts
  | .model name => name

theorem spell_eq_ok_iff {t : FieldType} (hs : r.shadowing? t = none) {text : String} :
    t.spell d r = .ok text ↔
      offends r t = false ∧ ∃ texts, Spellings d r t.parts texts ∧ text = t.frame d texts := by
  have hmap {α : Type} {f : α → String} {answer : Except Unspellable α} :
      answer.map f = .ok text ↔ ∃ a, answer = .ok a ∧ text = f a := by
    cases answer with
    | error u => simp [Except.map]
    | ok a => simp [Except.map, eq_comm]
  match t, hs with
  | .listOf inner, hs | .mapOf inner, hs =>
    rw [spell, hs, parts]
    simp only [hmap, Spellings.singleton_iff, offends, true_and, frame]
    constructor
    · rintro ⟨inner, hinner, rfl⟩
      exact ⟨[inner], ⟨inner, hinner, rfl⟩, by rw [String.intercalate_singleton]⟩
    · rintro ⟨_, ⟨inner, hinner, rfl⟩, rfl⟩
      exact ⟨inner, hinner, by rw [String.intercalate_singleton]⟩
  | .tuple (first :: rest), hs | .union (first :: rest), hs =>
    rw [spell, hs]
    simp only [hmap, spellAll_eq_ok_iff, offends, true_and, parts, frame]
  | .union [], hs =>
    rw [spell, hs]
    simp [offends]
  | .model name, hs =>
    rw [spell, hs]
    cases hm : r.get? name with
    | none => simp [offends, hm]
    | some m =>
      simp [offends, hm, Spellings, parts, frame, Registry.name_of_get? hm, eq_comm]
  | .null, hs | .boolean, hs | .string, hs | .integer, hs | .number, hs | .bytes, hs | .any, hs
  | .untypedList, hs | .untypedMap, hs | .tuple [], hs =>
    rw [spell, hs]
    simp [offends, Spellings, parts, frame, eq_comm]

end FieldType

end MediaCatalog
