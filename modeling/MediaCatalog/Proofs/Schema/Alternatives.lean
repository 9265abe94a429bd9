import MediaCatalog.Proofs.Schema.Parts
import MediaCatalog.Proofs.Schema.Subset

/-!
# Alternatives — what an annotation lists, and where null is added

The sign between alternatives also stands between those of a union in a union, so a type is written
as its alternatives, all unions opened (`writes_alternatives`). The annotation of a property lists
these, and null behind them if the property asks for it and none of them is null.
-/

namespace MediaCatalog

theorem Text.intercalate_append (sep : String) {front back : List String} (hfront : front ≠ [])
    (hback : back ≠ []) : sep.intercalate (front ++ back) =
      sep.intercalate front ++ sep ++ sep.intercalate back := by
  induction front with
  | nil => exact absurd rfl hfront
  | cons first front ih =>
    cases front with
    | nil =>
      obtain ⟨next, back, rfl⟩ := List.exists_cons_of_ne_nil hback
      rw [List.singleton_append, String.intercalate_cons_cons, String.intercalate_singleton]
    | cons next front =>
      rw [List.cons_append, List.cons_append, String.intercalate_cons_cons, ← List.cons_append,
        ih (List.cons_ne_nil next front), String.intercalate_cons_cons]
      simp only [String.append_assoc]

namespace FieldType

/-! ## 1. The alternatives of a type -/

mutual

/-- The alternatives of a type, from left to right. A union in a union is opened, at any depth. -/
def alternatives : FieldType → List FieldType
  | .union members => alternativesAll members
  | t => [t]

def alternativesAll : List FieldType → List FieldType
  | [] => []
  | t :: rest => t.alternatives ++ alternativesAll rest

end

/-- A union is taken apart into its members, and any other type is left as it is. -/
theorem union_induction {P : FieldType → Prop} (single : ∀ t, (∀ members, t ≠ .union members) → P t)
    (union : ∀ members, (∀ t ∈ members, P t) → P (.union members)) (t : FieldType) : P t := by
  induction t using parts_induction with
  | step t ih =>
    by_cases ht : ∃ members, t = .union members
    · obtain ⟨members, rfl⟩ := ht
      exact union members ih
    · apply single
      rintro members rfl
      exact ht ⟨members, rfl⟩

theorem alternatives_of_ne_union {t : FieldType} (h : ∀ members, t ≠ .union members) :
    t.alternatives = [t] := by
  unfold alternatives
  split
  next members => exact absurd rfl (h members)
  next => rfl

theorem alternatives_union (members : List FieldType) :
    (union members).alternatives = members.flatMap alternatives := by
  have hall (ts : List FieldType) : alternativesAll ts = ts.flatMap alternatives := by
    induction ts with
    | nil => rfl
    | cons t rest ih => rw [alternativesAll, ih, List.flatMap_cons]
  rw [alternatives, hall]

theorem ne_union_of_mem_alternatives {t a : FieldType} (h : a ∈ t.alternatives)
    (members : List FieldType) : a ≠ .union members := by
  induction t using union_induction with
  | single t ht =>
    rw [alternatives_of_ne_union ht, List.mem_singleton] at h
    exact h ▸ ht members
  | union ms ih =>
    rw [alternatives_union, List.mem_flatMap] at h
    obtain ⟨m, hm, ha⟩ := h
    exact ih m hm ha

/-- Null in a list or in a map is no alternative. -/
theorem admitsNull_iff {t : FieldType} : t.admitsNull = true ↔ .null ∈ t.alternatives := by
  induction t using union_induction with
  | single t ht =>
    rw [alternatives_of_ne_union ht, List.mem_singleton]
    unfold admitsNull
    split
    next => simp
    next members => exact absurd rfl (ht members)
    next hnull _ => exact iff_of_false (by simp) fun h => hnull h.symm
  | union members ih =>
    have hany (ts : List FieldType) : anyAdmitsNull ts = ts.any admitsNull := by
      induction ts with
      | nil => rfl
      | cons t rest ih => rw [anyAdmitsNull, ih, List.any_cons]
    rw [alternatives_union, admitsNull, hany, List.any_eq_true, List.mem_flatMap]
    exact exists_congr fun member => and_congr_right (ih member)

instance (t : FieldType) : Decidable (.null ∈ t.alternatives) :=
  decidable_of_iff _ admitsNull_iff

/-- An alternative of a type is a part of it. -/
theorem within_of_mem_alternatives {t a : FieldType} (h : a ∈ t.alternatives) : Within a t := by
  induction t using union_induction with
  | single t ht =>
    rw [alternatives_of_ne_union ht, List.mem_singleton] at h
    exact h ▸ .refl
  | union members ih =>
    rw [alternatives_union, List.mem_flatMap] at h
    obtain ⟨member, hmember, ha⟩ := h
    exact .part hmember (ih member hmember ha)

/-! ## 2. The text of a list of alternatives -/

/-- The text is that of the types, with the sign of alternatives between them. There are some. -/
def Writes (d : Dialect) (r : Registry) (ts : List FieldType) (text : String) : Prop :=
  ∃ texts, Spellings d r ts texts ∧ texts ≠ [] ∧ text = Dialect.alternativeSign.intercalate texts

variable {d : Dialect} {r : Registry}

theorem spell_union_eq_ok_iff {members : List FieldType} {text : String} :
    (union members).spell d r = .ok text ↔ Writes d r members text := by
  have hs : r.shadowing? (.union members) = none := rfl
  rw [spell_eq_ok_iff hs]
  show (_ ∧ ∃ texts, Spellings d r members texts ∧
    text = Dialect.alternativeSign.intercalate texts) ↔ _
  constructor
  · rintro ⟨hoffends, texts, htexts, rfl⟩
    refine ⟨texts, htexts, ?_, rfl⟩
    rintro rfl
    obtain rfl := List.forall₂_nil_right_iff.mp htexts
    cases hoffends
  · rintro ⟨texts, htexts, hne, rfl⟩
    refine ⟨?_, texts, htexts, rfl⟩
    cases members with
    | nil => exact absurd (List.forall₂_nil_left_iff.mp htexts) hne
    | cons => rfl

theorem writes_singleton {t : FieldType} {text : String} (h : t.spell d r = .ok text) :
    Writes d r [t] text :=
  ⟨[text], .cons h .nil, List.cons_ne_nil _ _, String.intercalate_singleton.symm⟩

theorem Writes.append {front back : List FieldType} {text text' : String}
    (h : Writes d r front text) (h' : Writes d r back text') :
    Writes d r (front ++ back) (text ++ Dialect.alternativeSign ++ text') := by
  obtain ⟨texts, htexts, hne, rfl⟩ := h
  obtain ⟨texts', htexts', hne', rfl⟩ := h'
  exact ⟨texts ++ texts', List.rel_append htexts htexts', List.append_ne_nil_of_left_ne_nil hne _,
    (Text.intercalate_append _ hne hne').symm⟩

/-- Instead of a type one may write what is written alike. -/
theorem Writes.flatMap {ts : List FieldType} {f : FieldType → List FieldType} {text : String}
    (h : Writes d r ts text)
    (hf : ∀ t ∈ ts, ∀ text, t.spell d r = .ok text → Writes d r (f t) text) :
    Writes d r (ts.flatMap f) text := by
  obtain ⟨texts, htexts, hne, rfl⟩ := h
  induction htexts with
  | nil => exact absurd rfl hne
  | @cons t first ts texts ht hts ih =>
    obtain ⟨hfirst, hrest⟩ := List.forall_mem_cons.mp hf
    rw [List.flatMap_cons]
    cases hts with
    | nil =>
      rw [List.flatMap_nil, List.append_nil, String.intercalate_singleton]
      exact hfirst first ht
    | cons _ _ =>
      rw [String.intercalate_cons_cons]
      exact (hfirst first ht).append (ih hrest (List.cons_ne_nil _ _))

/-- A type is written as its alternatives. -/
theorem writes_alternatives {t : FieldType} {text : String} (h : t.spell d r = .ok text) :
    Writes d r t.alternatives text := by
  induction t using union_induction generalizing text with
  | single t ht =>
    rw [alternatives_of_ne_union ht]
    exact writes_singleton h
  | union members ih =>
    rw [alternatives_union]
    exact (spell_union_eq_ok_iff.mp h).flatMap fun member hmember _ htext => ih member hmember htext

theorem spell_null : FieldType.null.spell d r = .ok d.null := by
  rw [spell]
  rfl

/-- A type that one language spells is spelled by all. -/
theorem exists_spell_of_spell {text : String} {t : FieldType} (h : t.spell d r = .ok text)
    (d' : Dialect) : ∃ text, t.spell d' r = .ok text :=
  exists_spell_iff.mpr (exists_spell_iff.mp ⟨text, h⟩)

end FieldType

/-! ## 3. Annotations -/

open FieldType (Spellings)

namespace Property
variable {d : Dialect} {r : Registry} {p : Property}

/-- An annotation lists the alternatives of its type, and null behind them just when it is asked
for and is none of them. -/
structure Lists (d : Dialect) (r : Registry) (p : Property) (asksForNull : Prop)
    (listed : List String) : Prop where
  annotation : p.annotation d r = .ok (" | ".intercalate listed)
  listed : ∃ own, Spellings d r p.type.alternatives own ∧
    ((asksForNull ∧ .null ∉ p.type.alternatives) ∧ listed = own ++ [d.null] ∨
      ¬(asksForNull ∧ .null ∉ p.type.alternatives) ∧ listed = own)

theorem exists_lists {base : String} (h : p.type.spell d r = .ok base) :
    ∃ listed, p.Lists d r (p.mayBeNull d = true) listed := by
  obtain ⟨own, hown, hne, rfl⟩ := FieldType.writes_alternatives h
  have hcondition : (p.mayBeNull d && !p.type.admitsNull) = true ↔
      p.mayBeNull d = true ∧ .null ∉ p.type.alternatives := by
    rw [Bool.and_eq_true, Bool.not_eq_true', ← FieldType.admitsNull_iff, Bool.not_eq_true]
  by_cases hadd : p.mayBeNull d = true ∧ .null ∉ p.type.alternatives
  · refine ⟨own ++ [d.null], ?_, own, hown, Or.inl ⟨hadd, rfl⟩⟩
    rw [Property.annotation, h]
    dsimp only
    rw [if_pos (hcondition.mpr hadd), Text.intercalate_append _ hne (List.cons_ne_nil _ _),
      String.intercalate_singleton]
    rfl
  · refine ⟨own, ?_, own, hown, Or.inr ⟨hadd, rfl⟩⟩
    rw [Property.annotation, h]
    dsimp only
    rw [if_neg (mt hcondition.mp hadd)]
    rfl

namespace Lists
variable {asksForNull : Prop} {listed : List String}

/-- A property that asks for null gets it, from its type or behind it. -/
theorem null_mem (h : p.Lists d r asksForNull listed) (hasks : asksForNull) : d.null ∈ listed := by
  obtain ⟨own, hown, ⟨-, rfl⟩ | ⟨hnot, rfl⟩⟩ := h.listed
  · exact List.mem_append_right own (List.mem_singleton_self _)
  · have hnull : .null ∈ p.type.alternatives := by
      by_contra hmem
      exact hnot ⟨hasks, hmem⟩
    obtain ⟨text, htext, hspell⟩ := hown.exists_mem hnull
    rw [FieldType.spell_null, Except.ok.injEq] at hspell
    exact hspell ▸ htext

/-- If the type has no null, then asking alone decides. -/
theorem of_null_not_mem (h : p.Lists d r asksForNull listed) (hnull : .null ∉ p.type.alternatives)
    [Decidable asksForNull] :
    ∃ own, Spellings d r p.type.alternatives own ∧
      p.annotation d r = .ok (" | ".intercalate
        (if asksForNull then own ++ [d.null] else own)) := by
  obtain ⟨own, hown, ⟨hasks, rfl⟩ | ⟨hnot, rfl⟩⟩ := h.listed
  · exact ⟨own, hown, by rw [if_pos hasks.1, h.annotation]⟩
  · have hasks : ¬asksForNull := fun hasks => hnot ⟨hasks, hnull⟩
    exact ⟨listed, hown, by rw [if_neg hasks, h.annotation]⟩

end Lists

theorem mayBeNull_typeScript : p.mayBeNull .typeScript = true ↔ p.nullable = true := by
  simp [mayBeNull, Dialect.typeScript]

theorem mayBeNull_python :
    p.mayBeNull .python = true ↔ p.nullable = true ∨ p.required = false := by
  simp [mayBeNull, Dialect.python]

/-- A property whose type is spelled has an annotation in every language, which lists the
alternatives of the type and then null, if the property asks for it and the type does not have it.
TypeScript asks for null for nullable properties, Python for optional ones too. The types that
schemas give have no null. -/
theorem annotation_lists_alternatives {language : Language} {base : String}
    (h : p.type.spell language.dialect r = .ok base) :
    (∃ listed, p.Lists .typeScript r (p.nullable = true) listed ∧
      (p.nullable = true → "null" ∈ listed)) ∧
    (∃ listed, p.Lists .python r (p.nullable = true ∨ p.required = false) listed ∧
      (p.nullable = true ∨ p.required = false → "None" ∈ listed)) ∧
    ∀ schema, FieldType.ofSchema schema = .ok p.type →
      ¬FieldType.Within .null p.type ∧
      (∃ own, Spellings .typeScript r p.type.alternatives own ∧
        p.annotation .typeScript r = .ok (" | ".intercalate
          (if p.nullable = true then own ++ ["null"] else own))) ∧
      ∃ own, Spellings .python r p.type.alternatives own ∧
        p.annotation .python r = .ok (" | ".intercalate
          (if p.nullable = true ∨ p.required = false then own ++ ["None"] else own)) := by
  obtain ⟨_, htypeScript⟩ := FieldType.exists_spell_of_spell h .typeScript
  obtain ⟨_, hpython⟩ := FieldType.exists_spell_of_spell h .python
  obtain ⟨listed, hlisted⟩ := exists_lists htypeScript
  obtain ⟨listed', hlisted'⟩ := exists_lists hpython
  rw [mayBeNull_typeScript] at hlisted
  rw [mayBeNull_python] at hlisted'
  refine ⟨⟨listed, hlisted, hlisted.null_mem⟩, ⟨listed', hlisted', hlisted'.null_mem⟩, ?_⟩
  intro schema hschema
  have hwithin : ¬FieldType.Within .null p.type := fun hnull =>
    (FieldType.hasType_of_ofSchema schema hschema).plain hnull
  have hnull : .null ∉ p.type.alternatives := fun hmem =>
    hwithin (FieldType.within_of_mem_alternatives hmem)
  exact ⟨hwithin, hlisted.of_null_not_mem hnull, hlisted'.of_null_not_mem hnull⟩

/-- Null stands in a list and not among the alternatives. -/
def nested : Property :=
  ⟨"source", "", .union [.string, .union [.listOf .null, .model "Tag"]], true, true⟩

theorem annotation_lists_alternatives_nested :
    nested.type.spell .python ⟨[⟨"Tag", "", []⟩]⟩ = .ok "str | list[None] | Tag" ∧
    nested.annotation .typeScript ⟨[⟨"Tag", "", []⟩]⟩ =
      .ok "string | Array<null> | Tag | null" := by
  have hspell : nested.type.spell Language.python.dialect ⟨[⟨"Tag", "", []⟩]⟩ =
    .ok "str | list[None] | Tag" := by cbv
  obtain ⟨⟨listed, hlisted, -⟩, -⟩ := annotation_lists_alternatives hspell
  have hown : Spellings .typeScript ⟨[⟨"Tag", "", []⟩]⟩ nested.type.alternatives
      ["string", "Array<null>", "Tag"] := .cons (by cbv) (.cons (by cbv) (.cons (by cbv) .nil))
  obtain ⟨own, hsame, ⟨-, rfl⟩ | ⟨hnot, -⟩⟩ := hlisted.listed
  · rw [hsame.unique hown] at hlisted
    refine ⟨hspell, hlisted.annotation.trans ?_⟩
    decide +kernel
  · exact absurd ⟨rfl, by decide⟩ hnot

end Property

end MediaCatalog
