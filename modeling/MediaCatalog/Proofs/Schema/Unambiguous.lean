import MediaCatalog.Proofs.Schema.Alternatives
import MediaCatalog.Proofs.Schema.Registration

/-!
# Unambiguous spellings — in Python the type of a schema is known by its text

Every alternative begins with a word, which tells what it is but for the elements of a list or the
values of a map, and these stand in brackets (`IsSingle.read`). So a text is read from left to right
in one way only (`toldBelow`), and all it leaves open is which unions stood in unions (`flatten`).
-/

namespace MediaCatalog

namespace FieldType

/-! ## 1. Unions in unions -/

/-- The members of a union. Any other type is its own only member. -/
def members : FieldType → List FieldType
  | .union ts => ts
  | t => [t]

mutual

/-- A type in which no member of a union is a union itself; such members are opened. -/
def flatten : FieldType → FieldType
  | .listOf element => .listOf element.flatten
  | .mapOf value => .mapOf value.flatten
  | .tuple items => .tuple (flattenAll items)
  | .union ts => .union (flattenMembers ts)
  | t => t

def flattenAll : List FieldType → List FieldType
  | [] => []
  | t :: rest => t.flatten :: flattenAll rest

def flattenMembers : List FieldType → List FieldType
  | [] => []
  | t :: rest => t.flatten.members ++ flattenMembers rest

end

theorem flattenAll_eq (ts : List FieldType) : flattenAll ts = ts.map flatten := by
  induction ts with
  | nil => rfl
  | cons t rest ih => rw [flattenAll, ih, List.map_cons]

theorem flattenMembers_eq (ts : List FieldType) :
    flattenMembers ts = ts.flatMap fun t => t.flatten.members := by
  induction ts with
  | nil => rfl
  | cons t rest ih => rw [flattenMembers, ih, List.flatMap_cons]

theorem members_of_ne_union {t : FieldType} (h : ∀ ts, t ≠ .union ts) : t.members = [t] := by
  unfold members
  split
  next ts => exact absurd rfl (h ts)
  next => rfl

theorem flatten_ne_union {t : FieldType} (h : ∀ ts, t ≠ .union ts) (ts : List FieldType) :
    t.flatten ≠ .union ts := by
  cases t with
  | union members => exact absurd rfl (h members)
  | _ => simp [flatten]

/-- Once flattened, the members of a type are its alternatives. -/
theorem members_flatten (t : FieldType) : t.flatten.members = t.alternatives.map flatten := by
  induction t using union_induction with
  | single t ht =>
    rw [alternatives_of_ne_union ht, members_of_ne_union (flatten_ne_union ht), List.map_singleton]
  | union ts ih =>
    rw [flatten, members, flattenMembers_eq, alternatives_union, List.map_flatMap]
    exact List.flatMap_congr ih

/-- What several alternatives are together. -/
def regroup : List FieldType → FieldType
  | [t] => t
  | ts => .union ts

theorem alternatives_ne_nil {t : FieldType} (h : ∀ s, Within s t → Plain s) :
    t.alternatives ≠ [] := by
  induction t using union_induction with
  | single t ht =>
    rw [alternatives_of_ne_union ht]
    exact List.cons_ne_nil t []
  | union ts ih =>
    have hlength : 2 ≤ ts.length := h _ .refl
    obtain ⟨first, hfirst⟩ := List.exists_mem_of_length_pos (by omega : 0 < ts.length)
    obtain ⟨a, ha⟩ := List.exists_mem_of_ne_nil _
      (ih first hfirst fun s hs => h s (.part hfirst hs))
    rw [alternatives_union]
    exact List.ne_nil_of_mem (List.mem_flatMap.mpr ⟨first, hfirst, ha⟩)

theorem two_le_length_alternatives {ts : List FieldType}
    (h : ∀ s, Within s (.union ts) → Plain s) : 2 ≤ (union ts).alternatives.length := by
  have hlength : 2 ≤ ts.length := h _ .refl
  match ts, h, hlength with
  | first :: second :: rest, h, _ =>
    have hfirst := List.length_pos_of_ne_nil
      (alternatives_ne_nil fun s hs => h s (.part List.mem_cons_self hs))
    have hsecond := List.length_pos_of_ne_nil
      (alternatives_ne_nil fun s hs =>
        h s (.part (List.mem_cons_of_mem first List.mem_cons_self) hs))
    rw [alternatives_union, List.flatMap_cons, List.flatMap_cons, List.length_append,
      List.length_append]
    omega

theorem flatten_eq_regroup {t : FieldType} (h : ∀ s, Within s t → Plain s) :
    t.flatten = regroup (t.alternatives.map flatten) := by
  by_cases ht : ∃ ts, t = .union ts
  · obtain ⟨ts, rfl⟩ := ht
    have hlength := two_le_length_alternatives h
    have hmembers := members_flatten (.union ts)
    rw [flatten, members] at hmembers
    rw [flatten, hmembers]
    -- There are several alternatives, so they make a union again.
    match hcases : (union ts).alternatives, hlength with
    | _ :: _ :: _, _ => rfl
  · have hsingle : ∀ ts, t ≠ .union ts := fun ts heq => ht ⟨ts, heq⟩
    rw [alternatives_of_ne_union hsingle]
    rfl

/-! ## 2. Flattening changes no text -/

variable {d : Dialect} {r : Registry}

theorem shadowing?_flatten (t : FieldType) : r.shadowing? t.flatten = r.shadowing? t := by
  have hname : t.flatten.builtinName? = t.builtinName? := by
    cases t <;> simp [flatten, builtinName?]
  rw [Registry.shadowing?, Registry.shadowing?, hname]

theorem writes_members {t : FieldType} {text : String} (h : t.spell d r = .ok text) :
    Writes d r t.members text := by
  by_cases ht : ∃ ts, t = .union ts
  · obtain ⟨ts, rfl⟩ := ht
    exact spell_union_eq_ok_iff.mp h
  · rw [members_of_ne_union fun ts heq => ht ⟨ts, heq⟩]
    exact writes_singleton h

/-- Any other type than a union is left as it is, and its parts are flattened. -/
theorem parts_flatten {t : FieldType} (ht : ∀ ts, t ≠ .union ts) :
    t.flatten.parts = t.parts.map flatten := by
  cases t with
  | union ts => exact absurd rfl (ht ts)
  | tuple items => exact flattenAll_eq items
  | _ => rfl

theorem frame_flatten {t : FieldType} (ht : ∀ ts, t ≠ .union ts) (texts : List String) :
    t.flatten.frame d texts = t.frame d texts := by
  cases t with
  | union ts => exact absurd rfl (ht ts)
  | tuple items => cases items <;> rfl
  | _ => rfl

theorem offends_flatten {t : FieldType} (ht : ∀ ts, t ≠ .union ts) :
    offends r t.flatten = offends r t := by
  cases t with
  | union ts => exact absurd rfl (ht ts)
  | _ => rfl

theorem spell_flatten {t : FieldType} {text : String} (h : t.spell d r = .ok text) :
    t.flatten.spell d r = .ok text := by
  induction t using parts_induction generalizing text with
  | step t ih =>
    by_cases ht : ∃ ts, t = .union ts
    · obtain ⟨ts, rfl⟩ := ht
      rw [flatten, flattenMembers_eq, spell_union_eq_ok_iff]
      exact (spell_union_eq_ok_iff.mp h).flatMap fun t ht _ htext => writes_members (ih t ht htext)
    · have hsingle : ∀ ts, t ≠ .union ts := fun ts heq => ht ⟨ts, heq⟩
      have hflatten := shadowing?_flatten (r := r) t
      cases hs : r.shadowing? t with
      | some m =>
        rw [spell_of_shadowing hs] at h
        rw [spell_of_shadowing (hflatten.trans hs), h]
      | none =>
        obtain ⟨hoffends, texts, htexts, rfl⟩ := (spell_eq_ok_iff hs).mp h
        rw [spell_eq_ok_iff (hflatten.trans hs), offends_flatten hsingle, parts_flatten hsingle]
        exact ⟨hoffends, texts, htexts.map fun p hp _ => ih p hp,
          (frame_flatten hsingle texts).symm⟩

/-! ## 3. Words -/

/-- ASCII letters, digits and underscores make words. -/
def isWordChar (c : Char) : Bool :=
  c.isAlphanum || c == '_'

/-- A model's name that is a word, and none that the language has for a type of its own. -/
structure IsModelWord (name : String) : Prop where
  nonempty : name ≠ ""
  word : ∀ c ∈ name.toList, isWordChar c = true
  other : name ∉ "None" :: builtinNames

/-- Nothing follows that would be taken for more of a word. -/
def WordEnds (rest : List Char) : Prop :=
  ∀ c ∈ rest.head?, isWordChar c = false

theorem wordEnds_cons {c : Char} (h : isWordChar c = false) (rest : List Char) :
    WordEnds (c :: rest) := by
  intro a ha
  rwa [← Option.some.inj ha]

theorem word_append_inj {w w' : String} (hw : ∀ c ∈ w.toList, isWordChar c = true)
    (hw' : ∀ c ∈ w'.toList, isWordChar c = true) {rest rest' : List Char} (hrest : WordEnds rest)
    (hrest' : WordEnds rest') (h : w.toList ++ rest = w'.toList ++ rest') :
    w = w' ∧ rest = rest' := by
  have htake {w : String} (hw : ∀ c ∈ w.toList, isWordChar c = true) {rest : List Char}
      (hrest : WordEnds rest) : (w.toList ++ rest).takeWhile isWordChar = w.toList := by
    rw [List.takeWhile_append_of_pos hw]
    cases rest with
    | nil => exact List.append_nil _
    | cons c rest =>
      rw [List.takeWhile_cons_of_neg (by simp [hrest c rfl]), List.append_nil]
  have hword : w = w' := by
    apply String.toList_injective
    rw [← htake hw hrest, h, htake hw' hrest']
  subst hword
  exact ⟨rfl, List.append_cancel_left h⟩

/-- The word that the text of an alternative begins with. -/
def word : FieldType → String
  | .null => "None"
  | .model name => name
  | t => t.builtinName?.getD ""

/-- A type of which nothing is said that stands in brackets. -/
def outer : FieldType → FieldType
  | .listOf _ => .untypedList
  | .mapOf _ => .untypedMap
  | t => t

/-- What stands in brackets: the elements of a list or the values of a map, which may be any. -/
def inner? : FieldType → Option FieldType
  | .listOf t | .mapOf t => some t
  | .untypedList | .untypedMap => some .any
  | _ => none

/-- What stands before that in the brackets. -/
def keys : FieldType → String
  | .mapOf _ | .untypedMap => "str, "
  | _ => ""

/-- The type, but for its brackets, that a word stands for. -/
def ofWord (w : String) : FieldType :=
  match w with
  | "None" => .null
  | "bool" => .boolean
  | "str" => .string
  | "int" => .integer
  | "float" => .number
  | "bytes" => .bytes
  | "Any" => .any
  | "list" => .untypedList
  | "dict" => .untypedMap
  | name => .model name

theorem ofWord_of_not_mem {w : String} (h : w ∉ "None" :: builtinNames) : ofWord w = .model w := by
  unfold ofWord
  split
  case h_10 => rfl
  all_goals exact absurd (by decide) h

theorem shadowing?_eq_none (hr : ∀ name ∈ builtinNames, r.contains name = false) (t : FieldType) :
    r.shadowing? t = none := by
  rw [Registry.shadowing?, Option.bind_eq_none_iff]
  intro name hname
  simpa [Registry.contains] using hr name (mem_builtinNames hname)

/-! ## 4. Alternatives -/

/-- Types that schemas give, with models that have words for names. -/
structure IsLegible (t : FieldType) : Prop where
  plain : ∀ s, Within s t → Plain s
  named : ∀ name, Within (.model name) t → IsModelWord name

theorem Within.trans {s t u : FieldType} (h : Within s t) (h' : Within t u) : Within s u := by
  induction h' with
  | refl => exact h
  | part isPart _ ih => exact .part isPart ih

theorem IsLegible.within {s t : FieldType} (h : IsLegible t) (hs : Within s t) : IsLegible s :=
  ⟨fun _ hp => h.plain _ (hp.trans hs), fun _ hp => h.named _ (hp.trans hs)⟩

/-- What is read as one alternative: a legible type that is no union, but also null or any type. -/
inductive IsSingle : FieldType → Prop where
  | null : IsSingle .null
  | boolean : IsSingle .boolean
  | string : IsSingle .string
  | integer : IsSingle .integer
  | number : IsSingle .number
  | bytes : IsSingle .bytes
  | any : IsSingle .any
  | untypedList : IsSingle .untypedList
  | listOf {element : FieldType} (legible : IsLegible element) : IsSingle (.listOf element)
  | untypedMap : IsSingle .untypedMap
  | mapOf {value : FieldType} (legible : IsLegible value) : IsSingle (.mapOf value)
  | model {name : String} (named : IsModelWord name) : IsSingle (.model name)

theorem IsLegible.isSingle {t a : FieldType} (h : IsLegible t) (ha : a ∈ t.alternatives) :
    IsSingle a := by
  have hlegible := h.within (within_of_mem_alternatives ha)
  cases a with
  | null | any | tuple => exact absurd (hlegible.plain _ .refl) id
  | union ts => exact absurd rfl (ne_union_of_mem_alternatives ha ts)
  | boolean => exact .boolean
  | string => exact .string
  | integer => exact .integer
  | number => exact .number
  | bytes => exact .bytes
  | untypedList => exact .untypedList
  | untypedMap => exact .untypedMap
  | listOf element =>
    exact .listOf (hlegible.within (.part (List.mem_singleton_self element) .refl))
  | mapOf value => exact .mapOf (hlegible.within (.part (List.mem_singleton_self value) .refl))
  | model name => exact .model (hlegible.named name .refl)

theorem IsLegible.flatten_ne_any {t : FieldType} (h : IsLegible t) : t.flatten ≠ .any := by
  cases t with
  | any => exact absurd (h.plain _ .refl) id
  | _ => simp [flatten]

namespace IsSingle
variable {a b : FieldType}

theorem ofWord_word (h : IsSingle a) : ofWord a.word = a.outer := by
  cases h with
  | model named => exact ofWord_of_not_mem named.other
  | _ => rfl

theorem isWordChar_word (h : IsSingle a) : ∀ c ∈ a.word.toList, isWordChar c = true := by
  rw [← List.all_eq_true]
  cases h with
  | model named => exact List.all_eq_true.mpr named.word
  | listOf _ =>
    show "list".toList.all isWordChar = true
    decide
  | mapOf _ =>
    show "dict".toList.all isWordChar = true
    decide
  | _ => decide

/-- The text is a word, or a word and what stands in its brackets. -/
theorem text_eq (h : IsSingle a) (hr : ∀ name ∈ builtinNames, r.contains name = false)
    {text : String} (htext : a.spell .python r = .ok text) :
    a.inner? = none ∧ text = a.word ∨
      ∃ t inner, a.inner? = some t ∧ t.spell .python r = .ok inner ∧
        text = a.word ++ "[" ++ a.keys ++ inner ++ "]" := by
  have hs := shadowing?_eq_none hr
  have hany : FieldType.any.spell .python r = .ok "Any" := by
    rw [spell, hs]
    rfl
  cases h with
  | listOf | mapOf =>
    rw [spell, hs] at htext
    obtain ⟨inner, hinner, rfl⟩ := Except.exists_of_map_eq_ok htext
    exact Or.inr ⟨_, inner, rfl, hinner, rfl⟩
  | untypedList | untypedMap =>
    rw [spell, hs] at htext
    cases htext
    exact Or.inr ⟨.any, "Any", rfl, hany, rfl⟩
  | @model name =>
    rw [spell, hs] at htext
    cases hm : r.get? name with
    | none => simp [hm] at htext
    | some m =>
      rw [hm, Except.ok.injEq, Registry.name_of_get? hm] at htext
      exact Or.inl ⟨rfl, htext.symm⟩
  | _ =>
    rw [spell, hs] at htext
    cases htext
    exact Or.inl ⟨rfl, rfl⟩

/-- Lists and maps of legible types differ from those of any. -/
theorem flatten_eq_of_outer_eq (ha : IsSingle a) (hb : IsSingle b) (houter : a.outer = b.outer)
    (hinner : ∀ t u, a.inner? = some t → b.inner? = some u → t.flatten = u.flatten) :
    a.flatten = b.flatten := by
  cases ha with
  | @listOf t ht =>
    cases hb with
    | @listOf u _ => rw [flatten, flatten, hinner t u rfl rfl]
    | untypedList => exact absurd (hinner t .any rfl rfl) ht.flatten_ne_any
    | _ => cases houter
  | untypedList =>
    cases hb with
    | @listOf u hu => exact absurd (hinner .any u rfl rfl).symm hu.flatten_ne_any
    | untypedList => rfl
    | _ => cases houter
  | @mapOf t ht =>
    cases hb with
    | @mapOf u _ => rw [flatten, flatten, hinner t u rfl rfl]
    | untypedMap => exact absurd (hinner t .any rfl rfl) ht.flatten_ne_any
    | _ => cases houter
  | untypedMap =>
    cases hb with
    | @mapOf u hu => exact absurd (hinner .any u rfl rfl).symm hu.flatten_ne_any
    | untypedMap => rfl
    | _ => cases houter
  | _ =>
    cases hb <;> cases houter
    all_goals rfl

theorem keys_outer (t : FieldType) : t.outer.keys = t.keys := by
  cases t <;> rfl

theorem isSome_inner?_outer (t : FieldType) : t.outer.inner?.isSome = t.inner?.isSome := by
  cases t <;> rfl

end IsSingle

/-! ## 5. Reading from left to right -/

/-- The text ends here, or the brackets close around it. -/
def Closes (rest : List Char) : Prop :=
  ∀ c ∈ rest.head?, c = ']'

theorem Closes.wordEnds {rest : List Char} (h : Closes rest) : WordEnds rest := by
  intro c hc
  rw [h c hc]
  rfl

theorem closes_cons (rest : List Char) : Closes (']' :: rest) := by
  intro c hc
  exact (Option.some.inj hc).symm

theorem not_closes_sign (rest : List Char) :
    ¬Closes (Dialect.alternativeSign.toList ++ rest) := by
  intro h
  exact absurd (h ' ' rfl) (by decide)

/-- What is read as a list of alternatives: a legible type, or any. -/
inductive IsReadable : FieldType → Prop where
  | any : IsReadable .any
  | legible {t : FieldType} (legible : IsLegible t) : IsReadable t

theorem IsReadable.isSingle {t a : FieldType} (h : IsReadable t) (ha : a ∈ t.alternatives) :
    IsSingle a := by
  cases h with
  | any => exact List.mem_singleton.mp ha ▸ .any
  | legible hlegible => exact hlegible.isSingle ha

theorem IsReadable.flatten_eq {t : FieldType} (h : IsReadable t) :
    t.flatten = regroup (t.alternatives.map flatten) := by
  cases h with
  | any => rfl
  | legible hlegible => exact flatten_eq_regroup hlegible.plain

theorem IsSingle.isReadable_inner {a t : FieldType} (h : IsSingle a) (ht : a.inner? = some t) :
    IsReadable t := by
  cases h with
  | listOf legible | mapOf legible =>
    cases ht
    exact .legible legible
  | untypedList | untypedMap =>
    cases ht
    exact .any
  | _ => cases ht

/-- Types are told by their texts, if these have fewer characters than a number, whatever stands
behind them once they are closed. -/
def ToldBelow (r : Registry) (n : Nat) : Prop :=
  ∀ ⦃t u : FieldType⦄ ⦃text text' : String⦄ ⦃rest rest' : List Char⦄, IsReadable t → IsReadable u →
    t.spell .python r = .ok text → u.spell .python r = .ok text' → text.length < n →
    Closes rest → Closes rest' → text.toList ++ rest = text'.toList ++ rest' →
    t.flatten = u.flatten ∧ rest = rest'

/-- The text of one alternative begins with its word. Behind the word is what follows the text, or
the brackets and what follows them. -/
theorem IsSingle.read {a : FieldType} (h : IsSingle a)
    (hr : ∀ name ∈ builtinNames, r.contains name = false) {text : String}
    (htext : a.spell .python r = .ok text) {rest : List Char} (hrest : WordEnds rest) :
    ∃ behind, text.toList ++ rest = a.word.toList ++ behind ∧ WordEnds behind ∧
      (a.inner? = none ∧ behind = rest ∨
        ∃ t inner, a.inner? = some t ∧ t.spell .python r = .ok inner ∧
          inner.length < text.length ∧
          behind = '[' :: (a.keys.toList ++ (inner.toList ++ ']' :: rest))) := by
  obtain ⟨hnone, rfl⟩ | ⟨t, inner, ht, hinner, rfl⟩ := h.text_eq hr htext
  · exact ⟨rest, rfl, hrest, Or.inl ⟨hnone, rfl⟩⟩
  · refine ⟨_, ?_, wordEnds_cons rfl _, Or.inr ⟨t, inner, ht, hinner, ?_, rfl⟩⟩
    · simp
    · simp only [String.length_append]
      have : "[".length = 1 := rfl
      omega

/-- Behind one alternative stand the sign and what is listed after it. -/
theorem toList_listed (text next : String) (texts : List String) (rest : List Char) :
    (Dialect.alternativeSign.intercalate (text :: next :: texts)).toList ++ rest =
      text.toList ++ (Dialect.alternativeSign.toList ++
        ((Dialect.alternativeSign.intercalate (next :: texts)).toList ++ rest)) := by
  rw [String.intercalate_cons_cons, String.toList_append, String.toList_append,
    List.append_assoc, List.append_assoc]

section
variable (hr : ∀ name ∈ builtinNames, r.contains name = false) {n : Nat} (ih : ToldBelow r n)
include hr ih

theorem single_append_inj {a b : FieldType} (ha : IsSingle a) (hb : IsSingle b)
    {text text' : String} {rest rest' : List Char} (htext : a.spell .python r = .ok text)
    (htext' : b.spell .python r = .ok text') (hn : text.length ≤ n) (hrest : WordEnds rest)
    (hrest' : WordEnds rest') (h : text.toList ++ rest = text'.toList ++ rest') :
    a.flatten = b.flatten ∧ rest = rest' := by
  obtain ⟨behind, hread, hends, hinside⟩ := ha.read hr htext hrest
  obtain ⟨behind', hread', hends', hinside'⟩ := hb.read hr htext' hrest'
  rw [hread, hread'] at h
  obtain ⟨hword, hbehind⟩ := word_append_inj ha.isWordChar_word hb.isWordChar_word hends hends' h
  -- The word tells whether there are brackets, and what is in them but for the inner type.
  have houter : a.outer = b.outer := by rw [← ha.ofWord_word, hword, hb.ofWord_word]
  have hkeys : a.keys = b.keys := by rw [← IsSingle.keys_outer, houter, IsSingle.keys_outer]
  have hsome : a.inner?.isSome = b.inner?.isSome := by
    rw [← IsSingle.isSome_inner?_outer, houter, IsSingle.isSome_inner?_outer]
  rcases hinside with ⟨hnone, rfl⟩ | ⟨t, inner, ht, hinner, hlt, rfl⟩
  · rcases hinside' with ⟨-, rfl⟩ | ⟨u, _, hu, -⟩
    · exact ⟨ha.flatten_eq_of_outer_eq hb houter (by simp [hnone]), hbehind⟩
    · simp [hnone, hu] at hsome
  · rcases hinside' with ⟨hnone, -⟩ | ⟨u, inner', hu, hinner', -, rfl⟩
    · simp [hnone, ht] at hsome
    · rw [hkeys] at hbehind
      have hbrackets := List.append_cancel_left (List.cons.inj hbehind).2
      obtain ⟨hflatten, hrests⟩ := ih (ha.isReadable_inner ht) (hb.isReadable_inner hu) hinner
        hinner' (by omega) (closes_cons rest) (closes_cons rest') hbrackets
      refine ⟨ha.flatten_eq_of_outer_eq hb houter fun t' u' ht' hu' => ?_, (List.cons.inj hrests).2⟩
      rw [ht, Option.some.injEq] at ht'
      rw [hu, Option.some.injEq] at hu'
      rw [← ht', ← hu', hflatten]

/-- Lists of alternatives are told by their texts: they end where no sign follows. -/
theorem listed_append_inj {as bs : List FieldType} (has : ∀ a ∈ as, IsSingle a)
    (hbs : ∀ b ∈ bs, IsSingle b) {text text' : String} (htext : Writes .python r as text)
    (htext' : Writes .python r bs text') (hn : text.length ≤ n) {rest rest' : List Char}
    (hrest : Closes rest) (hrest' : Closes rest')
    (h : text.toList ++ rest = text'.toList ++ rest') :
    as.map flatten = bs.map flatten ∧ rest = rest' := by
  obtain ⟨texts, htexts, hne, rfl⟩ := htext
  obtain ⟨texts', htexts', hne', rfl⟩ := htext'
  have hsign (rest : List Char) : WordEnds (Dialect.alternativeSign.toList ++ rest) :=
    wordEnds_cons rfl _
  induction htexts generalizing bs texts' with
  | nil => exact absurd rfl hne
  | @cons a first as texts hfirst htexts ihas =>
    obtain ⟨ha, has⟩ := List.forall_mem_cons.mp has
    cases htexts' with
    | nil => exact absurd rfl hne'
    | @cons b first' bs texts' hfirst' htexts' =>
      obtain ⟨hb, hbs⟩ := List.forall_mem_cons.mp hbs
      cases htexts with
      | nil =>
        rw [String.intercalate_singleton] at h hn
        cases htexts' with
        | nil =>
          rw [String.intercalate_singleton] at h
          obtain ⟨hsame, hrests⟩ := single_append_inj hr ih ha hb hfirst hfirst' hn
            hrest.wordEnds hrest'.wordEnds h
          exact ⟨congrArg₂ List.cons hsame rfl, hrests⟩
        | cons _ _ =>
          -- Only one list ends here, and the sign of the other does not close it.
          rw [toList_listed] at h
          obtain ⟨-, rfl⟩ := single_append_inj hr ih ha hb hfirst hfirst' hn hrest.wordEnds
            (hsign _) h
          exact absurd hrest (not_closes_sign _)
      | cons _ _ =>
        rw [String.intercalate_cons_cons, String.length_append, String.length_append] at hn
        rw [toList_listed] at h
        cases htexts' with
        | nil =>
          rw [String.intercalate_singleton] at h
          obtain ⟨-, rfl⟩ := single_append_inj hr ih ha hb hfirst hfirst' (by omega) (hsign _)
            hrest'.wordEnds h
          exact absurd hrest' (not_closes_sign _)
        | cons hnext' hafter' =>
          rw [toList_listed] at h
          obtain ⟨hsame, hbehind⟩ := single_append_inj hr ih ha hb hfirst hfirst' (by omega)
            (hsign _) (hsign _) h
          obtain ⟨hothers, hrests⟩ := ihas has hbs (List.cons_ne_nil _ _) (by omega)
            _ (.cons hnext' hafter') (List.cons_ne_nil _ _) (List.append_cancel_left hbehind)
          exact ⟨congrArg₂ List.cons hsame hothers, hrests⟩

omit ih

/-- What stands in brackets is shorter than the text that they are in. -/
theorem toldBelow (n : Nat) : ToldBelow r n := by
  -- The induction is on the length of the text, as neither type need be a part of the other.
  induction n with
  | zero =>
    intro t u text text' rest rest' _ _ _ _ hn
    omega
  | succ n ih =>
    intro t u text text' rest rest' ht hu htext htext' hn hrest hrest' h
    obtain ⟨hsame, hrests⟩ := listed_append_inj hr ih (fun a ha => ht.isSingle ha)
      (fun b hb => hu.isSingle hb) (writes_alternatives htext) (writes_alternatives htext')
      (by omega) hrest hrest' h
    exact ⟨by rw [ht.flatten_eq, hsame, hu.flatten_eq], hrests⟩

/-- Two lists of alternatives with the same text are the same. -/
theorem writes_inj {as bs : List FieldType} (has : ∀ a ∈ as, IsSingle a)
    (hbs : ∀ b ∈ bs, IsSingle b) {text : String} (htext : Writes .python r as text)
    (htext' : Writes .python r bs text) : as.map flatten = bs.map flatten := by
  have hend : Closes [] := by
    intro c hc
    cases hc
  exact (listed_append_inj hr (toldBelow hr text.length) has hbs htext htext' le_rfl hend hend
    rfl).1

end

/-! ## 6. Types that schemas give -/

theorem mem_exposedAll {p : FieldType} {ts : List FieldType} :
    p ∈ exposedAll r ts ↔ ∃ t ∈ ts, p ∈ t.exposed r := by
  induction ts with
  | nil => simp [exposedAll]
  | cons t rest ih => simp [exposedAll, ih]

theorem within_of_mem_exposed {p t : FieldType} (h : p ∈ t.exposed r) : Within p t := by
  induction t using parts_induction with
  | step t ih =>
    cases hs : r.shadowing? t with
    | some m =>
      rw [exposed_of_shadowing hs, List.mem_singleton] at h
      exact h ▸ .refl
    | none =>
      rw [exposed_of_not_shadowing hs, List.mem_cons, mem_exposedAll] at h
      obtain rfl | ⟨part, hpart, hp⟩ := h
      · exact .refl
      · exact .part hpart (ih part hpart hp)

/-- Where no model stands in for a type, all the parts are written. -/
theorem mem_exposed_of_within {p t : FieldType} (h : Within p t) : p ∈ t.exposed {} := by
  have hs (t : FieldType) : Registry.shadowing? t {} = none := by
    cases hname : t.builtinName? <;> simp [Registry.shadowing?, Registry.get?, hname]
  induction h with
  | refl =>
    rw [exposed_of_not_shadowing (hs p)]
    exact List.mem_cons_self
  | part isPart _ ih =>
    rw [exposed_of_not_shadowing (hs _)]
    exact List.mem_cons_of_mem _ (mem_exposedAll.mpr ⟨_, isPart, ih⟩)

/-- With its models registered, a type that a schema gives has a spelling. -/
theorem exists_spell {t : FieldType} (h : ∀ s, Within s t → Plain s)
    (hmodels : ∀ name, Within (.model name) t → r.contains name = true) :
    ∃ text, t.spell d r = .ok text := by
  rw [exists_spell_iff, offender?, List.find?_eq_none]
  intro p hp hoffends
  obtain ⟨name, rfl, hname⟩ | rfl := offends_iff.mp hoffends
  · have := hmodels name (within_of_mem_exposed hp)
    simp [Registry.contains, hname] at this
  · have : 2 ≤ ([] : List FieldType).length := h _ (within_of_mem_exposed hp)
    simp at this

theorem spell_eq_iff (hr : ∀ name ∈ builtinNames, r.contains name = false) {t u : FieldType}
    (ht : IsLegible t) (hu : IsLegible u) {text text' : String}
    (htext : t.spell .python r = .ok text) (htext' : u.spell .python r = .ok text') :
    text = text' ↔ t.flatten = u.flatten := by
  constructor
  · rintro rfl
    have hsame := writes_inj hr (fun a ha => ht.isSingle ha) (fun b hb => hu.isSingle hb)
      (writes_alternatives htext) (writes_alternatives htext')
    rw [flatten_eq_regroup ht.plain, hsame, flatten_eq_regroup hu.plain]
  · intro h
    have hflatten := spell_flatten htext
    rw [h, spell_flatten htext', Except.ok.injEq] at hflatten
    exact hflatten.symm

theorem IsLegible.admitsNull_eq_false {t : FieldType} (h : IsLegible t) : t.admitsNull = false := by
  rw [← Bool.not_eq_true, admitsNull_iff]
  intro hnull
  exact h.plain _ (within_of_mem_alternatives hnull)

theorem IsLegible.null_not_mem {t : FieldType} (h : IsLegible t) :
    .null ∉ t.alternatives.map flatten := by
  intro hnull
  obtain ⟨a, ha, hflatten⟩ := List.mem_map.mp hnull
  have hplain : Plain a := h.plain a (within_of_mem_alternatives ha)
  cases a with
  | null => exact hplain
  | _ => simp [flatten] at hflatten

end FieldType

namespace Property
variable {r : Registry} {p q : Property}

open FieldType

/-- What is listed in the annotation of a property whose type has no null. -/
def listed (p : Property) : List FieldType :=
  p.type.alternatives ++ if p.mayBeNull .python = true then [.null] else []

theorem isSingle_of_mem_listed (hp : IsLegible p.type) {a : FieldType} (ha : a ∈ p.listed) :
    IsSingle a := by
  obtain ha | ha := List.mem_append.mp ha
  · exact hp.isSingle ha
  · split at ha
    next => exact List.mem_singleton.mp ha ▸ .null
    next => cases ha

theorem writes_annotation (hp : IsLegible p.type) {base : String}
    (h : p.type.spell .python r = .ok base) :
    ∃ text, p.annotation .python r = .ok text ∧ Writes .python r p.listed text := by
  rw [Property.annotation, h, hp.admitsNull_eq_false, listed]
  by_cases hnull : p.mayBeNull .python = true
  · rw [if_pos hnull]
    refine ⟨_, if_pos (by rw [hnull]; rfl), ?_⟩
    exact (writes_alternatives h).append (writes_singleton spell_null)
  · rw [if_neg hnull, List.append_nil]
    exact ⟨base, if_neg (by simpa using hnull), writes_alternatives h⟩

/-- As no other alternative is null, the annotation tells whether the property may be null. -/
theorem listed_inj (hp : IsLegible p.type) (hq : IsLegible q.type)
    (h : p.listed.map flatten = q.listed.map flatten) :
    p.type.flatten = q.type.flatten ∧ p.mayBeNull .python = q.mayBeNull .python := by
  rw [flatten_eq_regroup hp.plain, flatten_eq_regroup hq.plain]
  have hnull (b : Bool) : (if b = true then [null] else []).map flatten =
      if b = true then [null] else [] := by cases b <;> rfl
  rw [listed, listed, List.map_append, List.map_append, hnull, hnull] at h
  cases hpnull : p.mayBeNull .python <;> cases hqnull : q.mayBeNull .python <;>
    rw [hpnull, hqnull] at h
  case false.false | true.true => exact ⟨congrArg regroup (List.append_cancel_right h), rfl⟩
  case false.true =>
    refine absurd ?_ hp.null_not_mem
    rw [← List.append_nil (List.map flatten _)]
    exact h ▸ List.mem_append_right _ (List.mem_singleton_self _)
  case true.false =>
    refine absurd ?_ hq.null_not_mem
    rw [← List.append_nil (List.map flatten _)]
    exact h ▸ List.mem_append_right _ (List.mem_singleton_self _)

theorem annotation_eq_iff (hr : ∀ name ∈ builtinNames, r.contains name = false)
    (hp : IsLegible p.type) (hq : IsLegible q.type) {base base' : String}
    (hbase : p.type.spell .python r = .ok base) (hbase' : q.type.spell .python r = .ok base') :
    p.annotation .python r = q.annotation .python r ↔
      p.type.flatten = q.type.flatten ∧ p.mayBeNull .python = q.mayBeNull .python := by
  constructor
  · intro h
    obtain ⟨text, htext, hwrites⟩ := writes_annotation hp hbase
    obtain ⟨text', htext', hwrites'⟩ := writes_annotation hq hbase'
    rw [htext, htext', Except.ok.injEq] at h
    subst h
    exact listed_inj hp hq (writes_inj hr (fun a ha => isSingle_of_mem_listed hp ha)
      (fun b hb => isSingle_of_mem_listed hq hb) hwrites hwrites')
  · rintro ⟨hflatten, hnull⟩
    have hsame : base = base' := (spell_eq_iff hr hp hq hbase hbase').mpr hflatten
    rw [Property.annotation, Property.annotation, hbase, hbase', hp.admitsNull_eq_false,
      hq.admitsNull_eq_false, hnull, hsame]

end Property

namespace FieldType

/-- Two types that schemas give are spelled alike in Python just when they are the same but for
unions in unions, and only then may properties of these types have the same annotation. The models
are registered under words, none of which has a meaning of its own in the language, and none stands
in for a built-in type. -/
theorem python_spelling_tells_type {v w : Json} {t u : FieldType} (ht : ofSchema v = .ok t)
    (hu : ofSchema w = .ok u) {r : Registry}
    (hmodels : ∀ name, Within (.model name) t ∨ Within (.model name) u →
      IsModelWord name ∧ r.contains name = true)
    (hbuiltin : ∀ name ∈ builtinNames, r.contains name = false) :
    (∃ text, t.spell .python r = .ok text) ∧ (∃ text, u.spell .python r = .ok text) ∧
    (t.spell .python r = u.spell .python r ↔ t.flatten = u.flatten) ∧
    ∀ p q : Property, p.type = t → q.type = u →
      (p.annotation .python r = q.annotation .python r ↔
        t.flatten = u.flatten ∧ p.mayBeNull .python = q.mayBeNull .python) := by
  have hplain (s : FieldType) (hs : Within s t) : Plain s := (hasType_of_ofSchema v ht).plain hs
  have hplain' (s : FieldType) (hs : Within s u) : Plain s := (hasType_of_ofSchema w hu).plain hs
  have hlegible : IsLegible t := ⟨hplain, fun name hname => (hmodels name (Or.inl hname)).1⟩
  have hlegible' : IsLegible u := ⟨hplain', fun name hname => (hmodels name (Or.inr hname)).1⟩
  obtain ⟨text, htext⟩ := exists_spell (d := .python) hplain fun name hname =>
    (hmodels name (Or.inl hname)).2
  obtain ⟨text', htext'⟩ := exists_spell (d := .python) hplain' fun name hname =>
    (hmodels name (Or.inr hname)).2
  refine ⟨⟨text, htext⟩, ⟨text', htext'⟩, ?_, ?_⟩
  · rw [htext, htext', Except.ok.injEq]
    exact spell_eq_iff hbuiltin hlegible hlegible' htext htext'
  · rintro p q rfl rfl
    exact Property.annotation_eq_iff hbuiltin hlegible hlegible' htext htext'

def tagSchema : Json :=
  .object [("$ref", .string "#/components/schemas/Tag")]

def nestedSchema : Json :=
  .object [("allOf", .array [.object [("type", .string "string")], .object [("allOf", .array
    [tagSchema, .object [("type", .string "array"), ("items", tagSchema)]])]])]

def flatSchema : Json :=
  .object [("allOf", .array [.object [("type", .string "string")], tagSchema,
    .object [("type", .string "array"), ("items", tagSchema)]])]

def tags : Registry :=
  ⟨[⟨"Tag", "", []⟩]⟩

/-- The types differ, but only by a union in a union. -/
theorem python_spelling_tells_type_nested :
    ofSchema nestedSchema = .ok (.union [.string, .union [.model "Tag", .listOf (.model "Tag")]]) ∧
    ofSchema flatSchema = .ok (.union [.string, .model "Tag", .listOf (.model "Tag")]) ∧
    (union [.string, .union [.model "Tag", .listOf (.model "Tag")]]).spell .python tags =
      (union [.string, .model "Tag", .listOf (.model "Tag")]).spell .python tags := by
  have ht : ofSchema nestedSchema =
      .ok (.union [.string, .union [.model "Tag", .listOf (.model "Tag")]]) := by cbv
  have hu : ofSchema flatSchema = .ok (.union [.string, .model "Tag", .listOf (.model "Tag")]) := by
    cbv
  have hword : IsModelWord "Tag" := ⟨by decide, List.all_eq_true.mp (by decide), by decide⟩
  have hmodels (name : String)
      (h : Within (.model name) (.union [.string, .union [.model "Tag", .listOf (.model "Tag")]]) ∨
        Within (.model name) (.union [.string, .model "Tag", .listOf (.model "Tag")])) :
      IsModelWord name ∧ tags.contains name = true := by
    have hexposed := h.imp mem_exposed_of_within mem_exposed_of_within
    obtain rfl : name = "Tag" := by
      simpa [exposed, exposedAll, Registry.shadowing?, builtinName?, Registry.get?] using hexposed
    exact ⟨hword, rfl⟩
  exact ⟨ht, hu, (python_spelling_tells_type ht hu hmodels (by decide)).2.2.1.mpr rfl⟩

end FieldType

end MediaCatalog
