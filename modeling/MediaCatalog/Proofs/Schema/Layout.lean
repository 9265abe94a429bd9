import Mathlib
import MediaCatalog.Proofs.Schema.Parts
import MediaCatalog.Proofs.Schema.Rendering
import MediaCatalog.Proofs.Schema.Session
import MediaCatalog.Proofs.Text.Blank
import MediaCatalog.Proofs.Text.Lines
import MediaCatalog.Proofs.Text.Words

/-!
# Layout — the lines of a models file, whatever its descriptions say

An outline tells for each line of a models file that is not blank whether it is code, which no
description can change, or a comment (`PythonFile.outline`, `TypeScriptFile.outline`). A file is
known by its outline (`Lists`), piece by piece as it is put together.
-/

namespace MediaCatalog

open Text (IsOneLine AllBlank)

/-! ## 1. Outlines -/

namespace ModelsFile

/-- What a line of code may name. -/
inductive Entry where
  | model (name : String)
  | field (name : String)
  deriving DecidableEq

/-- A line that is not blank: code, with what it names, or a comment between its marks. -/
inductive Line where
  | code (text : String) (names : Option Entry)
  | comment (opening closing : String)

namespace Line

/-- There is something between the marks of a comment. -/
def Matches : Line → String → Prop
  | code text _, line => line = text
  | comment opening closing, line => ∃ body, line = opening ++ body ++ closing ∧ ¬AllBlank body

def isCode : Line → Bool
  | code _ _ => true
  | comment _ _ => false

def named? : Line → Option Entry
  | code _ names => names
  | comment _ _ => none

/-- A line of comment for a description, unless that is blank. -/
def ofDescription (opening closing description : String) : List Line :=
  if AllBlank description then [] else [comment opening closing]

end Line

/-- Behind its header a file has these lines, and otherwise only blank ones. -/
def HasLines (header : List String) (outline : List Line) (file : String) : Prop :=
  ∃ rest, Text.lines file = header ++ rest ∧
    List.Forall₂ Line.Matches outline (rest.filter fun line => ¬AllBlank line)

end ModelsFile

open ModelsFile (Entry Line HasLines)

namespace PythonFile

def fieldOutline (typeText : Property → String) (p : Property) : List Line :=
  Line.ofDescription "    # " "" p.description ++
    [.code ("    " ++ p.name ++ ": " ++ typeText p ++ (if p.required then "" else " = None"))
      (some (.field p.name))]

def outline (typeText : Property → String) (m : Model) : List Line :=
  [.code "@dataclass" none, .code ("class " ++ m.name ++ ":") (some (.model m.name))] ++
    Line.ofDescription "    \"\"\"" "\"\"\"" m.description ++
    m.renderingOrder.flatMap (fieldOutline typeText) ++
    (if m.properties.isEmpty then [.code "    pass" none] else [])

end PythonFile

namespace TypeScriptFile

def fieldOutline (typeText : Property → String) (p : Property) : List Line :=
  Line.ofDescription "  /** " " */" p.description ++
    [.code ("  " ++ p.name ++ (if p.required then "" else "?") ++ ": " ++ typeText p)
      (some (.field p.name))]

def outline (typeText : Property → String) (m : Model) : List Line :=
  Line.ofDescription "/** " " */" m.description ++
    [.code ("export interface " ++ m.name ++ " \x7b") (some (.model m.name))] ++
    m.renderingOrder.flatMap (fieldOutline typeText) ++ [.code "\x7d" none]

end TypeScriptFile

namespace ModelsFile

def header : Language → List String
  | .python => PythonFile.header
  | .typeScript => TypeScriptFile.header

def outline : Language → (typeText : Property → String) → Model → List Line
  | .python => PythonFile.outline
  | .typeScript => TypeScriptFile.outline

def text : Language → List Declaration → String
  | .python => PythonFile.text
  | .typeScript => TypeScriptFile.text

/-! ## 2. Lines that follow an outline -/

/-- Each line is one line, and those that are not blank are those of the outline. -/
structure Lists (outline : List Line) (lines : List String) : Prop where
  isOneLine : ∀ line ∈ lines, IsOneLine line
  rows : List.Forall₂ Line.Matches outline (lines.filter fun line => ¬AllBlank line)

namespace Lists

theorem nil : Lists [] [] :=
  ⟨by simp, .nil⟩

theorem blank : Lists [] [""] :=
  ⟨by decide, .nil⟩

theorem code {text : String} {names : Option Entry} (hline : IsOneLine text)
    (htext : ¬AllBlank text) : Lists [.code text names] [text] := by
  refine ⟨List.forall_mem_singleton.mpr hline, ?_⟩
  rw [List.filter_cons_of_pos (by simpa using htext), List.filter_nil]
  exact .cons rfl .nil

theorem append {outline outline' : List Line} {lines lines' : List String}
    (h : Lists outline lines) (h' : Lists outline' lines') :
    Lists (outline ++ outline') (lines ++ lines') := by
  refine ⟨List.forall_mem_append.mpr ⟨h.isOneLine, h'.isOneLine⟩, ?_⟩
  rw [List.filter_append]
  exact List.rel_append h.rows h'.rows

theorem flatMap {α β : Type} {as : List α} {f : α → List Line} {g : α → β}
    {lines : β → List String} (h : ∀ a ∈ as, Lists (f a) (lines (g a))) :
    Lists (as.flatMap f) ((as.map g).flatMap lines) := by
  induction as with
  | nil => exact nil
  | cons a rest ih =>
    obtain ⟨ha, hrest⟩ := List.forall_mem_cons.mp h
    rw [List.flatMap_cons, List.map_cons, List.flatMap_cons]
    exact ha.append (ih hrest)

/-- A comment is written for a description that is not blank. -/
theorem ofDescription {opening closing description body line : String}
    (hline : line = opening ++ body ++ closing) (hopening : IsOneLine opening)
    (hclosing : IsOneLine closing) (hbody : IsOneLine body)
    (hsome : ¬AllBlank description → ¬AllBlank body) :
    Lists (Line.ofDescription opening closing description)
      (if (Text.oneLine description).isEmpty then [] else [line]) := by
  unfold Line.ofDescription
  by_cases hblank : AllBlank description
  · rw [if_pos hblank, if_pos (String.isEmpty_iff.mpr (Text.oneLine_eq_empty_iff.mpr hblank))]
    exact nil
  · have hne : ¬(Text.oneLine description).isEmpty = true := fun hempty =>
      hblank (Text.oneLine_eq_empty_iff.mp (String.isEmpty_iff.mp hempty))
    have hnot : ¬AllBlank line := by
      rw [hline, Text.allBlank_append, Text.allBlank_append]
      exact fun h => hsome hblank h.1.2
    have honeLine : IsOneLine line := by
      rw [hline, Text.isOneLine_append, Text.isOneLine_append]
      exact ⟨⟨hopening, hbody⟩, hclosing⟩
    rw [if_neg hblank, if_neg hne]
    refine ⟨List.forall_mem_singleton.mpr honeLine, ?_⟩
    rw [List.filter_cons_of_pos (by simpa using hnot), List.filter_nil]
    exact .cons ⟨body, hline, hsome hblank⟩ .nil

theorem hasLines {header : List String} {outline : List Line} {lines : List String}
    (hheader : ∀ line ∈ header, IsOneLine line) (h : Lists outline lines) :
    HasLines header outline (Text.ofLines (header ++ lines)) := by
  refine ⟨lines ++ [""], ?_, ?_⟩
  · rw [Text.lines_ofLines (List.forall_mem_append.mpr ⟨hheader, h.isOneLine⟩), List.append_assoc]
  · have hlast := (h.append blank).rows
    rwa [List.append_nil] at hlast

end Lists

end ModelsFile

/-! ## 3. Comments -/

theorem Text.isOneLine_oneLine (text : String) : IsOneLine (oneLine text) := by
  intro h
  rcases mem_oneLine h with h | ⟨-, h⟩
  · exact absurd h (by decide)
  · exact absurd h (by decide)

theorem Text.not_allBlank_oneLine {text : String} (h : ¬AllBlank text) :
    ¬AllBlank (oneLine text) := by
  obtain ⟨c, hc, hblank⟩ := not_allBlank_iff.mp h
  exact not_allBlank_iff.mpr ⟨c, mem_oneLine_of_mem hc hblank, hblank⟩

/-- The escaped form of a text has its characters and backslashes. -/
structure IsEscaped (text escaped : List Char) : Prop where
  of_mem : ∀ c ∈ escaped, c ∈ text ∨ c = '\\'
  mem : ∀ c ∈ text, c ∈ escaped

namespace IsEscaped
variable {text : String} {chars escaped : List Char}

theorem nil : IsEscaped [] [] :=
  ⟨by simp, by simp⟩

theorem cons (h : IsEscaped chars escaped) (c : Char) : IsEscaped (c :: chars) (c :: escaped) := by
  constructor
  · intro a ha
    rcases List.mem_cons.mp ha with rfl | ha
    · exact Or.inl List.mem_cons_self
    · exact (h.of_mem a ha).imp_left (List.mem_cons_of_mem c)
  · intro a ha
    rcases List.mem_cons.mp ha with rfl | ha
    · exact List.mem_cons_self
    · exact List.mem_cons_of_mem c (h.mem a ha)

theorem backslash (h : IsEscaped chars escaped) : IsEscaped chars ('\\' :: escaped) := by
  constructor
  · intro a ha
    rcases List.mem_cons.mp ha with rfl | ha
    · exact Or.inr rfl
    · exact h.of_mem a ha
  · exact fun a ha => List.mem_cons_of_mem _ (h.mem a ha)

theorem isOneLine (h : IsEscaped text.toList escaped) (htext : IsOneLine text) :
    IsOneLine (String.ofList escaped) := by
  intro hmem
  rw [String.toList_ofList] at hmem
  rcases h.of_mem _ hmem with hmem | hmem
  · exact htext hmem
  · exact absurd hmem (by decide)

theorem not_allBlank (h : IsEscaped text.toList escaped) (htext : ¬AllBlank text) :
    ¬AllBlank (String.ofList escaped) := by
  obtain ⟨c, hc, hblank⟩ := Text.not_allBlank_iff.mp htext
  refine Text.not_allBlank_iff.mpr ⟨c, ?_, hblank⟩
  rw [String.toList_ofList]
  exact h.mem c hc

theorem isWord (h : IsEscaped chars escaped) (hword : Text.IsWord chars) :
    Text.IsWord escaped := by
  obtain ⟨hne, hblank⟩ := hword
  obtain ⟨c, hc⟩ := List.exists_mem_of_ne_nil chars hne
  refine ⟨List.ne_nil_of_mem (h.mem c hc), fun a ha => ?_⟩
  rcases h.of_mem a ha with hmem | rfl
  · exact hblank a hmem
  · rfl

end IsEscaped

theorem PythonFile.isEscaped_docstringBody (text : List Char) :
    IsEscaped text (docstringBody text) := by
  induction text with
  | nil => exact .nil
  | cons c rest ih =>
    rw [docstringBody]
    split
    · exact (ih.cons c).backslash
    · exact ih.cons c

theorem TypeScriptFile.isEscaped_commentBody (text : List Char) :
    IsEscaped text (commentBody text) := by
  fun_induction commentBody text with
  | case1 rest ih => exact (ih.cons '/').backslash.cons '*'
  | case2 c rest _ ih => exact ih.cons c
  | case3 => exact .nil

/-! ## 4. Annotations -/

theorem Text.not_mem_append {c : Char} {front back : String} (hfront : c ∉ front.toList)
    (hback : c ∉ back.toList) : c ∉ (front ++ back).toList := by
  rw [String.toList_append, List.mem_append, not_or]
  exact ⟨hfront, hback⟩

theorem Text.not_mem_intercalate {c : Char} {sep : String} {parts : List String}
    (hsep : c ∉ sep.toList) (hparts : ∀ part ∈ parts, c ∉ part.toList) :
    c ∉ (sep.intercalate parts).toList := by
  intro h
  rcases of_mem_intercalate h with h | ⟨part, hpart, h⟩
  · exact hsep h
  · exact hparts part hpart h

/-- All that a dialect writes by itself. -/
def Dialect.texts (d : Dialect) : List String :=
  [d.null, d.boolean, d.string, d.integer, d.number, d.bytes, d.any, d.untypedList,
    d.list.opening, d.list.closing, d.emptyTuple, d.tuple.opening, d.tuple.closing, d.untypedMap,
    d.map.opening, d.map.closing]

/-- A character that a language writes neither by itself nor between members. -/
structure Dialect.Lacks (d : Dialect) (c : Char) : Prop where
  text : ∀ text ∈ d.texts, c ∉ text.toList
  sign : c ∉ alternativeSign.toList
  comma : c ∉ ", ".toList

theorem Language.lacks_lineFeed (language : Language) : language.dialect.Lacks '\n' :=
  ⟨by cases language <;> decide +kernel, by decide, by decide⟩

theorem Brackets.not_mem_around {c : Char} {b : Brackets} {text : String}
    (hopening : c ∉ b.opening.toList) (hclosing : c ∉ b.closing.toList) (htext : c ∉ text.toList) :
    c ∉ (b.around text).toList :=
  Text.not_mem_append (Text.not_mem_append hopening htext) hclosing

namespace FieldType
variable {d : Dialect} {r : Registry} {c : Char}

theorem not_mem_frame (hd : d.Lacks c) {t : FieldType} (ht : ∀ name, t = .model name →
    c ∉ name.toList) {texts : List String} (htexts : ∀ text ∈ texts, c ∉ text.toList) :
    c ∉ (t.frame d texts).toList := by
  cases t with
  | listOf | mapOf =>
    exact Brackets.not_mem_around (hd.text _ (by simp [Dialect.texts]))
      (hd.text _ (by simp [Dialect.texts])) (Text.not_mem_intercalate hd.comma htexts)
  | tuple items =>
    cases items with
    | nil => exact hd.text _ (by simp [Dialect.texts, frame])
    | cons =>
      exact Brackets.not_mem_around (hd.text _ (by simp [Dialect.texts]))
        (hd.text _ (by simp [Dialect.texts])) (Text.not_mem_intercalate hd.comma htexts)
  | union => exact Text.not_mem_intercalate hd.sign htexts
  | model name => exact ht name rfl
  | _ => exact hd.text _ (by simp [Dialect.texts, frame])

/-- A character of a spelling is one of the language, or of the name of a model. -/
theorem not_mem_spell (hd : d.Lacks c) (hr : ∀ m ∈ r.models, c ∉ m.name.toList) {t : FieldType}
    {text : String} (h : t.spell d r = .ok text) : c ∉ text.toList := by
  have hnames (name : String) (hname : r.get? name ≠ none) : c ∉ name.toList := by
    obtain ⟨m, hm⟩ := Option.ne_none_iff_exists'.mp hname
    rw [← Registry.name_of_get? hm]
    exact hr m (List.mem_of_find?_eq_some hm)
  induction t using parts_induction generalizing text with
  | step t ih =>
    cases hs : r.shadowing? t with
    | some m =>
      rw [spell_of_shadowing hs, Except.ok.injEq] at h
      obtain ⟨name, -, hm⟩ := Option.bind_eq_some_iff.mp hs
      exact h ▸ hr m (List.mem_of_find?_eq_some hm)
    | none =>
      obtain ⟨hoffends, texts, htexts, rfl⟩ := (spell_eq_ok_iff hs).mp h
      apply not_mem_frame hd
      · rintro name rfl
        apply hnames
        intro hnone
        rw [offends, hnone] at hoffends
        cases hoffends
      · intro text htext
        obtain ⟨p, hp, hspell⟩ := htexts.exists_of_mem htext
        exact ih p hp hspell

end FieldType

theorem Property.not_mem_annotation {d : Dialect} {r : Registry} {c : Char} (hd : d.Lacks c)
    (hr : ∀ m ∈ r.models, c ∉ m.name.toList) {p : Property} {text : String}
    (h : p.annotation d r = .ok text) : c ∉ text.toList := by
  rw [Property.annotation] at h
  split at h
  next => cases h
  next base hbase =>
    have hspell := FieldType.not_mem_spell hd hr hbase
    split at h
    · cases h
      exact Text.not_mem_append (Text.not_mem_append hspell hd.sign)
        (hd.text _ List.mem_cons_self)
    · cases h
      exact hspell

/-! ## 5. Declarations -/

def Property.declaration (typeText : Property → String) (p : Property) : FieldDeclaration :=
  ⟨p.name, typeText p, Text.oneLine p.description, p.required⟩

def Model.declaration (typeText : Property → String) (m : Model) : Declaration :=
  ⟨m.name, Text.oneLine m.description, m.renderingOrder.map (Property.declaration typeText)⟩

theorem FieldDeclaration.ofProperties_eq_ok {d : Dialect} {r : Registry}
    {typeText : Property → String} {ps : List Property}
    (h : ∀ p ∈ ps, p.annotation d r = .ok (typeText p)) :
    ofProperties d r ps = .ok (ps.map (Property.declaration typeText)) := by
  induction ps with
  | nil => rfl
  | cons p rest ih =>
    obtain ⟨hp, hrest⟩ := List.forall_mem_cons.mp h
    rw [ofProperties, ofProperty, hp]
    dsimp only
    rw [ih hrest]
    rfl

theorem Declaration.ofModels_eq_ok {d : Dialect} {r : Registry} {typeText : Property → String}
    {models : List Model}
    (h : ∀ m ∈ models, ∀ p ∈ m.renderingOrder, p.annotation d r = .ok (typeText p)) :
    ofModels d r models = .ok (models.map (Model.declaration typeText)) := by
  induction models with
  | nil => rfl
  | cons m rest ih =>
    obtain ⟨hm, hrest⟩ := List.forall_mem_cons.mp h
    rw [ofModels, ofModel, FieldDeclaration.ofProperties_eq_ok hm]
    dsimp only
    rw [ih hrest]
    rfl

open ModelsFile (Lists)

namespace PythonFile
variable {typeText : Property → String}

theorem lists_fieldLines {p : Property} (hname : IsOneLine p.name)
    (htypeText : IsOneLine (typeText p)) :
    Lists (fieldOutline typeText p) (fieldLines (p.declaration typeText)) := by
  have hdefault : IsOneLine (if p.required then "" else " = None") := by
    cases p.required <;> decide
  refine .append (.ofDescription String.append_empty.symm (by decide) (by decide)
    (Text.isOneLine_oneLine p.description) Text.not_allBlank_oneLine) (.code ?_ ?_)
  · simp only [Text.isOneLine_append]
    exact ⟨⟨⟨⟨by decide, hname⟩, by decide⟩, htypeText⟩, hdefault⟩
  · simp only [Text.allBlank_append]
    exact fun h => absurd h.1.1.2 (by decide)

theorem lists_docstring (description : String) :
    Lists (Line.ofDescription "    \"\"\"" "\"\"\"" description)
      (if (Text.oneLine description).isEmpty then []
        else ["    " ++ docstring (Text.oneLine description)]) := by
  have hescaped := isEscaped_docstringBody (Text.oneLine description).toList
  refine .ofDescription ?_ (by decide) (by decide)
    (hescaped.isOneLine (Text.isOneLine_oneLine description))
    fun h => hescaped.not_allBlank (Text.not_allBlank_oneLine h)
  rw [docstring, ← String.append_assoc, ← String.append_assoc]
  rfl

theorem lists_classLines {m : Model} (hname : IsOneLine m.name)
    (hfields : ∀ p ∈ m.renderingOrder, IsOneLine p.name ∧ IsOneLine (typeText p)) :
    Lists (outline typeText m) (classLines (m.declaration typeText)) := by
  have hhead : Lists
      [.code "@dataclass" none, .code ("class " ++ m.name ++ ":") (some (.model m.name))]
      ["", "", "@dataclass", "class " ++ m.name ++ ":"] := by
    have hdecorator : Lists [.code "@dataclass" none] ["@dataclass"] :=
      .code (by decide) (by decide)
    refine (Lists.blank.append .blank).append (hdecorator.append (.code ?_ ?_))
    · simp only [Text.isOneLine_append]
      exact ⟨⟨by decide, hname⟩, by decide⟩
    · simp only [Text.allBlank_append]
      exact fun h => absurd h.2 (by decide)
  have hbody : Lists (m.renderingOrder.flatMap (fieldOutline typeText))
      ((m.declaration typeText).fields.flatMap fieldLines) :=
    .flatMap fun p hp => lists_fieldLines (hfields p hp).1 (hfields p hp).2
  have hempty : Lists (if m.properties.isEmpty then [.code "    pass" none] else [])
      (if (m.declaration typeText).fields.isEmpty then ["    pass"] else []) := by
    rw [Model.declaration, List.isEmpty_map, m.renderingOrder_perm.isEmpty_eq]
    split
    · exact .code (by decide) (by decide)
    · exact .nil
  exact ((hhead.append (lists_docstring m.description)).append hbody).append hempty

end PythonFile

namespace TypeScriptFile
variable {typeText : Property → String}

theorem lists_comment (indent : String) {opening : String} (hopening : indent ++ "/** " = opening)
    (hline : IsOneLine opening) (description : String) :
    Lists (Line.ofDescription opening " */" description)
      (if (Text.oneLine description).isEmpty then []
        else [indent ++ comment (Text.oneLine description)]) := by
  have hescaped := isEscaped_commentBody (Text.oneLine description).toList
  refine .ofDescription ?_ hline (by decide)
    (hescaped.isOneLine (Text.isOneLine_oneLine description))
    fun h => hescaped.not_allBlank (Text.not_allBlank_oneLine h)
  rw [comment, ← String.append_assoc, ← String.append_assoc, hopening]

theorem lists_fieldLines {p : Property} (hname : IsOneLine p.name)
    (htypeText : IsOneLine (typeText p)) :
    Lists (fieldOutline typeText p) (fieldLines (p.declaration typeText)) := by
  have hoptional : IsOneLine (if p.required then "" else "?") := by
    cases p.required <;> decide
  refine .append (lists_comment "  " rfl (by decide) p.description) (.code ?_ ?_)
  · simp only [Text.isOneLine_append]
    exact ⟨⟨⟨⟨by decide, hname⟩, hoptional⟩, by decide⟩, htypeText⟩
  · simp only [Text.allBlank_append]
    exact fun h => absurd h.1.2 (by decide)

theorem lists_interfaceLines {m : Model} (hname : IsOneLine m.name)
    (hfields : ∀ p ∈ m.renderingOrder, IsOneLine p.name ∧ IsOneLine (typeText p)) :
    Lists (outline typeText m) (interfaceLines (m.declaration typeText)) := by
  have hcomment : Lists (Line.ofDescription "/** " " */" m.description)
      (if (Text.oneLine m.description).isEmpty then []
        else [comment (Text.oneLine m.description)]) := by
    have h := lists_comment "" rfl (by decide) m.description
    rwa [String.empty_append] at h
  have hhead : Lists [.code ("export interface " ++ m.name ++ " \x7b") (some (.model m.name))]
      ["export interface " ++ m.name ++ " \x7b"] := by
    refine .code ?_ ?_
    · simp only [Text.isOneLine_append]
      exact ⟨⟨by decide, hname⟩, by decide⟩
    · simp only [Text.allBlank_append]
      exact fun h => absurd h.2 (by decide)
  have hbody : Lists (m.renderingOrder.flatMap (fieldOutline typeText))
      ((m.declaration typeText).fields.flatMap fieldLines) :=
    .flatMap fun p hp => lists_fieldLines (hfields p hp).1 (hfields p hp).2
  have hend : Lists [.code "\x7d" none] ["\x7d"] := .code (by decide) (by decide)
  exact (((Lists.blank.append hcomment).append hhead).append hbody).append hend

end TypeScriptFile

/-! ## 6. Code without comments -/

namespace Property

def undescribed (p : Property) : Property :=
  { p with description := "" }

@[simp] theorem undescribed_name (p : Property) : p.undescribed.name = p.name := rfl

@[simp] theorem undescribed_description (p : Property) : p.undescribed.description = "" := rfl

end Property

namespace Model

def undescribed (m : Model) : Model :=
  { m with description := "", properties := m.properties.map Property.undescribed }

@[simp] theorem undescribed_name (m : Model) : m.undescribed.name = m.name := rfl

@[simp] theorem undescribed_description (m : Model) : m.undescribed.description = "" := rfl

@[simp] theorem undescribed_properties (m : Model) :
    m.undescribed.properties = m.properties.map Property.undescribed := rfl

@[simp] theorem undescribed_renderingOrder (m : Model) :
    m.undescribed.renderingOrder = m.renderingOrder.map Property.undescribed := by
  rw [renderingOrder, renderingOrder, List.map_append, undescribed_properties, List.filter_map,
    List.filter_map]
  rfl

/-- What the declaration of a model names. -/
def entries (m : Model) : List Entry :=
  .model m.name :: m.renderingOrder.map fun p => .field p.name

end Model

namespace ModelsFile
variable {typeText : Property → String}

namespace Line

@[simp] theorem filter_ofDescription (opening closing description : String) :
    (ofDescription opening closing description).filter isCode = [] := by
  unfold ofDescription
  split <;> rfl

@[simp] theorem filterMap_ofDescription (opening closing description : String) :
    (ofDescription opening closing description).filterMap named? = [] := by
  unfold ofDescription
  split <;> rfl

@[simp] theorem ofDescription_empty (opening closing : String) :
    ofDescription opening closing "" = [] :=
  if_pos (by decide)

@[simp] theorem isCode_code (text : String) (names : Option Entry) :
    (code text names).isCode = true := rfl

@[simp] theorem named?_code (text : String) (names : Option Entry) :
    (code text names).named? = names := rfl

end Line

theorem filter_outline (language : Language) (h : ∀ p, typeText p.undescribed = typeText p)
    (m : Model) : (outline language typeText m).filter Line.isCode =
      outline language typeText m.undescribed := by
  cases language with
  | python =>
    have hfield (p : Property) : (PythonFile.fieldOutline typeText p).filter Line.isCode =
        PythonFile.fieldOutline typeText p.undescribed := by
      rw [PythonFile.fieldOutline, List.filter_append, Line.filter_ofDescription,
        PythonFile.fieldOutline, Property.undescribed_description, Line.ofDescription_empty, h]
      rfl
    simp [outline, PythonFile.outline, List.filter_cons, List.filter_flatMap, List.flatMap_map,
      hfield]
  | typeScript =>
    have hfield (p : Property) : (TypeScriptFile.fieldOutline typeText p).filter Line.isCode =
        TypeScriptFile.fieldOutline typeText p.undescribed := by
      rw [TypeScriptFile.fieldOutline, List.filter_append, Line.filter_ofDescription,
        TypeScriptFile.fieldOutline, Property.undescribed_description, Line.ofDescription_empty, h]
      rfl
    simp [outline, TypeScriptFile.outline, List.filter_cons, List.filter_flatMap,
      List.flatMap_map, hfield]

theorem filterMap_outline (language : Language) (m : Model) :
    (outline language typeText m).filterMap Line.named? = m.entries := by
  cases language with
  | python =>
    have hfield (p : Property) : (PythonFile.fieldOutline typeText p).filterMap Line.named? =
        [.field p.name] := by
      simp [PythonFile.fieldOutline]
    simp [outline, PythonFile.outline, List.filterMap_cons, List.filterMap_flatMap, hfield,
      Model.entries, ← List.map_eq_flatMap]
  | typeScript =>
    have hfield (p : Property) : (TypeScriptFile.fieldOutline typeText p).filterMap Line.named? =
        [.field p.name] := by
      simp [TypeScriptFile.fieldOutline]
    simp [outline, TypeScriptFile.outline, List.filterMap_cons, List.filterMap_flatMap, hfield,
      Model.entries, ← List.map_eq_flatMap]

end ModelsFile

/-! ## 7. The files of a session -/

namespace Session

/-- The annotation of a property in a session, empty if it has none. -/
def typeText (language : Language) (s : Session) (p : Property) : String :=
  (p.annotation language.dialect s.registry).toOption.getD ""

/-- The lines that are expected behind the header of a models file. -/
def outline (language : Language) (s : Session) : List Line :=
  s.models.flatMap (ModelsFile.outline language (s.typeText language))

theorem exists_render_iff_annotated {language : Language} {s : Session} :
    (∃ text, s.render language = .ok text) ↔ ∀ m ∈ s.models, ∀ p ∈ m.properties,
      ∃ text, p.annotation language.dialect s.registry = .ok text := by
  simp only [(spelt_typed language.dialect s.registry _).exists_ok_iff, exists_render_iff,
    firstOffender?, List.findSome?_eq_none_iff, List.mem_flatMap, Model.mem_renderingOrder]
  constructor
  · exact fun h m hm p hp => h p ⟨m, hm, hp⟩
  · rintro h p ⟨m, hm, hp⟩
    exact h m hm p hp

theorem annotation_eq_ok {s : Session} {language rendered : Language} {file : String}
    (h : s.render rendered = .ok file) {m : Model} (hm : m ∈ s.models) {p : Property}
    (hp : p ∈ m.properties) :
    p.annotation language.dialect s.registry = .ok (s.typeText language p) := by
  obtain ⟨text, htext⟩ :=
    exists_render_iff_annotated.mp (exists_render_of_render h language) m hm p hp
  rw [typeText, htext]
  rfl

theorem render_eq {s : Session} {language : Language} {file : String}
    (h : s.render language = .ok file) :
    file = ModelsFile.text language (s.models.map (Model.declaration (s.typeText language))) := by
  have htypeText : ∀ m ∈ s.models, ∀ p ∈ m.renderingOrder,
      p.annotation language.dialect s.registry = .ok (s.typeText language p) :=
    fun m hm p hp => annotation_eq_ok h hm (Model.mem_renderingOrder.mp hp)
  rw [render, ModelsFile.render, Declaration.ofModels_eq_ok htypeText] at h
  cases language with
  | python | typeScript => exact (Except.ok.inj h).symm

/-- The names of models and properties have no line feeds. -/
structure NamesOnOneLine (s : Session) : Prop where
  model : ∀ m ∈ s.models, IsOneLine m.name
  property : ∀ m ∈ s.models, ∀ p ∈ m.properties, IsOneLine p.name

theorem exists_hasLines {calls : List Call} (hnames : (ofCalls calls).NamesOnOneLine)
    {rendered : Language} {file : String} (h : (ofCalls calls).render rendered = .ok file)
    (language : Language) : ∃ text, (ofCalls calls).render language = .ok text ∧
      HasLines (ModelsFile.header language) ((ofCalls calls).outline language) text := by
  have htypeText : ∀ m ∈ (ofCalls calls).models, ∀ p ∈ m.renderingOrder,
      p.annotation language.dialect (ofCalls calls).registry =
        .ok ((ofCalls calls).typeText language p) := fun m hm p hp =>
    annotation_eq_ok h hm (Model.mem_renderingOrder.mp hp)
  have hregistry : ∀ m ∈ (ofCalls calls).registry.models, IsOneLine m.name := by
    intro m hm
    have hname := Registry.contains_iff.mpr (List.mem_map_of_mem hm)
    rw [(follows_ofCalls calls).registered] at hname
    obtain ⟨n, hn, hname⟩ := List.mem_map.mp hname
    exact hname ▸ hnames.model n hn
  have hfields : ∀ m ∈ (ofCalls calls).models, ∀ p ∈ m.renderingOrder,
      IsOneLine p.name ∧ IsOneLine ((ofCalls calls).typeText language p) := fun m hm p hp =>
    ⟨hnames.property m hm p (Model.mem_renderingOrder.mp hp),
      Property.not_mem_annotation language.lacks_lineFeed hregistry (htypeText m hm p hp)⟩
  rw [render, ModelsFile.render, Declaration.ofModels_eq_ok htypeText]
  cases language with
  | python =>
    refine ⟨_, rfl, ModelsFile.Lists.hasLines (by decide +kernel) (.flatMap fun m hm => ?_)⟩
    exact PythonFile.lists_classLines (hnames.model m hm) (hfields m hm)
  | typeScript =>
    refine ⟨_, rfl, ModelsFile.Lists.hasLines (by decide +kernel) (.flatMap fun m hm => ?_)⟩
    exact TypeScriptFile.lists_interfaceLines (hnames.model m hm) (hfields m hm)

/-! ## 8. Other descriptions -/

/-- The models are the same in the same order, but for descriptions. -/
def EqUpToDescriptions (s' s : Session) : Prop :=
  s'.models.map Model.undescribed = s.models.map Model.undescribed

section
variable {calls calls' : List Call}

theorem EqUpToDescriptions.exists_mem {s s' : Session} (h : s'.EqUpToDescriptions s) {m' : Model}
    (hm' : m' ∈ s'.models) : ∃ m ∈ s.models, m.name = m'.name ∧
      ∀ p' ∈ m'.properties, ∃ p ∈ m.properties, p.undescribed = p'.undescribed := by
  have hmem := List.mem_map_of_mem (f := Model.undescribed) hm'
  rw [show s'.models.map Model.undescribed = _ from h, List.mem_map] at hmem
  obtain ⟨m, hm, heq⟩ := hmem
  have hname : m.undescribed.name = m'.undescribed.name := congrArg Model.name heq
  refine ⟨m, hm, hname, fun p' hp' => List.mem_map.mp ?_⟩
  rw [← Model.undescribed_properties, heq]
  exact List.mem_map_of_mem hp'

theorem NamesOnOneLine.of_eqUpToDescriptions {s s' : Session} (hnames : s.NamesOnOneLine)
    (h : s'.EqUpToDescriptions s) : s'.NamesOnOneLine := by
  constructor
  · intro m' hm'
    obtain ⟨m, hm, hname, -⟩ := h.exists_mem hm'
    exact hname ▸ hnames.model m hm
  · intro m' hm' p' hp'
    obtain ⟨m, hm, -, hproperties⟩ := h.exists_mem hm'
    obtain ⟨p, hp, heq⟩ := hproperties p' hp'
    have hname : p.undescribed.name = p'.undescribed.name := congrArg Property.name heq
    rw [Property.undescribed_name, Property.undescribed_name] at hname
    exact hname ▸ hnames.property m hm p hp

theorem EqUpToDescriptions.contains (h : (ofCalls calls').EqUpToDescriptions (ofCalls calls))
    (name : String) :
    (ofCalls calls').registry.contains name = (ofCalls calls).registry.contains name := by
  have hnames := congrArg (List.map Model.name) h
  rw [List.map_map, List.map_map] at hnames
  rw [Bool.eq_iff_iff, (follows_ofCalls calls').registered, (follows_ofCalls calls).registered]
  exact iff_of_eq (congrArg (name ∈ ·) hnames)

theorem EqUpToDescriptions.annotation (h : (ofCalls calls').EqUpToDescriptions (ofCalls calls))
    (d : Dialect) (p : Property) :
    p.annotation d (ofCalls calls').registry = p.annotation d (ofCalls calls).registry := by
  rw [Property.annotation, Property.annotation, FieldType.spell_congr h.contains]

theorem EqUpToDescriptions.exists_render (h : (ofCalls calls').EqUpToDescriptions (ofCalls calls))
    {language : Language} {file : String} (hrender : (ofCalls calls).render language = .ok file) :
    ∃ file', (ofCalls calls').render language = .ok file' := by
  rw [exists_render_iff_annotated]
  intro m' hm' p' hp'
  obtain ⟨m, hm, -, hproperties⟩ := h.exists_mem hm'
  obtain ⟨p, hp, heq⟩ := hproperties p' hp'
  have hsame : p'.annotation language.dialect (ofCalls calls).registry =
      p.annotation language.dialect (ofCalls calls).registry :=
    (congrArg (Property.annotation language.dialect (ofCalls calls).registry) heq).symm
  rw [h.annotation, hsame]
  exact exists_render_iff_annotated.mp ⟨file, hrender⟩ m hm p hp

theorem filter_outline (language : Language) (s : Session) :
    (s.outline language).filter Line.isCode = (s.models.map Model.undescribed).flatMap
      (ModelsFile.outline language (s.typeText language)) := by
  rw [outline, List.filter_flatMap, List.flatMap_map]
  exact congrArg (List.flatMap · s.models)
    (funext (ModelsFile.filter_outline language fun _ => rfl))

end

/-- Behind its header a models file has, but for blank lines, those of the session's outline,
whatever the descriptions are. The outline says which models and fields are declared, in all
languages alike, and other descriptions lead to the same lines of code. -/
theorem models_file_has_lines (calls : List Call) (hnames : (ofCalls calls).NamesOnOneLine)
    {rendered : Language} {file : String} (hrender : (ofCalls calls).render rendered = .ok file)
    (language : Language) :
    (∃ text, (ofCalls calls).render language = .ok text ∧
      HasLines (ModelsFile.header language) ((ofCalls calls).outline language) text) ∧
    (∀ m ∈ (ofCalls calls).models, ∀ p ∈ m.properties,
      p.annotation language.dialect (ofCalls calls).registry =
        .ok ((ofCalls calls).typeText language p)) ∧
    ((ofCalls calls).outline language).filterMap Line.named? =
      (ofCalls calls).models.flatMap Model.entries ∧
    ∀ calls' : List Call, (ofCalls calls').EqUpToDescriptions (ofCalls calls) →
      ∃ text, (ofCalls calls').render language = .ok text ∧
        HasLines (ModelsFile.header language) ((ofCalls calls').outline language) text ∧
        ((ofCalls calls').outline language).filter Line.isCode =
          ((ofCalls calls).outline language).filter Line.isCode := by
  refine ⟨exists_hasLines hnames hrender language, fun m hm p hp => annotation_eq_ok hrender hm hp,
    ?_, fun calls' h => ?_⟩
  · rw [outline, List.filterMap_flatMap]
    exact congrArg (List.flatMap · (ofCalls calls).models)
      (funext (ModelsFile.filterMap_outline language))
  · obtain ⟨file', hrender'⟩ := h.exists_render hrender
    obtain ⟨text, htext, hlines⟩ :=
      exists_hasLines (hnames.of_eqUpToDescriptions h) hrender' language
    have htypeText :
        (ofCalls calls').typeText language = (ofCalls calls).typeText language :=
      funext fun p => by rw [typeText, typeText, h.annotation]
    refine ⟨text, htext, hlines, ?_⟩
    rw [filter_outline, filter_outline, htypeText, h]

/-- Builds one model, with these descriptions of itself and of its only property. -/
def tagCall (description ofName : String) : Call :=
  ⟨⟨.empty, [("Tag", .object [("description", .string description), ("properties", .object
    [("name", .object [("type", .string "string"), ("description", .string ofName)])])])]⟩,
    ["Tag"]⟩

/-- Once the model is described on two lines and the property is not, once it is the other way
round. -/
theorem models_file_has_lines_described :
    (ofCalls [tagCall "A \"tag\"\n*/ \\" " \n"]).NamesOnOneLine ∧
    (∃ text, (ofCalls [tagCall "A \"tag\"\n*/ \\" " \n"]).render .python = .ok text ∧
      HasLines PythonFile.header
        [.code "@dataclass" none, .code "class Tag:" (some (.model "Tag")),
          .comment "    \"\"\"" "\"\"\"",
          .code "    name: str | None = None" (some (.field "name"))] text) ∧
    (ofCalls [tagCall "" "class Tag:"]).EqUpToDescriptions
      (ofCalls [tagCall "A \"tag\"\n*/ \\" " \n"]) ∧
    ∃ text, (ofCalls [tagCall "" "class Tag:"]).render .python = .ok text ∧
      HasLines PythonFile.header
        [.code "@dataclass" none, .code "class Tag:" (some (.model "Tag")), .comment "    # " "",
          .code "    name: str | None = None" (some (.field "name"))] text := by
  have hmodels (description ofName : String) : (ofCalls [tagCall description ofName]).models =
      [⟨"Tag", description, [⟨"name", ofName, .string, false, false⟩]⟩] := by cbv
  have houtline (description ofName : String) :
      (ofCalls [tagCall description ofName]).outline .python =
        [.code "@dataclass" none, .code "class Tag:" (some (.model "Tag"))] ++
          Line.ofDescription "    \"\"\"" "\"\"\"" description ++
          Line.ofDescription "    # " "" ofName ++
          [.code "    name: str | None = None" (some (.field "name"))] := by
    have htypeText : (ofCalls [tagCall description ofName]).typeText .python
        ⟨"name", ofName, .string, false, false⟩ = "str | None" := by cbv
    simp [outline, hmodels, ModelsFile.outline, PythonFile.outline, PythonFile.fieldOutline,
      Model.renderingOrder, htypeText]
  have hnames : (ofCalls [tagCall "A \"tag\"\n*/ \\" " \n"]).NamesOnOneLine := by
    constructor <;> rw [hmodels] <;> decide
  obtain ⟨file, hfile⟩ : ∃ file,
      (ofCalls [tagCall "A \"tag\"\n*/ \\" " \n"]).render .typeScript = .ok file :=
    exists_render_iff.mpr (by cbv)
  obtain ⟨⟨text, htext, hlines⟩, -, -, hothers⟩ := models_file_has_lines _ hnames hfile .python
  have hsame : (ofCalls [tagCall "" "class Tag:"]).EqUpToDescriptions
      (ofCalls [tagCall "A \"tag\"\n*/ \\" " \n"]) := by
    rw [EqUpToDescriptions, hmodels, hmodels]
    rfl
  obtain ⟨text', htext', hlines', -⟩ := hothers _ hsame
  refine ⟨hnames, ⟨text, htext, ?_⟩, hsame, text', htext', ?_⟩
  · rw [houtline, Line.ofDescription, if_neg (by decide), Line.ofDescription,
      if_pos (by decide)] at hlines
    exact hlines
  · rw [houtline, Line.ofDescription, if_pos (by decide), Line.ofDescription,
      if_neg (by decide)] at hlines'
    exact hlines'

end Session

end MediaCatalog
