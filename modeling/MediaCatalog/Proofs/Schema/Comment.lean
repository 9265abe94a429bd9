import MediaCatalog.Proofs.Schema.Layout
import MediaCatalog.Proofs.Text.Mark
import MediaCatalog.Proofs.Text.Words

/-!
# Comments — what ends a comment stands at its end alone

A comment ends at the first star with a slash behind it. Those of a description are parted by
backslashes before it is written (`TypeScriptFile.cleaned`), and neither the backslashes nor the
spaces around the description bring a star and a slash together again.
-/

namespace MediaCatalog

namespace TypeScriptFile

/-- The word that a comment begins with. -/
def startMark : List Char := ['/', '*', '*']

/-- What ends a comment. -/
def endMark : List Char := ['*', '/']

/-- What is written for it within a comment. -/
def partedMark : List Char := ['*', '\\', '/']

/-- What a comment says for a description. -/
def cleaned (description : String) : String :=
  String.ofList (commentBody (Text.oneLine description).toList)

/-! ## 1. Marks are replaced -/

theorem endMark_isPrefix_iff {c : Char} {text : List Char} :
    endMark <+: c :: text ↔ c = '*' ∧ text.head? = some '/' := by
  rw [endMark, List.cons_prefix_cons, List.head?_eq_some_iff, eq_comm]
  exact and_congr_right fun _ => exists_congr fun _ => eq_comm

theorem commentBody_endMark (rest : List Char) :
    commentBody (endMark ++ rest) = partedMark ++ commentBody rest := rfl

theorem commentBody_cons {c : Char} {rest : List Char} (h : ¬endMark <+: c :: rest) :
    commentBody (c :: rest) = c :: commentBody rest := by
  rw [commentBody]
  rintro rest' rfl rfl
  exact h (List.prefix_append endMark rest')

/-- A text goes on with a mark, or with a character that no mark begins with. -/
theorem marked_induction {P : List Char → Prop} (nil : P [])
    (mark : ∀ rest, P rest → P (endMark ++ rest))
    (plain : ∀ c rest, ¬endMark <+: c :: rest → P rest → P (c :: rest)) (text : List Char) :
    P text := by
  induction text using commentBody.induct with
  | case1 rest ih => exact mark rest ih
  | case2 c rest hnot ih =>
    refine plain c rest ?_ ih
    rw [endMark_isPrefix_iff, List.head?_eq_some_iff]
    rintro ⟨rfl, rest', rfl⟩
    exact hnot rest' rfl rfl
  | case3 => exact nil

theorem commentBody_of_not_infix {text : List Char} (h : ¬endMark <:+: text) :
    commentBody text = text := by
  induction text with
  | nil => rfl
  | cons c rest ih =>
    obtain ⟨hc, hrest⟩ := not_or.mp (mt List.infix_cons_iff.mpr h)
    rw [commentBody_cons hc, ih hrest]

/-- What stands before the first mark is kept. -/
theorem commentBody_first {front : List Char} (hfirst : ¬endMark <:+: front ++ endMark.dropLast)
    (rest : List Char) :
    commentBody (front ++ endMark ++ rest) = front ++ partedMark ++ commentBody rest := by
  induction front with
  | nil => exact commentBody_endMark rest
  | cons c front ih =>
    rw [List.cons_append, List.infix_cons_iff, not_or] at hfirst
    obtain ⟨hc, hfront⟩ := hfirst
    rw [List.cons_append, List.cons_append,
      commentBody_cons (mt Text.prefix_cons_append_iff.mp hc), ih hfront]
    rfl

theorem replaced_iff {text replaced : List Char} :
    Text.Replaced endMark partedMark text replaced ↔ commentBody text = replaced := by
  constructor
  · intro h
    induction h with
    | none hnone => exact commentBody_of_not_infix hnone
    | first hfirst _ ih => rw [commentBody_first hfirst, ih]
  · rintro rfl
    induction text using marked_induction with
    | nil => exact .none (by decide)
    | mark rest ih =>
      show Text.Replaced endMark partedMark ([] ++ endMark ++ rest)
        ([] ++ partedMark ++ commentBody rest)
      exact .first (by decide) ih
    | plain c rest hc ih =>
      rw [commentBody_cons hc]
      exact ih.cons hc

/-! ## 2. No mark is left or made -/

theorem head?_commentBody (text : List Char) : (commentBody text).head? = text.head? := by
  fun_cases commentBody text <;> rfl

theorem not_infix_commentBody (text : List Char) : ¬endMark <:+: commentBody text := by
  induction text using marked_induction with
  | nil => decide
  | mark rest ih =>
    -- The star is followed by a backslash now, and what follows the slash is no matter.
    rw [commentBody_endMark]
    simpa [endMark, partedMark, List.infix_cons_iff, List.cons_prefix_cons] using ih
  | plain c rest hc ih =>
    -- The rest begins as it did, so no star gets a slash behind it.
    rw [commentBody_cons hc, List.infix_cons_iff, not_or, endMark_isPrefix_iff, head?_commentBody,
      ← endMark_isPrefix_iff]
    exact ⟨hc, ih⟩

/-- What stands before a space is replaced by itself, for no mark has a space in it. -/
theorem commentBody_space (front back : List Char) :
    commentBody (front ++ ' ' :: back) = commentBody front ++ ' ' :: commentBody back := by
  induction front using marked_induction with
  | nil => exact commentBody_cons (by simp [endMark_isPrefix_iff])
  | mark rest ih =>
    rw [List.append_assoc, commentBody_endMark, ih, commentBody_endMark, List.append_assoc]
  | plain c rest hc ih =>
    have hspace : ¬endMark <+: c :: (rest ++ ' ' :: back) :=
      mt (Text.prefix_of_prefix_append_cons (by decide) (c :: rest)) hc
    rw [List.cons_append, commentBody_cons hspace, ih, commentBody_cons hc, List.cons_append]

/-! ## 3. The comment around a description -/

theorem toList_comment (text : String) : (comment text).toList =
    (startMark ++ ' ' :: commentBody text.toList) ++ ' ' :: endMark := by
  simp [comment, startMark, endMark]

theorem onlyAtEnd_comment (text : String) : Text.OnlyAtEnd endMark (comment text).toList := by
  -- Spaces part the body from what is around it, and a mark has none.
  have hfront : ¬endMark <:+: startMark ++ ' ' :: commentBody text.toList := by
    rw [Text.infix_append_cons_iff (by decide), not_or]
    exact ⟨by decide, not_infix_commentBody text.toList⟩
  rw [toList_comment]
  exact .append_cons (by decide) hfront

theorem cleaned_eq_empty_iff {description : String} :
    cleaned description = "" ↔ Text.AllBlank description := by
  rw [← Text.oneLine_eq_empty_iff, cleaned, ← String.toList_inj, ← String.toList_inj,
    String.toList_ofList]
  show commentBody _ = [] ↔ _ = []
  rw [← List.head?_eq_none_iff, head?_commentBody, List.head?_eq_none_iff]

/-- The words of a comment are those of the description between its marks. -/
theorem toList_comment_oneLine {description : String} (h : ¬Text.AllBlank description) :
    (comment (Text.oneLine description)).toList = [' '].intercalate
      (startMark :: ((Text.words description.toList).map commentBody ++ [endMark])) := by
  have hne : (Text.words description.toList).map commentBody ≠ [] := by
    intro hnil
    rw [List.map_eq_nil_iff] at hnil
    refine h (Text.oneLine_eq_empty_iff.mp ?_)
    rw [← String.toList_inj, Text.oneLine_toList, hnil]
    rfl
  have hbody : commentBody (Text.oneLine description).toList =
      [' '].intercalate ((Text.words description.toList).map commentBody) := by
    rw [Text.oneLine_toList]
    exact Text.map_intercalate rfl commentBody_space _
  rw [toList_comment, hbody, List.intercalate_cons_of_ne_nil (by simp), Text.intercalate_concat hne]
  simp

theorem hasSingleSpaces_comment {description : String} (h : ¬Text.AllBlank description) :
    Text.HasSingleSpaces (comment (Text.oneLine description)).toList := by
  have hwords : Text.Words description.toList _ := Text.words_iff.mpr rfl
  rw [toList_comment_oneLine h]
  refine .intercalate (List.forall_mem_cons.mpr ⟨?_, List.forall_mem_append.mpr ⟨?_, ?_⟩⟩)
  · exact ⟨by decide, by simp [startMark, Text.isBlank]⟩
  · intro w hw
    obtain ⟨w', hw', rfl⟩ := List.mem_map.mp hw
    exact (isEscaped_commentBody w').isWord (hwords.isWord w' hw')
  · exact List.forall_mem_singleton.mpr ⟨by decide, by simp [endMark, Text.isBlank]⟩

end TypeScriptFile

/-! ## 4. The comments of a file -/

/-- The lines stand in the file, one below the other. -/
def ModelsFile.HasBlock (file : String) (block : List String) : Prop :=
  ∃ lines, file = Text.ofLines lines ∧ block <:+: lines

open ModelsFile (HasBlock)

namespace TypeScriptFile
variable {f : FieldDeclaration} {m : Declaration} {models : List Declaration}

theorem hasBlock_text {block : List String} (hm : m ∈ models) (h : block <:+: interfaceLines m) :
    HasBlock (text models) block := by
  have hlines : interfaceLines m <:+: models.flatMap interfaceLines :=
    List.infix_of_mem_flatten (List.mem_map_of_mem hm)
  exact ⟨_, rfl, (h.trans hlines).trans (List.suffix_append header _).isInfix⟩

theorem hasBlock_interface (hm : m ∈ models) (hcomment : m.comment ≠ "") :
    HasBlock (text models) [comment m.comment, "export interface " ++ m.name ++ " \x7b"] := by
  have hempty : ¬m.comment.isEmpty = true := mt String.isEmpty_iff.mp hcomment
  refine hasBlock_text hm ⟨[""], m.fields.flatMap fieldLines ++ ["\x7d"], ?_⟩
  simp [interfaceLines, hempty]

theorem hasBlock_field (hm : m ∈ models) (hf : f ∈ m.fields) (hcomment : f.comment ≠ "") :
    HasBlock (text models) ["  " ++ comment f.comment,
      "  " ++ f.name ++ (if f.required then "" else "?") ++ ": " ++ f.annotation] := by
  have hempty : ¬f.comment.isEmpty = true := mt String.isEmpty_iff.mp hcomment
  have hlines : fieldLines f <:+: m.fields.flatMap fieldLines :=
    List.infix_of_mem_flatten (List.mem_map_of_mem hf)
  have hblock := hasBlock_text hm (hlines.trans (List.infix_append _ _ ["\x7d"]))
  rwa [fieldLines, if_neg hempty] at hblock

/-- A comment says the words of a description, in which a backslash parts the star and the slash of
every mark that would end the comment. So the comment ends nowhere but at its end, and it has no
blanks but single spaces. It stands in a models file above the interface or the field that is
described. -/
theorem comment_ends_once (description : String) (hsome : cleaned description ≠ "") :
    comment (Text.oneLine description) = "/** " ++ cleaned description ++ " */" ∧
    (∃ ws, Text.Words description.toList ws ∧
      Text.Replaced endMark partedMark ([' '].intercalate ws) (cleaned description).toList) ∧
    Text.OnlyAtEnd endMark (comment (Text.oneLine description)).toList ∧
    Text.HasSingleSpaces (comment (Text.oneLine description)).toList ∧
    ∀ (s : Session) (file : String), s.render .typeScript = .ok file → ∀ m ∈ s.models,
      (m.description = description → HasBlock file
        [comment (Text.oneLine description), "export interface " ++ m.name ++ " \x7b"]) ∧
      ∀ p ∈ m.properties, p.description = description →
        ∃ annotation, p.annotation .typeScript s.registry = .ok annotation ∧ HasBlock file
          ["  " ++ comment (Text.oneLine description),
            "  " ++ p.name ++ (if p.required then "" else "?") ++ ": " ++ annotation] := by
  have hblank : ¬Text.AllBlank description := mt cleaned_eq_empty_iff.mpr hsome
  have hline : Text.oneLine description ≠ "" := mt Text.oneLine_eq_empty_iff.mp hblank
  refine ⟨rfl, ⟨_, Text.words_iff.mpr rfl, ?_⟩, onlyAtEnd_comment _,
    hasSingleSpaces_comment hblank, ?_⟩
  · rw [replaced_iff, ← Text.oneLine_toList, cleaned, String.toList_ofList]
  · intro s file hfile m hm
    have hdeclared := List.mem_map_of_mem (f := Model.declaration (s.typeText .typeScript)) hm
    rw [Session.render_eq hfile]
    constructor
    · rintro rfl
      exact hasBlock_interface (m := m.declaration _) hdeclared hline
    · rintro p hp rfl
      have hfield := List.mem_map_of_mem (f := Property.declaration (s.typeText .typeScript))
        (Model.mem_renderingOrder.mpr hp)
      have hannotation : p.annotation Language.typeScript.dialect s.registry = _ :=
        Session.annotation_eq_ok hfile hm hp
      exact ⟨_, hannotation, hasBlock_field (f := p.declaration _) hdeclared hfield hline⟩

/-- Marks side by side, with a star before, a slash behind, and parted by blanks. -/
def starred : String := " **/\u2028*\n/ */*/\\ /**/"

def starredModel : Model :=
  ⟨"Tag", starred, [⟨"name", starred, .string, false, false⟩]⟩

theorem comment_ends_once_starred :
    cleaned starred = "**\\/ * / *\\/*\\/\\ /**\\/" ∧
    Text.OnlyAtEnd endMark (comment (Text.oneLine starred)).toList ∧
    Text.HasSingleSpaces (comment (Text.oneLine starred)).toList ∧
    ∃ file, (Session.add starredModel {}).render .typeScript = .ok file ∧
      HasBlock file ["/** **\\/ * / *\\/*\\/\\ /**\\/ */", "export interface Tag \x7b"] ∧
      HasBlock file ["  /** **\\/ * / *\\/*\\/\\ /**\\/ */", "  name?: string"] := by
  have hcleaned : cleaned starred = "**\\/ * / *\\/*\\/\\ /**\\/" := by decide +kernel
  obtain ⟨hcomment, -, honly, hspaces, hfiles⟩ :=
    comment_ends_once starred (by rw [hcleaned]; decide)
  obtain ⟨file, hfile⟩ : ∃ file, (Session.add starredModel {}).render .typeScript = .ok file :=
    Session.exists_render_iff.mpr (by cbv)
  obtain ⟨hinterface, hfields⟩ := hfiles _ file hfile starredModel (List.mem_singleton_self _)
  obtain ⟨spelling, hspelling, hfield⟩ := hfields _ List.mem_cons_self rfl
  have hstring : Except.ok "string" = Except.ok spelling := Eq.trans (by cbv) hspelling
  cases hstring
  rw [hcomment, hcleaned] at hinterface hfield
  exact ⟨hcleaned, honly, hspaces, file, hfile, hinterface rfl, hfield⟩

end TypeScriptFile

end MediaCatalog
