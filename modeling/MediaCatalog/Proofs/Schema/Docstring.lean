import MediaCatalog.Proofs.Schema.Layout
import MediaCatalog.Proofs.Text.Words

/-!
# Docstrings — what is written between the quotes is read back

A docstring is read in two steps, as its language reads it: up to the first quote that no backslash
escapes (`PythonFile.toQuote?`), and then escape by escape (`PythonFile.unescape?`). What is
written for a description ends where its quotes are, and stands for the words of the description
with single spaces between them.
-/

namespace MediaCatalog

namespace PythonFile

/-! ## 1. Reading a docstring -/

/-- Parts a text before its first quote that is not escaped. A backslash escapes what follows it. -/
def toQuote? : List Char → Option (List Char × List Char)
  | [] => none
  | '"' :: rest => some ([], '"' :: rest)
  | '\\' :: c :: rest => (toQuote? rest).map fun p => ('\\' :: c :: p.1, p.2)
  | c :: rest => (toQuote? rest).map fun p => (c :: p.1, p.2)

/-- What a text stands for, if each escape in it is that of a backslash or a quote. -/
def unescape? : List Char → Option (List Char)
  | [] => some []
  | ['\\'] => none
  | '\\' :: c :: rest => if c = '\\' ∨ c = '"' then (unescape? rest).map (c :: ·) else none
  | c :: rest => (unescape? rest).map (c :: ·)

theorem toQuote?_plain {c : Char} (hback : c ≠ '\\') (hquote : c ≠ '"') (rest : List Char) :
    toQuote? (c :: rest) = (toQuote? rest).map fun p => (c :: p.1, p.2) := by
  simp [toQuote?, hback]

theorem unescape?_plain {c : Char} (hback : c ≠ '\\') (rest : List Char) :
    unescape? (c :: rest) = (unescape? rest).map (c :: ·) := by
  simp [unescape?, hback]

/-- The first quote that is not escaped is the one behind the body, whatever follows it. -/
theorem toQuote?_docstringBody (text rest : List Char) :
    toQuote? (docstringBody text ++ '"' :: rest) = some (docstringBody text, '"' :: rest) := by
  induction text with
  | nil => rfl
  | cons c text ih =>
    rw [docstringBody]
    split
    next =>
      -- An escaped character is passed over with its backslash, also if it is a quote.
      rw [List.cons_append, List.cons_append, toQuote?, ih]
      rfl
    next hplain =>
      rw [not_or] at hplain
      rw [List.cons_append, toQuote?_plain hplain.1 hplain.2, ih]
      rfl

theorem unescape?_docstringBody (text : List Char) :
    unescape? (docstringBody text) = some text := by
  induction text with
  | nil => rfl
  | cons c text ih =>
    rw [docstringBody]
    split
    next hc =>
      rw [unescape?, if_pos hc, ih]
      rfl
    next hplain =>
      rw [not_or] at hplain
      rw [unescape?_plain hplain.1, ih]
      rfl

/-! ## 2. Writing one -/

/-- Puts a backslash before every occurrence of a character. -/
def prefixed (c : Char) (text : List Char) : List Char :=
  text.flatMap fun a => if a = c then ['\\', a] else [a]

/-- The backslashes come first, so those that quotes get are not doubled. -/
theorem docstringBody_eq (text : List Char) :
    docstringBody text = prefixed '"' (prefixed '\\' text) := by
  induction text with
  | nil => rfl
  | cons c text ih =>
    have hcons (a b : Char) (rest : List Char) :
        prefixed a (b :: rest) = (if b = a then ['\\', b] else [b]) ++ prefixed a rest :=
      List.flatMap_cons
    rw [docstringBody, ih, hcons]
    by_cases hback : c = '\\'
    · -- No backslash is a quote, so the second replacement leaves both.
      subst hback
      rfl
    · by_cases hquote : c = '"'
      · subst hquote
        rfl
      · rw [if_neg (not_or.mpr ⟨hback, hquote⟩), if_neg hback, List.singleton_append, hcons,
          if_neg hquote]
        rfl

theorem docstringBody_append (front back : List Char) :
    docstringBody (front ++ back) = docstringBody front ++ docstringBody back := by
  simp only [docstringBody_eq, prefixed, List.flatMap_append]

/-- A space is written as it is, so every word is escaped by itself. -/
theorem docstringBody_intercalate (ws : List (List Char)) :
    docstringBody ([' '].intercalate ws) = [' '].intercalate (ws.map docstringBody) := by
  refine Text.map_intercalate rfl (fun front back => ?_) ws
  rw [docstringBody_append]
  rfl

/-! ## 3. The docstrings of a file -/

end PythonFile

open PythonFile (docstring classLines)

theorem Declaration.exists_mem_of_ofModels {d : Dialect} {r : Registry} {models : List Model}
    {declarations : List Declaration} (h : ofModels d r models = .ok declarations) {m : Model}
    (hm : m ∈ models) :
    ∃ m' ∈ declarations, m'.name = m.name ∧ m'.comment = Text.oneLine m.description := by
  induction models generalizing declarations with
  | nil => cases hm
  | cons first models ih =>
    rw [ofModels] at h
    split at h
    next => cases h
    next declaration hfirst =>
      split at h
      next => cases h
      next rest hrest =>
        cases h
        rcases List.mem_cons.mp hm with rfl | hm
        · refine ⟨declaration, List.mem_cons_self, ?_⟩
          rw [ofModel] at hfirst
          split at hfirst
          next =>
            cases hfirst
            exact ⟨rfl, rfl⟩
          next => cases hfirst
        · obtain ⟨m', hm', heq⟩ := ih hrest hm
          exact ⟨m', List.mem_cons_of_mem _ hm', heq⟩

/-- The docstring of a class stands below its name. -/
theorem PythonFile.exists_docstring_of_mem {declarations : List Declaration} {m : Declaration}
    (hm : m ∈ declarations) (hcomment : m.comment ≠ "") : ∃ before after,
      text declarations =
        before ++ "class " ++ m.name ++ ":\n    " ++ docstring m.comment ++ "\n" ++ after := by
  obtain ⟨front, back, rfl⟩ := List.append_of_mem hm
  have hempty : ¬m.comment.isEmpty = true := mt String.isEmpty_iff.mp hcomment
  let before := header ++ front.flatMap classLines ++ ["", "", "@dataclass"]
  let after := m.fields.flatMap fieldLines ++ (if m.fields.isEmpty then ["    pass"] else []) ++
    back.flatMap classLines
  have hlines : header ++ (front ++ m :: back).flatMap classLines =
      before ++ ("class " ++ m.name ++ ":") :: ("    " ++ docstring m.comment) :: after := by
    simp [before, after, classLines, hempty]
  refine ⟨Text.ofLines before, Text.ofLines after, ?_⟩
  have hfile : text (front ++ m :: back) = Text.ofLines before ++
      ("class " ++ m.name ++ ":" ++ "\n" ++ ("    " ++ docstring m.comment ++ "\n" ++
        Text.ofLines after)) := by
    rw [text, hlines, Text.ofLines_append, Text.ofLines_cons, Text.ofLines_cons]
  have hbreak : ":\n    " = ":" ++ ("\n" ++ "    ") := rfl
  rw [hfile, hbreak]
  simp only [String.append_assoc]

namespace PythonFile

/-! ## 4. What is read back -/

/-- What stands between the quotes is all that is read of a docstring, and it stands for the words
of the description. -/
structure ReadsBack (description : String) (body : List Char) : Prop where
  ends : ∀ rest, toQuote? (body ++ ['"', '"', '"'] ++ rest) = some (body, ['"', '"', '"'] ++ rest)
  hasSingleSpaces : Text.HasSingleSpaces body
  unescaped : ∀ ws, Text.Words description.toList ws → unescape? body = some ([' '].intercalate ws)

theorem readsBack_docstringBody (description : String) :
    ReadsBack description (docstringBody (Text.oneLine description).toList) := by
  have hline := Text.oneLine_toList description
  have hwords : Text.Words description.toList _ := Text.words_iff.mpr rfl
  constructor
  · intro rest
    rw [List.append_assoc]
    exact toQuote?_docstringBody _ _
  · rw [hline, docstringBody_intercalate]
    refine .intercalate fun w hw => ?_
    obtain ⟨w', hw', rfl⟩ := List.mem_map.mp hw
    exact (isEscaped_docstringBody w').isWord (hwords.isWord w' hw')
  · intro ws hws
    rw [unescape?_docstringBody, hline, Text.words_iff.mp hws]

/-- The docstring of a description is read back, also out of a models file: it ends at the quotes
behind it, and is one line that stands for the words of the description. Two replacements make it,
that of backslashes first. -/
theorem docstring_read_back (description : String) :
    ∃ body, docstring (Text.oneLine description) = "\"\"\"" ++ String.ofList body ++ "\"\"\"" ∧
      body = prefixed '"' (prefixed '\\' (Text.oneLine description).toList) ∧
      ReadsBack description body ∧
      (∃ ws, Text.Words description.toList ws) ∧
      ∀ (r : Registry) (models : List Model) (file : String),
        ModelsFile.render .python r models = .ok file →
          ∀ m ∈ models, m.description = description → ¬Text.AllBlank description →
            ∃ before after, file = before ++ "class " ++ m.name ++ ":\n    " ++
              ("\"\"\"" ++ String.ofList body ++ "\"\"\"") ++ "\n" ++ after := by
  refine ⟨docstringBody (Text.oneLine description).toList, rfl, docstringBody_eq _,
    readsBack_docstringBody description, ⟨_, Text.words_iff.mpr rfl⟩, ?_⟩
  rintro r models file hrender m hm rfl hsome
  rw [ModelsFile.render] at hrender
  split at hrender
  next => cases hrender
  next declarations hdeclarations =>
    cases hrender
    obtain ⟨m', hm', hname, hcomment⟩ := Declaration.exists_mem_of_ofModels hdeclarations hm
    have hne : m'.comment ≠ "" := by
      rw [hcomment]
      exact mt Text.oneLine_eq_empty_iff.mp hsome
    rw [← hname]
    have hclass := exists_docstring_of_mem hm' hne
    rwa [hcomment] at hclass

example : docstring (Text.oneLine " a \\ \"b\"\n\"\"\"") =
    "\"\"\"a \\\\ \\\"b\\\" \\\"\\\"\\\"\"\"\"" := by decide +kernel

end PythonFile

end MediaCatalog
