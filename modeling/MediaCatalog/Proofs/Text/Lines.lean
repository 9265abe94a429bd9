import MediaCatalog.Text.Blank
import MediaCatalog.Text.Lines

/-!
# Lines — a text made of lines is parted into them again

Texts are split at every occurrence of a character, so a text of lines has these lines and, behind
its last line feed, an empty one (`lines_ofLines`).
-/

namespace MediaCatalog.Text

theorem splitAt_ne_nil (sep : Char) (text : List Char) : splitAt sep text ≠ [] := by
  induction text with
  | nil => simp [splitAt]
  | cons c rest ih =>
    rw [splitAt]
    split
    · simp
    · split <;> simp

theorem splitAt_append_cons (sep : Char) (front rest : List Char) :
    splitAt sep (front ++ sep :: rest) = splitAt sep front ++ splitAt sep rest := by
  induction front with
  | nil =>
    obtain ⟨part, parts, hparts⟩ := List.exists_cons_of_ne_nil (splitAt_ne_nil sep rest)
    simp [splitAt, hparts]
  | cons c front ih =>
    obtain ⟨part, parts, hparts⟩ := List.exists_cons_of_ne_nil (splitAt_ne_nil sep front)
    rw [List.cons_append, splitAt, ih, hparts, List.cons_append, splitAt, hparts]
    by_cases hc : (c == sep) = true
    · simp [hc]
    · simp [hc]

theorem splitAt_of_not_mem {sep : Char} {text : List Char} (h : sep ∉ text) :
    splitAt sep text = [text] := by
  induction text with
  | nil => rfl
  | cons c rest ih =>
    obtain ⟨hc, hrest⟩ := not_or.mp (mt List.mem_cons.mpr h)
    rw [splitAt, ih hrest]
    simp [Ne.symm hc]

/-- The parts of a text between its line feeds. -/
def lines (text : String) : List String :=
  (splitAt '\n' text.toList).map String.ofList

/-- The text has no line feed. -/
def IsOneLine (text : String) : Prop :=
  '\n' ∉ text.toList

instance (text : String) : Decidable (IsOneLine text) :=
  inferInstanceAs (Decidable ('\n' ∉ text.toList))

theorem isOneLine_append {front back : String} :
    IsOneLine (front ++ back) ↔ IsOneLine front ∧ IsOneLine back := by
  rw [IsOneLine, String.toList_append, List.mem_append, not_or]
  rfl

theorem ofLines_append (front back : List String) :
    ofLines (front ++ back) = ofLines front ++ ofLines back := by
  rw [ofLines, List.map_append, String.join_append]
  rfl

theorem ofLines_cons (line : String) (ls : List String) :
    ofLines (line :: ls) = line ++ "\n" ++ ofLines ls := by
  rw [ofLines, List.map_cons, String.join_cons]
  rfl

theorem lines_ofLines {ls : List String} (h : ∀ line ∈ ls, IsOneLine line) :
    lines (ofLines ls) = ls ++ [""] := by
  unfold lines ofLines
  induction ls with
  | nil => rfl
  | cons line rest ih =>
    obtain ⟨hline, hrest⟩ := List.forall_mem_cons.mp h
    have htext : (String.join ((line :: rest).map (· ++ "\n"))).toList =
        line.toList ++ '\n' :: (String.join (rest.map (· ++ "\n"))).toList := by
      rw [List.map_cons, String.join_cons, String.toList_append, String.toList_append,
        List.append_assoc]
      rfl
    rw [htext, splitAt_append_cons, splitAt_of_not_mem hline, List.map_append, ih hrest,
      List.map_singleton, String.ofList_toList]
    rfl

end MediaCatalog.Text
