import Mathlib.Data.List.Basic
import MediaCatalog.Proofs.Text.Blank
import MediaCatalog.RepairJob.Basic

/-!
# Queries — what of a table's name is put into SQL

A name is put into a template only if it needs no quotes (`IsPlainName`), and then as it is: both
queries are frames around the name (`Frame`), which do not depend on it. So nothing in a query ends
a literal, begins a comment or parts two statements that is not in the template.
-/

namespace MediaCatalog.RepairJob

/-! ## 1. Table names -/

def IsPlainStart (c : Char) : Prop :=
  'a' ≤ c ∧ c ≤ 'z' ∨ c = '_'

instance : DecidablePred IsPlainStart := fun c =>
  inferInstanceAs (Decidable ('a' ≤ c ∧ c ≤ 'z' ∨ c = '_'))

def IsPlain (c : Char) : Prop :=
  IsPlainStart c ∨ '0' ≤ c ∧ c ≤ '9'

instance : DecidablePred IsPlain := fun c =>
  inferInstanceAs (Decidable (IsPlainStart c ∨ '0' ≤ c ∧ c ≤ '9'))

/-- A name that needs no quotes and is not cut off. -/
structure IsPlainName (name : String) : Prop where
  size : name.utf8ByteSize ≤ 63
  chars : ∃ first rest, name.toList = first :: rest ∧ IsPlainStart first ∧ ∀ c ∈ rest, IsPlain c

theorem isNameStart_iff {c : Char} : isNameStart c = true ↔ IsPlainStart c := by
  have hlower : c.isLower = true ↔ 'a' ≤ c ∧ c ≤ 'z' := by
    show (decide ('a' ≤ c) && decide (c ≤ 'z')) = true ↔ _
    rw [Bool.and_eq_true, decide_eq_true_eq, decide_eq_true_eq]
  rw [isNameStart, Bool.or_eq_true, hlower, beq_iff_eq, IsPlainStart]

theorem isNameChar_iff {c : Char} : isNameChar c = true ↔ IsPlain c := by
  have hdigit : c.isDigit = true ↔ '0' ≤ c ∧ c ≤ '9' := by
    show (decide ('0' ≤ c) && decide (c ≤ '9')) = true ↔ _
    rw [Bool.and_eq_true, decide_eq_true_eq, decide_eq_true_eq]
  rw [isNameChar, Bool.or_right_comm, Bool.or_eq_true, hdigit, ← isNameStart, isNameStart_iff,
    IsPlain]

theorem isTableName_iff {name : String} : isTableName name = true ↔ IsPlainName name := by
  rw [isTableName, Bool.and_eq_true, decide_eq_true_eq]
  constructor
  · rintro ⟨hsize, hchars⟩
    refine ⟨hsize, ?_⟩
    cases hname : name.toList with
    | nil => simp [hname] at hchars
    | cons first rest =>
      rw [hname, Bool.and_eq_true, List.all_eq_true] at hchars
      exact ⟨first, rest, rfl, isNameStart_iff.mp hchars.1, fun c hc =>
        isNameChar_iff.mp (hchars.2 c hc)⟩
  · rintro ⟨hsize, first, rest, hname, hfirst, hrest⟩
    refine ⟨hsize, ?_⟩
    rw [hname, Bool.and_eq_true, List.all_eq_true]
    exact ⟨isNameStart_iff.mpr hfirst, fun c hc => isNameChar_iff.mpr (hrest c hc)⟩

theorem IsPlainName.isPlain {name : String} (h : IsPlainName name) :
    ∀ c ∈ name.toList, IsPlain c := by
  obtain ⟨-, first, rest, hname, hfirst, hrest⟩ := h
  rw [hname]
  exact List.forall_mem_cons.mpr ⟨Or.inl hfirst, hrest⟩

theorem checkTable_eq (name : String) :
    (IsPlainName name → checkTable name = .ok name) ∧
      (¬IsPlainName name → checkTable name = .error (.invalidTableName name)) := by
  rw [← isTableName_iff, checkTable]
  exact ⟨fun h => if_pos h, fun h => if_neg h⟩

/-! ## 2. Frames -/

/-- What stands before and behind the table in a query. -/
structure Frame where
  before : String
  after : String

def Frame.around (f : Frame) (table : String) : String :=
  f.before ++ table ++ f.after

/-- The text of pieces among which there is no slot for the table. -/
def fixedText (pieces : List Piece) : String :=
  String.join (pieces.map (Piece.fill (values "")))

/-- The frame of a template, whose last line is not ended. -/
def frame (template : List Piece) : Frame where
  before := fixedText (template.takeWhile (· ≠ .slot .table))
  after := Text.trimEnd (fixedText (template.dropWhile (· ≠ .slot .table)).tail)

/-- The table has one place in the template, and what is trimmed at the ends is not next to it. -/
structure IsFramed (template : List Piece) : Prop where
  once : template.count (.slot .table) = 1
  first : ∃ text, template.head? = some (.fixed text) ∧
    ∃ c ∈ text.toList.head?, Text.isBlank c = false
  last : ∃ text, template.getLast? = some (.fixed text) ∧ Text.trimEnd text ≠ ""

theorem isFramed_selectTemplate : IsFramed selectTemplate :=
  ⟨by decide +kernel, ⟨_, rfl, 'W', by decide +kernel, rfl⟩, ⟨_, rfl, by decide +kernel⟩⟩

theorem isFramed_updateTemplate : IsFramed updateTemplate :=
  ⟨by decide +kernel, ⟨_, rfl, 'S', by decide +kernel, rfl⟩, ⟨_, rfl, by decide +kernel⟩⟩

/-- The other slots are filled alike for all tables. -/
theorem join_fill_of_not_mem {pieces : List Piece} (h : .slot .table ∉ pieces) (table : String) :
    String.join (pieces.map (Piece.fill (values table))) = fixedText pieces := by
  have hfill : pieces.map (Piece.fill (values table)) = pieces.map (Piece.fill (values "")) := by
    refine List.map_congr_left fun p hp => ?_
    cases p with
    | fixed text => rfl
    | slot s =>
      cases s with
      | table => exact absurd hp h
      | predicate | function => rfl
  rw [hfill, fixedText]

theorem join_fill {front back : List Piece} (hfront : .slot .table ∉ front)
    (hback : .slot .table ∉ back) (table : String) :
    String.join ((front ++ .slot .table :: back).map (Piece.fill (values table))) =
      fixedText front ++ table ++ fixedText back := by
  rw [List.map_append, List.map_cons, String.join_append, String.join_cons,
    join_fill_of_not_mem hfront, join_fill_of_not_mem hback, ← String.append_assoc]
  rfl

theorem frame_append {front back : List Piece} (h : .slot .table ∉ front) :
    frame (front ++ .slot .table :: back) =
      ⟨fixedText front, Text.trimEnd (fixedText back)⟩ := by
  have hfront : ∀ p ∈ front, decide (p ≠ .slot .table) = true := fun p hp =>
    decide_eq_true fun heq => h (heq ▸ hp)
  rw [frame, List.takeWhile_append_of_pos hfront, List.dropWhile_append_of_pos hfront,
    List.takeWhile_cons_of_neg (by simp), List.dropWhile_cons_of_neg (by simp), List.append_nil]
  rfl

theorem exists_text_behind {front back : List Piece} {last : String}
    (h : (front ++ .slot .table :: back).getLast? = some (.fixed last)) :
    ∃ pieces, back = pieces ++ [.fixed last] := by
  rw [List.getLast?_append, List.getLast?_cons, Option.some_or] at h
  cases hlast : back.getLast? with
  | none =>
    rw [hlast] at h
    cases h
  | some p =>
    rw [hlast] at h
    obtain rfl : p = .fixed last := Option.some.inj h
    exact List.getLast?_eq_some_iff.mp hlast

/-- What is trimmed is the end of the last piece. -/
theorem trimEnd_fixedText {pieces : List Piece} {last : String} (h : Text.trimEnd last ≠ "") :
    Text.trimEnd (fixedText (pieces ++ [.fixed last])) ≠ "" := by
  have hsplit : fixedText (pieces ++ [.fixed last]) = fixedText pieces ++ last := by
    simp [fixedText, Piece.fill]
  rw [hsplit, Text.trimEnd_append _ h]
  simp [h]

theorem render_of_isFramed {template : List Piece} (h : IsFramed template) (table : String) :
    render (values table) template = (frame template).around table := by
  obtain ⟨hcount, ⟨first, hfirst, c, hc, hblank⟩, last, hlast, hsome⟩ := h
  have hmem : Piece.slot .table ∈ template := List.count_pos_iff.mp (by omega)
  obtain ⟨front, back, rfl, hfront⟩ := List.eq_append_cons_of_mem hmem
  rw [List.count_append, List.count_cons_self] at hcount
  have hback : Piece.slot .table ∉ back := List.count_eq_zero.mp (by omega)
  -- The first piece stands before the table and the last one behind it, so neither end is its own.
  obtain ⟨pieces, rfl⟩ : ∃ pieces, front = .fixed first :: pieces := by
    cases front with
    | nil => cases hfirst
    | cons p pieces => exact ⟨pieces, by rw [Option.some.inj hfirst]⟩
  obtain ⟨pieces', rfl⟩ := exists_text_behind hlast
  have hstart (rest : String) : ∃ c ∈ (fixedText (.fixed first :: pieces) ++ table ++
      rest).toList.head?, Text.isBlank c = false := by
    refine ⟨c, ?_, hblank⟩
    simp [fixedText, Piece.fill, Option.mem_def.mp hc]
  rw [frame_append hfront, Frame.around, render, join_fill hfront hback,
    Text.trim_eq_trimEnd (hstart _), Text.trimEnd_append _ (trimEnd_fixedText hsome)]

/-- Of the table only characters get into a query that are plain. -/
theorem filter_around (f : Frame) {table : String} (h : IsPlainName table) :
    (f.around table).toList.filter (fun c => ¬IsPlain c) =
      (f.before ++ f.after).toList.filter fun c => ¬IsPlain c := by
  have hnone : table.toList.filter (fun c => ¬IsPlain c) = [] :=
    List.filter_eq_nil_iff.mpr fun c hc => by simpa using h.isPlain c hc
  rw [Frame.around, String.toList_append, String.toList_append, String.toList_append,
    List.filter_append, List.filter_append, List.filter_append, hnone, List.append_nil]

theorem around_injective {f : Frame} {table table' : String}
    (h : f.around table = f.around table') : table = table' :=
  String.append_right_inj _ |>.mp (String.append_left_inj _ |>.mp h)

/-! ## 3. The queries of a job -/

/-- A query puts the table into a frame if its name is plain, and else there is none. -/
structure Frames (f : Frame) (query : String → Except Failure String) : Prop where
  ok : ∀ table, IsPlainName table → query table = .ok (f.around table)
  error : ∀ table, ¬IsPlainName table → query table = .error (.invalidTableName table)
  /-- All quotes, blanks, semicolons and marks of comments are those of the frame. -/
  filter : ∀ table sql, query table = .ok sql → sql.toList.filter (fun c => ¬IsPlain c) =
    (f.before ++ f.after).toList.filter fun c => ¬IsPlain c
  injective : ∀ table table' sql, query table = .ok sql → query table' = .ok sql → table = table'

theorem frames_of_isFramed {template : List Piece} (h : IsFramed template)
    {query : String → Except Failure String}
    (hquery : ∀ table, query table =
      (checkTable table).map fun table => render (values table) template) :
    Frames (frame template) query := by
  have hok (table : String) (hname : IsPlainName table) :
      query table = .ok ((frame template).around table) := by
    rw [hquery, (checkTable_eq table).1 hname, ← render_of_isFramed h table]
    rfl
  have herror (table : String) (hname : ¬IsPlainName table) :
      query table = .error (.invalidTableName table) := by
    rw [hquery, (checkTable_eq table).2 hname]
    rfl
  have heq (table sql : String) (hsql : query table = .ok sql) :
      IsPlainName table ∧ sql = (frame template).around table := by
    by_cases hname : IsPlainName table
    · rw [hok table hname, Except.ok.injEq] at hsql
      exact ⟨hname, hsql.symm⟩
    · rw [herror table hname] at hsql
      cases hsql
  refine ⟨hok, herror, fun table sql hsql => ?_, fun table table' sql hsql hsql' => ?_⟩
  · obtain ⟨hname, rfl⟩ := heq table sql hsql
    exact filter_around (frame template) hname
  · exact around_injective ((heq table sql hsql).2.symm.trans (heq table' sql hsql').2)

theorem frames_selectQuery : Frames (frame selectTemplate) selectQuery := by
  refine frames_of_isFramed isFramed_selectTemplate fun table => ?_
  rw [selectQuery]
  cases checkTable table <;> rfl

theorem frames_updateQuery : Frames (frame updateTemplate) updateQuery := by
  refine frames_of_isFramed isFramed_updateTemplate fun table => ?_
  rw [updateQuery]
  cases checkTable table <;> rfl

theorem payload_of_not_isTableName {j : RepairJob} (h : isTableName j.table = false) :
    j.payload = .error (.invalidTableName j.table) := by
  simp [payload, checkTable, h]

theorem payload_of_isTableName {j : RepairJob} (h : isTableName j.table = true) :
    j.payload = .ok ⟨id, j.table, (frame selectTemplate).around j.table,
      (frame updateTemplate).around j.table, j.dryRun⟩ := by
  have hname := isTableName_iff.mp h
  rw [payload, (checkTable_eq j.table).1 hname, frames_selectQuery.ok j.table hname,
    frames_updateQuery.ok j.table hname]

/-- Both queries and the payload of a job are refused together, with one failure, unless the name of
its table is plain. Then each query is a frame around the name, and the payload has these two. So
what is not plain in a query comes from its template, and no two tables have a query in common. -/
theorem table_in_queries :
    Frames (frame selectTemplate) selectQuery ∧ Frames (frame updateTemplate) updateQuery ∧
    ∀ (table : String) (dryRun : Bool),
      (IsPlainName table → payload ⟨table, dryRun⟩ =
        .ok ⟨id, table, (frame selectTemplate).around table, (frame updateTemplate).around table,
          dryRun⟩) ∧
      (¬IsPlainName table → payload ⟨table, dryRun⟩ = .error (.invalidTableName table)) := by
  refine ⟨frames_selectQuery, frames_updateQuery, fun table dryRun => ⟨fun h => ?_, fun h => ?_⟩⟩
  · exact payload_of_isTableName (isTableName_iff.mpr h)
  · exact payload_of_not_isTableName (Bool.eq_false_iff.mpr (mt isTableName_iff.mp h))

example : (frame selectTemplate).before = "WHERE jsonb_path_query_first(\n    " := by decide +kernel

example : selectQuery "image; --" = .error (.invalidTableName "image; --") := by decide +kernel

end MediaCatalog.RepairJob
