import MediaCatalog.Text.Blank
import MediaCatalog.Workflow.Failure

/-!
The SQL of a tag repair: which rows to select, how to update them, and the database function that
decodes a name. Only a plain lower-case name is put into SQL.
-/

namespace MediaCatalog.RepairJob

/-- The longest name of a table, in bytes. -/
def maxNameLength : Nat := 63

def isNameStart (c : Char) : Bool :=
  c.isLower || c == '_'

def isNameChar (c : Char) : Bool :=
  c.isLower || c.isDigit || c == '_'

/-- A table name that needs no quotes. -/
def isTableName (name : String) : Bool :=
  name.utf8ByteSize ≤ maxNameLength &&
    match name.toList with
    | [] => false
    | c :: rest => isNameStart c && rest.all isNameChar

/-- The database function that decodes a name. -/
def decodeFunction : String := "ov_unistr"

/-- Installs the function. A missing name stays missing. -/
def installStatement : String :=
  s!"CREATE OR REPLACE FUNCTION {decodeFunction} (string text)\n" ++
  "    RETURNS text\n" ++
  "    STRICT\n" ++
  "AS $$\n" ++
  "    return string.encode(\"latin-1\", \"backslashreplace\").decode(\"unicode_escape\")\n" ++
  "$$ LANGUAGE plpython3u;"

/-- Holds of a tag whose name has an escape for one or two bytes. -/
def escapedName : String :=
  "(@.name like_regex \"\\\\\\\\(x)([\\\\da-f]\x7b2\x7d)|\\\\\\\\(u)([\\\\da-f]\x7b4\x7d)\" flag \"i\")"

/-! ## Templates -/

/-- What a template leaves open. -/
inductive Slot where
  | table
  | predicate
  | function
  deriving DecidableEq

inductive Piece where
  | fixed (text : String)
  | slot (s : Slot)
  deriving DecidableEq

def Piece.fill (values : Slot → String) : Piece → String
  | .fixed text => text
  | .slot s => values s

/-- The text of a template, with the values as they are, and without the blanks around it. -/
def render (values : Slot → String) (template : List Piece) : String :=
  Text.trim (String.join (template.map (Piece.fill values)))

/-- Holds of the rows that have a tag with an escaped name. -/
def selectTemplate : List Piece := [
  .fixed "WHERE jsonb_path_query_first(\n",
  .fixed "    ",
  .slot .table,
  .fixed ".tags,\n",
  .fixed "    '$[*] ? ",
  .slot .predicate,
  .fixed "'\n",
  .fixed ") IS NOT NULL\n"]

/-- Decodes the names of a row's tags and keeps one tag of each name and provider. -/
def updateTemplate : List Piece := [
  .fixed "SET updated_on = now(),\n",
  .fixed "tags = (\n",
  .fixed "    SELECT\n",
  .fixed "        jsonb_agg(\n",
  .fixed "            CASE\n",
  .fixed "                WHEN decoded.fixed_name IS NULL THEN decoded.tag\n",
  .fixed "                ELSE jsonb_set(decoded.tag, '\x7bname\x7d', decoded.fixed_name)\n",
  .fixed "            END\n",
  .fixed "        )\n",
  .fixed "    FROM (\n",
  .fixed "        SELECT DISTINCT ON (fixed_name, tag->'provider')\n",
  .fixed "            to_jsonb(",
  .slot .function,
  .fixed "(tag->>'name')) fixed_name,\n",
  .fixed "            tag\n",
  .fixed "        FROM jsonb_array_elements(",
  .slot .table,
  .fixed ".tags || '[]'::jsonb) tag\n",
  .fixed "    ) decoded\n",
  .fixed ")\n"]

/-! ## Queries -/

/-- What is put into a template for a table. -/
def values (table : String) : Slot → String
  | .table => table
  | .predicate => escapedName
  | .function => decodeFunction

/-- The name, or that it is no table name. -/
def checkTable (name : String) : Except Failure String :=
  if isTableName name then .ok name else .error (.invalidTableName name)

def selectQuery (table : String) : Except Failure String :=
  match checkTable table with
  | .ok table => .ok (render (values table) selectTemplate)
  | .error failure => .error failure

def updateQuery (table : String) : Except Failure String :=
  match checkTable table with
  | .ok table => .ok (render (values table) updateTemplate)
  | .error failure => .error failure

end MediaCatalog.RepairJob
