import MediaCatalog.Json.Printer
import MediaCatalog.Json.Selection

/-! What the orchestrator needs to know for a batched update of a table. -/

namespace MediaCatalog.BatchedUpdate

structure Payload where
  /-- Names the run's temporary table. -/
  queryId : String
  tableName : String
  /-- The `WHERE` clause that selects the rows. -/
  selectQuery : String
  /-- The `SET` clause that each of them gets. -/
  updateQuery : String
  dryRun : Bool
  deriving DecidableEq, Repr

namespace Payload

def json (p : Payload) : Json :=
  .object [("query_id", .string p.queryId), ("table_name", .string p.tableName),
    ("select_query", .string p.selectQuery), ("update_query", .string p.updateQuery),
    ("dry_run", .bool p.dryRun)]

/-- Members in any order, each once, and others beside them. -/
def ofMembers? (members : Json.Members) : Option Payload := do
  let queryId ← (← (← members.once? "query_id")).string?
  let tableName ← (← (← members.once? "table_name")).string?
  let selectQuery ← (← (← members.once? "select_query")).string?
  let updateQuery ← (← (← members.once? "update_query")).string?
  let dryRun ← (← (← members.once? "dry_run")).bool?
  return ⟨queryId, tableName, selectQuery, updateQuery, dryRun⟩

/-- An object, or the values alone in their order. -/
def ofJson? : Json → Option Payload
  | .object members => ofMembers? members
  | .array [.string queryId, .string tableName, .string selectQuery, .string updateQuery,
      .bool dryRun] => some ⟨queryId, tableName, selectQuery, updateQuery, dryRun⟩
  | _ => none

def keys : List String :=
  ["query_id", "table_name", "select_query", "update_query", "dry_run"]

def parse? (text : String) : Option Payload :=
  (Json.readFor? keys text.toList).bind ofJson?

end Payload

end MediaCatalog.BatchedUpdate
