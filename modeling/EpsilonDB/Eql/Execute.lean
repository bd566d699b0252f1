import EpsilonDB.Api.Scripts
import EpsilonDB.Eql.Shadow

/-!
# Statement execution (`eql/epsilon_eql.c`)

SQLite is a parameter: what it makes of a text, and what a run of it does to the shadow
tables. The engine checks the permission of the statement's class on every reference before
it looks at a document, and carries the row events of a run back to the shards.

- `Sqlite`: preparing and running a statement.
- `denyAuthorizer`: one class of row changes is allowed, on the shadow tables.
- `statementTables`: the tables of a statement with the columns its text names.
- `processEvents`: the write-back, event by event.
- `edbEqlExecute`: the whole of it. A result carries a status and a document.
-/

namespace EpsilonDB.Eql

open Lua (LuaEvent)

/-! ## SQLite -/

/-- The row changes SQLite tells apart. -/
inductive SqlOp where
  | insert
  | update
  | delete
deriving DecidableEq

/-- The actions that are refused whatever they are about. -/
inductive RefusedAction where
  | attach | detach
  | createIndex | createTable | createTempIndex | createTempTable
  | createTempTrigger | createTempView | createTrigger | createView
  | pragma | transaction | savepoint | reindex | analyze | alterTable
deriving DecidableEq

/-- What the compiler asks the authorizer. An UPDATE names the column it assigns. -/
inductive Action where
  | dml (op : SqlOp) (table : CString) (column : Option CString)
  | refused (action : RefusedAction)
  | other
deriving DecidableEq

/-- `eql_dml_ev`: a call of the update hook. -/
structure Event where
  table : CString
  op : SqlOp
  rowid : Int
deriving DecidableEq

/-- How a run ends. -/
inductive Ending where
  | done
  | interrupted
  | failed (message : CString)
deriving DecidableEq

/-- A run: the rows it returns, how it ends, the tables after it and the calls of the update
hook. -/
structure Run (D : Type) where
  rows : List (List (SqlValue D))
  ending : Ending
  after : List (Shadow D)
  events : List Event

/-- A compiled statement. -/
structure Prepared (D : Type) where
  actions : List Action
  /-- there is a statement, and it is `sqlite3_stmt_readonly` -/
  readonly : Bool
  tail : CString
  columns : List CString
  run : List (Shadow D) → Run D

/-- The database engine. -/
structure Sqlite (D : Type) where
  /-- the text creates a table the engine's own statements compile against -/
  creates : CString → Bool
  /-- a text against the tables, by name and columns -/
  prepare : CString → List (CString × List CString) → Except CString (Prepared D)
  /-- the message of a refused action -/
  authError : CString
  /-- the text of a number -/
  realText : D → CString

/-- `deny_authorizer`: whether the action is allowed. -/
def denyAuthorizer (tables : List CString) (allowOp : Option SqlOp) : Action → Bool
  | .dml op table _ => allowOp = some op && table ∈ tables
  | .refused _ => false
  | .other => true

/-- The class of changes a statement declares. -/
def Kind.allowOp : Kind → Option SqlOp
  | .delete => some .delete
  | .update => some .update
  | .insert => some .insert
  | .select | .other => none

/-- The permission a statement needs on everything it references. -/
def Kind.permission : Kind → Permission
  | .delete => .delete
  | .update => .update
  | .insert => .create
  | .select | .other => .read

/-- `EQL_MAX_EVENTS`. -/
def maxEvents : Nat := 2 ^ 20

variable {σ D : Type} [Doubles D]

/-- What the engine works with. An uninitialised buffer reads as `junk`. -/
structure Ctx (σ D : Type) [Doubles D] where
  backend : Backend σ D
  codec : Codec D
  sqlite : Sqlite D
  junk : CString
  /-- what the code does that is attached to events -/
  scripts : Scripts σ D

/-- A response: its status, and its body where there is one. -/
abbrev Result (D : Type) := Nat × Option (Json D)

/-- `error_response`. -/
def errorResponse (message : CString) : Option (Json D) :=
  some (.obj [(cstr "status", .str (cstr "error")), (cstr "message", .str message)])

variable (ctx : Ctx σ D)

/-! ## Write-back -/

/-- `EQL_WRITE_ATTEMPTS` writes at most; the code of the last one. -/
def writeAttempts (w : StoreWrite D) : Nat → Nat → σ → Nat × σ
  | 0, code, s => (code, s)
  | n + 1, _, s =>
    match ctx.backend.write w s with
    | (.ok, s) => (200, s)
    | (.quorumLost, s) => writeAttempts w n 503 s
    | (.localFail, s) => writeAttempts w n 500 s

/-- A change of the write-back: a document put, or a record deleted. -/
structure Change (D : Type) where
  table : Table
  ks : CString
  id : CString
  value : Option (Json D)

/-- The write of a change. -/
def Change.write (c : Change D) : StoreWrite D :=
  match c.value with
  | some doc => .replay c.table.db c.table.part c.ks c.id doc
  | none => .delete c.table.db c.table.part c.ks c.id

/-- `replicate_record`: a put registers its keyspace. Where no replication service does, it fires
the event that follows the write. -/
def replicateRecord (c : Change D) (s : σ) : Nat × σ :=
  let existing := ctx.backend.get s c.table.part c.ks c.id
  let (code, s) := writeAttempts ctx c.write 3 0 s
  let s :=
    if code = 200 ∧ c.value.isSome = true then
      edbPartitionEnsure ctx.backend c.table.db c.table.part c.ks s
    else s
  if code = 200 ∧ c.table.db ≠ systemDb ∧ ctx.backend.replicated = false then
    let event : LuaEvent :=
      match c.value with
      | some _ => if existing.isSome then .afterUpdate else .afterInsert
      | none => .afterDelete
    let arg : EventArg D := ⟨c.table.db, c.table.part, c.ks, c.id,
      match c.value with
      | some _ => none
      | none => existing, 0, true⟩
    (code, (ctx.scripts.edbLuaFire ctx.backend event arg s).2)
  else (code, s)

/-- `sqlite3_column_text`. -/
def columnText : SqlValue D → CString
  | .null => []
  | .int i => cstr (toString i)
  | .real d => ctx.sqlite.realText d
  | .text s => s
  | .blob b => cString b

/-- The column equals the integer. -/
def SqlValue.isInt (i : Int) : SqlValue D → Bool
  | .int j => i = j
  | .real d => d = Doubles.ofInt64 i
  | _ => false

/-- The row behind `SELECT … WHERE rowid=?`: a column of that name hides the rowid. -/
def readRow (sh : Shadow D) (rowid : Int) : Option (ShadowRow D) :=
  match sh.cols.findIdx? fun c => strcasecmpEq c (cstr "rowid") with
  | some i => sh.rows.find? fun r => (r.values.getD i .null).isInt rowid
  | none => sh.rows.find? fun r => r.rowid = rowid

/-- The state of the event loop. -/
structure Replay (σ : Type) where
  map : List RowRec
  applied : List CString
  failed : List CString
  state : σ

/-- Send a change and report its id. -/
def Replay.send (r : Replay σ) (c : Change D) : Replay σ :=
  let (code, s) := replicateRecord ctx c r.state
  if code = 200 then { r with applied := r.applied ++ [c.id], state := s }
  else { r with failed := r.failed ++ [c.id], state := s }

/-- Report a row that has no record. -/
def Replay.unknown (r : Replay σ) : Replay σ := { r with failed := r.failed ++ [cstr "-"] }

/-- One event of `process_events`. -/
def processEvent (tables : List Table) (after : List (Shadow D)) (r : Replay σ) (ev : Event) :
    Replay σ :=
  match tables.find? fun t => t.tableAlias = ev.table, after.find? fun sh => sh.name = ev.table with
  | some t, some sh =>
    match ev.op with
    | .delete =>
      match mapTake r.map ev.table ev.rowid with
      | none => r.unknown
      | some (e, map) => { r with map }.send ctx ⟨t, e.ks, e.id, none⟩
    | .insert | .update =>
      match readRow sh ev.rowid with
      | none =>
        match mapTake r.map ev.table ev.rowid with
        | none => r.unknown
        | some (e, map) => { r with map, applied := r.applied ++ [e.id] }
      | some row =>
        let curId := snprintf 512 (columnText ctx row.id)
        let put := fun ks => (⟨t, ks, curId, some (rowToDoc ctx.codec t row.values)⟩ : Change D)
        match mapTake r.map ev.table ev.rowid with
        | none =>
          { r with map := mapAddKs r.map ev.table ev.rowid curId ctx.junk }.send ctx
            (put (if t.pw then [] else t.ks))
        | some (e, map) =>
          let r := { r with map := mapAddKs map ev.table ev.rowid curId e.ks }
          -- a new id is a delete of the old one and a put
          let r := if e.id ≠ curId then r.send ctx ⟨t, e.ks, e.id, none⟩ else r
          r.send ctx (put e.ks)
  | _, _ => r

/-- `process_events`. -/
def processEvents (tables : List Table) (after : List (Shadow D)) (map : List RowRec)
    (events : List Event) (s : σ) : Replay σ :=
  events.foldl (processEvent ctx tables after) ⟨map, [], [], s⟩

/-! ## Execution -/

/-- The tables of a statement, with the columns its text names. -/
def statementTables (sql : CString) : List Table :=
  let tables := (collectRefs sql).map fun t => { t with cols := [(cstr "id", false)] }
  match classifyStatement sql with
  | .insert => scanInsertColumns sql tables
  | .update => scanUpdateColumns sql tables
  | _ => tables

/-- `perm_denied`. -/
def permDenied (s : σ) (groups : UInt64) (trusted : Bool) (perm : Permission) (t : Table) : Bool :=
  !trusted && !partitionAllows ctx.backend s t.db t.part groups perm

/-- What a statement is refused for before anything is read. -/
def refusal (sql : CString) (groups : UInt64) (trusted : Bool) (s : σ) : Option (Result D) :=
  if sql = [] then some (400, none)
  else
    let tables := collectRefs sql
    let kind := classifyStatement sql
    if tables = [] then
      some (400, errorResponse
        (cstr "no Database.Partition.Keyspace reference found in FROM/JOIN"))
    else if kind = .insert ∧ tables.any Table.pw = true then
      some (400, errorResponse
        (cstr "INSERT requires an explicit Database.Partition.Keyspace reference"))
    else if tables.any (permDenied ctx s groups trusted kind.permission) then
      some (403, errorResponse (cstr "permission denied"))
    else none

/-- The materialised tables of a statement. -/
structure Materialized (D : Type) where
  tables : List Table := []
  shadows : List (Shadow D) := []
  map : List RowRec := []

/-- Materialise one more table. -/
def materializeNext (s : σ) (m : Materialized D) (t : Table) : Option (Materialized D) :=
  let docs := fetchDocs ctx.backend s t
  let t := withColumns t docs
  match createSql t with
  | none => none
  | some text =>
    if ctx.sqlite.creates text then
      let (shadow, map) := materialize ctx.codec t docs m.map
      some ⟨m.tables ++ [t], m.shadows ++ [shadow], map⟩
    else none

/-- All of them, or nothing where a table cannot be created. -/
def materializeAll (s : σ) (tables : List Table) : Option (Materialized D) :=
  tables.foldlM (materializeNext ctx s) {}

/-- `sqlite3_prepare_v2` of the rewritten text under the authorizer, and the check that
nothing follows the statement. -/
def prepareStatement (sql : CString) (shadows : List (Shadow D)) :
    Except (Option (Json D)) (Prepared D) :=
  let kind := classifyStatement sql
  match ctx.sqlite.prepare (rewriteSql (statementTables sql) sql)
      (shadows.map fun sh => (sh.name, cstr "id" :: sh.cols)) with
  | .error msg => .error (errorResponse msg)
  | .ok p =>
    if !p.actions.all (denyAuthorizer (shadows.map Shadow.name) kind.allowOp) then
      .error (errorResponse
        (if kind.isDml then ctx.sqlite.authError
        else cstr "only SELECT statements are supported"))
    else if (p.tail.dropWhile fun c => c == 59 || c == 32 || c == 10 || c == 13 || c == 9) ≠ [] then
      .error (errorResponse (cstr "one statement per request"))
    else .ok p

/-- The answer of a query. -/
def selectResult (p : Prepared D) (run : Run D) : Result D :=
  if !p.readonly then (400, errorResponse (cstr "only SELECT statements are supported"))
  else match run.ending with
  | .interrupted => (400, errorResponse (cstr "statement exceeded the execution time limit"))
  | .failed msg => (400, errorResponse msg)
  | .done =>
    (200, some (.obj [(cstr "columns", .arr (p.columns.map .str)),
      (cstr "rows", .arr (run.rows.map fun row => .arr (row.map columnJson))),
      (cstr "status", .str (cstr "ok"))]))

/-- The name of an operation. -/
def Kind.opName : Kind → CString
  | .delete => cstr "delete"
  | .update => cstr "update"
  | _ => cstr "insert"

/-- The answer of a statement whose changes were sent. -/
def dmlResult (kind : Kind) (applied failed : List CString) : Result D :=
  let total := applied.length + failed.length
  let report := [(cstr "count", .num (Doubles.ofInt64 total)),
    (cstr "applied", .arr (applied.map .str)), (cstr "failed", .arr (failed.map .str))]
  if applied ≠ [] ∨ total = 0 then
    (200, some (.obj ((cstr "status", .str (cstr "ok")) :: (cstr "op", .str kind.opName) :: report)))
  else
    (503, some (.obj ((cstr "status", .str (cstr "error")) ::
      (cstr "message", .str (cstr "no records were replicated for this statement")) :: report)))

/-- What a run commits: the statement is done at its first step, and its events were kept. -/
def commits (run : Run D) (events : List Event) : Except CString Unit :=
  match run.ending with
  | .interrupted => .error (cstr "statement exceeded the execution time limit")
  | .failed msg =>
    .error (if maxEvents < events.length then cstr "too many changes for one statement" else msg)
  | .done =>
    if maxEvents < events.length then .error (cstr "too many changes for one statement")
    else if run.rows ≠ [] then .error (cstr "another row available")
    else .ok ()

/-- The calls of `trap_row_update` that are about a shadow table. -/
def trapped (tables : List Table) (events : List Event) : List Event :=
  events.filter fun ev => ev.table ∈ tables.map Table.tableAlias

/-- `edb_eql_execute`. -/
def edbEqlExecute (sql : CString) (groups : UInt64) (trusted : Bool) (s : σ) : Result D × σ :=
  match refusal ctx sql groups trusted s with
  | some r => (r, s)
  | none =>
    match materializeAll ctx s (statementTables sql) with
    | none => ((500, none), s)
    | some m =>
      match prepareStatement ctx sql m.shadows with
      | .error body => ((400, body), s)
      | .ok p =>
        let kind := classifyStatement sql
        let run := p.run m.shadows
        if !kind.isDml then (selectResult p run, s)
        else
          let events := trapped m.tables run.events
          match commits run events with
          | .error msg => ((400, errorResponse msg), s)
          | .ok () =>
            let r := processEvents ctx m.tables run.after m.map events s
            (dmlResult kind r.applied r.failed, r.state)

end EpsilonDB.Eql
