import EpsilonDB.Api.Scripts

/-!
# The data routes (`api/epsilon_api.c`, `api/epsilon_api_data.c`)

The REST surface of the store: put, get and delete of one record, and the collection reads.
A handler answers a request and may change the store. A write fires an event before it, and
another one after it where no replication service fires it. Analytics are left out, and allocation
succeeds.

- `DataRequest`: what the handlers read of a request. The credentials have been looked at:
  `caller` is what `authenticate` makes of them.
- `splitDataPath`: the four names of a record path.
- `handleDataPut`, `handleDataGet`, `handleDataDelete`, `handleDataCollect`: the routes.
- `partitionWideQuery`: the collection read that names no keyspace.
-/

namespace EpsilonDB

open Lua (LuaEvent)

/-- The server-wide context of the handlers. -/
structure Server (σ D : Type) [Doubles D] where
  codec : Codec D
  backend : Backend σ D
  /-- `edb_filters_valid`, and the conditions its filters are compiled to -/
  compile : Json D → Option (Json D → Bool)
  /-- `g_restore_locked` -/
  restoreLocked : Bool
  /-- what the code does that is attached to events -/
  scripts : Scripts σ D

/-- A request to a data route. -/
structure DataRequest where
  method : CString
  path : CString
  query : CString
  body : Bytes
  /-- the groups of the caller, or nothing where authentication fails -/
  caller : Option UInt64
  /-- it came in over the admin socket -/
  trusted : Bool := false

structure Response where
  status : Nat
  body : CString
deriving DecidableEq

/-! ## Texts -/

/-- `strtok_r` with the delimiter `'/'`: the next token and what is left. -/
def strtok (s : CString) : Option (CString × CString) :=
  let t := s.dropWhile fun c => c == 47
  if t = [] then none
  else some (t.takeWhile fun c => c != 47, (t.dropWhile fun c => c != 47).drop 1)

/-- The tokens of a path, up to `n` of them. -/
def tokens : Nat → CString → List CString
  | 0, _ => []
  | n + 1, s =>
    match strtok s with
    | none => []
    | some (tok, rest) => tok :: tokens n rest

/-- The path after `"/data/"`, in 1024 bytes. -/
def dataPath (path : CString) : Option CString :=
  if (cstr "/data/").isPrefixOf path then some (snprintf 1024 (path.drop 6)) else none

/-- `split_data_path`: database, partition, keyspace and id. -/
def splitDataPath (path : CString) : Option (CString × CString × CString × CString) := do
  let work ← dataPath path
  let work := if work.getLast? = some 47 then work.dropLast else work
  let (db, work) ← strtok work
  let (partition, work) ← strtok work
  let (keyspace, rest) ← strtok work
  if rest = [] ∨ 47 ∈ rest then none
  else
    return (snprintf 128 db, snprintf 256 partition, snprintf 128 keyspace, snprintf 512 rest)

/-- `query_param` in `cap` bytes: the value of the first parameter that has one. -/
def queryParam (query name : CString) (cap : Nat) : Option CString :=
  let head := name ++ cstr "="
  ((query.splitOn 38).find? fun seg =>
    head.isPrefixOf seg && decide (head.length < seg.length)).map fun seg =>
      snprintf cap (seg.drop head.length)

/-- `strtoll` in base 10: what the leading digits stand for, clamped. -/
def strtoll (s : CString) : Int :=
  let (negative, t) := match s.dropWhile isSpace with
    | 45 :: t => (true, t)
    | 43 :: t => (false, t)
    | t => (false, t)
  let n : Int := decimal (t.takeWhile isDigit)
  if negative then max (-2 ^ 63) (-n) else min (2 ^ 63 - 1) n

variable {σ D : Type} [Doubles D] (srv : Server σ D)

/-! ## Responses -/

/-- `respond_error`. -/
def respondError (status : Nat) (message : CString) : Response :=
  ⟨status, srv.codec.print (.obj [(cstr "error", .str message)])⟩

/-- `respond_json`. -/
def respondJson (status : Nat) (v : Json D) : Response := ⟨status, srv.codec.print v⟩

/-- `body_json`. -/
def bodyJson (body : Bytes) : Option (Json D) :=
  if body = [] then none else srv.codec.parse body

/-- `"expected /data/{db}/{partition}/{keyspace}/{id}"`. -/
def recordPathError : CString :=
  cstr "expected /data/\x7bdb\x7d/\x7bpartition\x7d/\x7bkeyspace\x7d/\x7bid\x7d"

/-- `"{\"status\":\"…\",\"id\":\"…\"}"`, the id unescaped. -/
def statusBody (status : String) (id : CString) : CString :=
  cstr "\x7b\"status\":\"" ++ cstr status ++ cstr "\",\"id\":\"" ++ id ++ cstr "\"\x7d"

/-! ## One record -/

/-- `api_fire_lua` -/
def Server.apiFireLua (event : LuaEvent) (arg : EventArg D) (s : σ) : FireOutcome D × σ :=
  srv.scripts.apiFireLua srv.backend event arg s

/-- The answer to a write that the code of a before event has stopped. -/
def respondRejected (reason : Option CString) : Response :=
  respondError srv 403
    (snprintf 640 (cstr "rejected: " ++ reason.getD (cstr "script rollback")))

/-- The write of `handle_data_put`, with the document that the before event has left. -/
def storeRecord (groups : UInt64) (isUpdate : Bool) (db partition keyspace id : CString)
    (doc : Json D) (ttl : Int) (s : σ) : Response × σ :=
  match srv.backend.write (.put db partition keyspace id doc ttl) s with
  | (.quorumLost, s) => (respondError srv 503 (cstr "quorum unavailable: write rejected"), s)
  | (.localFail, s) => (respondError srv 500 (cstr "storage failed"), s)
  | (.ok, s) =>
    let s := edbPartitionEnsure srv.backend db partition keyspace s
    (⟨200, statusBody "ok" id⟩,
      if srv.backend.replicated then s
      else
        (srv.apiFireLua (if isUpdate then .afterUpdate else .afterInsert)
          ⟨db, partition, keyspace, id, none, groups, false⟩ s).2)

/-- The end of `handle_data_put`: what the record decides, the before event and the write. -/
def putRecord (groups : UInt64) (db partition keyspace id : CString) (doc : Json D) (ttl : Int)
    (s : σ) : Response × σ :=
  let isUpdate := (srv.backend.get s partition keyspace id).isSome
  if partitionAllows srv.backend s db partition groups (if isUpdate then .update else .create) then
    let (outcome, s) := srv.apiFireLua (if isUpdate then .beforeUpdate else .beforeInsert)
      ⟨db, partition, keyspace, id, some doc, groups, false⟩ s
    match outcome.result, outcome.value with
    | .rollback, _ => (respondRejected srv outcome.reason, s)
    | .error, _ => (respondError srv 500 (cstr "script error"), s)
    | .ok, none => (respondError srv 500 (cstr "encode failed"), s)
    | .ok, some doc => storeRecord srv groups isUpdate db partition keyspace id doc ttl s
  else (respondError srv 403 (cstr "permission denied"), s)

/-- `handle_data_put`. -/
def handleDataPut (req : DataRequest) (s : σ) : Response × σ :=
  match splitDataPath req.path with
  | none => (respondError srv 400 recordPathError, s)
  | some (db, partition, keyspace, id) =>
    if (bufFind (cstr "filter=") req.query).isSome then
      (respondError srv 400 (cstr "filters apply to reads, not stored records"), s)
    else if srv.restoreLocked then (respondError srv 503 (cstr "restore in progress"), s)
    else match req.caller with
    | none => (respondError srv 401 (cstr "unauthorized"), s)
    | some groups => match (bodyJson srv req.body).filter Json.isObject with
      | none => (respondError srv 400 (cstr "body must be a JSON object"), s)
      | some doc =>
        let ttl := ((queryParam req.query (cstr "ttl") 32).map strtoll).getD (-1)
        putRecord srv groups db partition keyspace id doc ttl s

/-- The end of `handle_data_get`. -/
def getRecord (groups : UInt64) (db partition keyspace id : CString) (s : σ) : Response :=
  if partitionAllows srv.backend s db partition groups .read then
    match srv.backend.readGet s db partition keyspace id with
    | none => respondError srv 404 (cstr "not found")
    | some doc => respondJson srv 200 doc
  else respondError srv 403 (cstr "permission denied")

/-- `handle_data_get`. -/
def handleDataGet (req : DataRequest) (s : σ) : Response × σ :=
  match splitDataPath req.path with
  | none => (respondError srv 400 recordPathError, s)
  | some (db, partition, keyspace, id) =>
    if srv.restoreLocked then (respondError srv 503 (cstr "restore in progress"), s)
    else match req.caller with
    | none => (respondError srv 401 (cstr "unauthorized"), s)
    | some groups => (getRecord srv groups db partition keyspace id s, s)

/-- The end of `handle_data_delete`: both events are shown the document as it was. -/
def deleteRecord (groups : UInt64) (db partition keyspace id : CString) (s : σ) : Response × σ :=
  if partitionAllows srv.backend s db partition groups .delete then
    let arg : EventArg D :=
      ⟨db, partition, keyspace, id, srv.backend.get s partition keyspace id, groups, false⟩
    let (outcome, s) := srv.apiFireLua .beforeDelete arg s
    match outcome.result with
    | .rollback => (respondRejected srv outcome.reason, s)
    | .error => (respondError srv 500 (cstr "script error"), s)
    | .ok =>
      match srv.backend.write (.delete db partition keyspace id) s with
      | (.localFail, s) => (respondError srv 500 (cstr "delete failed"), s)
      | (.quorumLost, s) => (respondError srv 503 (cstr "quorum unavailable: delete rejected"), s)
      | (.ok, s) =>
        (⟨200, statusBody "deleted" id⟩,
          if srv.backend.replicated then s
          else (srv.apiFireLua .afterDelete { arg with value := outcome.value } s).2)
  else (respondError srv 403 (cstr "permission denied"), s)

/-- `handle_data_delete`. -/
def handleDataDelete (req : DataRequest) (s : σ) : Response × σ :=
  match splitDataPath req.path with
  | none => (respondError srv 400 recordPathError, s)
  | some (db, partition, keyspace, id) =>
    if srv.restoreLocked then (respondError srv 503 (cstr "restore in progress"), s)
    else match req.caller with
    | none => (respondError srv 401 (cstr "unauthorized"), s)
    | some groups => deleteRecord srv groups db partition keyspace id s

/-! ## Collections -/

/-- `doc_with_id`: the record key first, then the other members. -/
def docWithId (value : Json D) (id : CString) : Json D :=
  .obj ((cstr "id", .str id) :: value.members.filter fun m => m.1 ≠ cstr "id")

/-- `flatten_meta_rows`. -/
def flattenMetaRows (rows : List (CString × Int × Json D)) : List (Json D) :=
  (rows.filter fun r => r.2.2.isObject).map fun r => docWithId r.2.2 r.1

/-- `partition_wide_query`: the rows of every registered keyspace, newest first. -/
def partitionWideQuery (s : σ) (db partition : CString) (filters : Option (Json D → Bool)) :
    List (Json D) :=
  let rows := (partitionKeyspaces srv.backend s db partition 64).flatMap fun keyspace =>
    srv.backend.readQueryMeta s db partition keyspace filters
  flattenMetaRows (rows.insertionSort fun a b => b.2.1 ≤ a.2.1)

/-- The filters of a collection read, or the error they are refused with. -/
def requestFilters (req : DataRequest) : Except CString (Option (Json D → Bool)) :=
  let filters : Except CString (Option (Json D → Bool)) :=
    if req.body = [] then .ok none
    else match bodyJson srv req.body with
      | none => .error (cstr "body must be valid JSON")
      | some body =>
        match srv.compile ((body.get (cstr "filters")).getD body) with
        | none => .error (cstr "invalid JSON filter")
        | some sat => .ok (some sat)
  match filters with
  | .error e => .error e
  | .ok filters =>
    if (bufFind (cstr "filter=") req.query).isSome ||
        (bufFind (cstr "field=") req.query).isSome then
      .error (cstr "use structured JSON filters in the body")
    else .ok filters

/-- The names a collection path carries: database, partition, and a keyspace unless the
operation is a query of the whole partition. -/
def collectAddress (toks : List CString) : Option (CString × CString × Option CString) :=
  match toks with
  | [db, partition, keyspace, _] =>
    some (snprintf 128 db, snprintf 256 partition, some (snprintf 128 keyspace))
  | [db, partition, op] =>
    if op = cstr "query" then some (snprintf 128 db, snprintf 256 partition, none) else none
  | _ => none

/-- The end of `handle_data_collect`. -/
def collect (req : DataRequest) (groups : UInt64) (op db partition : CString)
    (keyspace : Option CString) (s : σ) : Response :=
  if partitionAllows srv.backend s db partition groups .read then
    match requestFilters srv req, keyspace with
    | .error e, _ => respondError srv 400 e
    | .ok filters, none => respondJson srv 200 (.arr (partitionWideQuery srv s db partition filters))
    | .ok filters, some keyspace =>
      if op = cstr "ids" then
        respondJson srv 200
          (.arr ((srv.backend.readIds s db partition keyspace filters).map .str))
      else
        respondJson srv 200
          (.arr (flattenMetaRows (srv.backend.readQueryMeta s db partition keyspace filters)))
  else respondError srv 403 (cstr "permission denied")

/-- The operations of a collection path. -/
def collectOps : List CString := [cstr "ids", cstr "all", cstr "query"]

/-- `handle_data_collect`. -/
def handleDataCollect (req : DataRequest) (s : σ) : Response × σ :=
  match dataPath req.path with
  | none => (respondError srv 400 (cstr "expected /data/..."), s)
  | some work =>
    if srv.restoreLocked then (respondError srv 503 (cstr "restore in progress"), s)
    else
      let toks := tokens 8 work
      let op := toks.getLast?.getD []
      if op ∉ collectOps then
        if req.method = cstr "GET" then handleDataGet srv req s
        else (respondError srv 404 (cstr "unknown operation"), s)
      else match collectAddress toks with
      | none =>
        (respondError srv 400
          (cstr "expected /data/\x7bdb\x7d/\x7bpartition\x7d/\x7bkeyspace\x7d/<op>"), s)
      | some (db, partition, keyspace) => match req.caller with
        | none => (respondError srv 401 (cstr "unauthorized"), s)
        | some groups => (collect srv req groups op db partition keyspace s, s)

/-- The data routes. -/
inductive Route where
  | put
  | delete
  | collect
deriving DecidableEq

/-- The handler of a route. -/
def handleData (route : Route) (req : DataRequest) (s : σ) : Response × σ :=
  match route with
  | .put => handleDataPut srv req s
  | .delete => handleDataDelete srv req s
  | .collect => handleDataCollect srv req s

end EpsilonDB
