import EpsilonDB.Api.Masks
import EpsilonDB.Api.Records
import EpsilonDB.Api.Surface
import EpsilonDB.Lua.Fire

/-!
# Administrative requests (`api/epsilon_api_{admin,settings,lua}.c`)

What a node does for an administrator who asks about databases, groups, users, partitions,
keyspaces, settings and code.

- `handleAdminDatabases` and its siblings: a request over any store, with its answer.
- `adminCall`: the requests that have to do with records only.
- `AdminLabel`: one request, the registration of a write, or time; `nodeStep`, `mapStep`.
- `admin_refines`: **in every run** a node answers as plain maps from ids to documents do.

The Lua compiler is a parameter, and a bit position is printed as a number like any other. The
names in the fixed texts of answers are spliced in as they are.
-/

namespace EpsilonDB

open Simulations Lua

/-! ## What the handlers share -/

section Handlers

variable {σ : Type} (srv : Server σ JsonDouble)

/-- The `valueint` that `cJSON_Parse` gives a number. -/
def valueInt (d : JsonDouble) : Int :=
  if .rat 2147483647 ≤ d then 2147483647
  else if d ≤ .rat (-2147483648) then -2147483648
  else Doubles.toInt64 d

/-- A body that has to be a JSON object. -/
def objectBody (req : AuthRequest) : Option (Json JsonDouble) :=
  (bodyJson srv req.body).filter Json.isObject

/-- An answer that depends on whether the store took the change. -/
def outcome (status : Nat) (done : CString) (failed : Nat) (message : String) (result : Bool × σ) :
    Response × σ :=
  (if result.1 then ⟨status, done⟩ else respondError srv failed (cstr message), result.2)

def created : CString := cstr "\x7b\"created\":true\x7d"
def updated : CString := cstr "\x7b\"updated\":true\x7d"
def deleted : CString := cstr "\x7b\"deleted\":true\x7d"

/-- `respond_error` with nothing changed. -/
def refuse (status : Nat) (message : String) (s : σ) : Response × σ :=
  (respondError srv status (cstr message), s)

/-- The last branch of the handlers. -/
def methodNotAllowed (s : σ) : Response × σ := refuse srv 405 "method not allowed" s

/-- The handlers look at the method first. -/
def isMethod (req : AuthRequest) (method : String) : Bool := req.method = cstr method

/-! ## Databases and groups -/

/-- `edb_database_list`. -/
def edbDatabaseList (B : Backend σ JsonDouble) (s : σ) : List DatabaseInfo :=
  (B.all s systemDb cfgDatabases).map fun item =>
    { name := copyName 128 item (cstr "name")
      replicationFactor :=
        match item.get (cstr "replication_factor") with
        | some (.num d) => valueInt d
        | _ => 1 }

/-- `handle_admin_databases`. -/
def handleAdminDatabases (req : AuthRequest) (s : σ) : Response × σ :=
  if isMethod req "GET" then
    (respondJson srv 200 (.arr ((edbDatabaseList srv.backend s).map fun info =>
      .obj [(cstr "name", .str info.name),
        (cstr "replication_factor", .num (Doubles.ofInt64 info.replicationFactor))])), s)
  else if isMethod req "POST" then
    match objectBody srv req with
    | none => refuse srv 400 "JSON object required" s
    | some body =>
      match body.getStr (cstr "name"), body.get (cstr "replication_factor") with
      | some name, some (.num rf) =>
        outcome srv 201 created 409 "create failed (duplicate?)"
          (edbDatabaseCreate srv.backend name (valueInt rf) s)
      | _, _ => refuse srv 400 "name and replication_factor required" s
  else methodNotAllowed srv s

/-- `handle_admin_groups`. -/
def handleAdminGroups (req : AuthRequest) (s : σ) : Response × σ :=
  if isMethod req "GET" then
    (respondJson srv 200 (.arr ((edbGroupList srv.backend s).map fun info =>
      .obj [(cstr "name", .str info.name),
        (cstr "bit_position", .num (ofUInt64 info.bitPosition))])), s)
  else if isMethod req "POST" then
    match objectBody srv req with
    | none => refuse srv 400 "JSON object required" s
    | some body =>
      match body.getStr (cstr "name") with
      | some name =>
        outcome srv 201 created 409 "create failed (duplicate/full)"
          (edbGroupCreate srv.backend name s)
      | none => refuse srv 400 "name required" s
  else methodNotAllowed srv s

/-! ## Users -/

/-- The password of a request, if it asks for one. -/
def passwordAsked (body : Json JsonDouble) : Option CString :=
  (body.getStr (cstr "password")).filter fun password => password ≠ []

/-- A change of a user, with the password after it. -/
def withPassword (name : CString) (password : Option CString) (salt : CString)
    (result : Bool × σ) : Bool × σ :=
  match result.1, password with
  -- a password that cannot be set leaves the user as it has just become
  | true, some password =>
    edbUserSetPassword srv.backend name password salt (hashPassword salt password) result.2
  | _, _ => result

/-- The name and the groups of a user in a request. -/
def userArgs (body : Json JsonDouble) : Option (CString × UInt64) :=
  match body.getStr (cstr "name"), jsonU64Value (body.get (cstr "groups")) with
  | some name, some groups => some (name, groups)
  | _, _ => none

/-- `handle_admin_users`, with the salt that is drawn for a password. -/
def handleAdminUsers (req : AuthRequest) (salt : CString) (s : σ) : Response × σ :=
  if isMethod req "GET" then
    (respondJson srv 200 (.arr ((edbUserList srv.backend s).map fun info =>
      .obj [(cstr "name", .str info.name), (cstr "groups", u64Json info.groups)])), s)
  else if isMethod req "POST" || isMethod req "PUT" then
    match objectBody srv req with
    | none => refuse srv 400 "JSON object required" s
    | some body =>
      match userArgs body with
      | none => refuse srv 400 "name and groups required" s
      | some (name, groups) =>
        if isMethod req "POST" then
          outcome srv 201 created 409 "create failed (duplicate?)"
            (withPassword srv name (passwordAsked body) salt
              (edbUserCreate srv.backend name groups s))
        else
          outcome srv 200 updated 404 "user not found"
            (withPassword srv name (passwordAsked body) salt
              (edbUserSetGroups srv.backend name groups s))
  else methodNotAllowed srv s

/-! ## Partitions and keyspaces -/

/-- An element of the list of partitions. -/
def partitionItem (info : PartitionInfo) : Json JsonDouble :=
  .obj [(cstr "database", .str info.database), (cstr "name", .str info.name),
    (cstr "read_mask", u64Json info.readMask), (cstr "update_mask", u64Json info.updateMask),
    (cstr "create_mask", u64Json info.createMask), (cstr "delete_mask", u64Json info.deleteMask)]

/-- The partitions of one database, or of all that are listed. -/
def listedPartitions (B : Backend σ JsonDouble) (database : Option CString) (s : σ) :
    List PartitionInfo :=
  match database with
  | some database => edbPartitionList B s database
  | none => (edbDatabaseList B s).flatMap fun info => edbPartitionList B s info.name

/-- The database, the name and the masks of a partition in a request. -/
def partitionArgs (body : Json JsonDouble) :
    Option (CString × CString × UInt64 × UInt64 × UInt64 × UInt64) := do
  let database ← body.getStr (cstr "database")
  let name ← body.getStr (cstr "name")
  let createMask ← jsonU64Value (body.get (cstr "create_mask"))
  let updateMask ← jsonU64Value (body.get (cstr "update_mask"))
  let readMask ← jsonU64Value (body.get (cstr "read_mask"))
  let deleteMask ← jsonU64Value (body.get (cstr "delete_mask"))
  return (database, name, createMask, updateMask, readMask, deleteMask)

/-- `handle_admin_partitions`. -/
def handleAdminPartitions (req : AuthRequest) (s : σ) : Response × σ :=
  if isMethod req "GET" then
    (respondJson srv 200 (.arr ((listedPartitions srv.backend
      (queryParam req.query (cstr "database") 128) s).map partitionItem)), s)
  else if isMethod req "POST" || isMethod req "PUT" then
    match objectBody srv req with
    | none => refuse srv 400 "JSON object required" s
    | some body =>
      match partitionArgs body with
      | none => refuse srv 400 "database, name and all four masks required" s
      | some (database, name, createMask, updateMask, readMask, deleteMask) =>
        if isMethod req "POST" then
          outcome srv 201 created 409 "create failed (duplicate?)"
            (edbPartitionCreate srv.backend database name createMask updateMask readMask deleteMask s)
        else
          outcome srv 200 updated 404 "partition not found"
            (edbPartitionSetMasks srv.backend database name createMask updateMask readMask
              deleteMask s)
  else methodNotAllowed srv s

/-- `handle_admin_keyspaces`. -/
def handleAdminKeyspaces (req : AuthRequest) (s : σ) : Response × σ :=
  let database := queryParam req.query (cstr "database") 128
  (respondJson srv 200 (.arr (((edbKeyspaceList srv.backend s).filter fun info =>
    database.all (info.database = ·)).map fun info =>
      .obj [(cstr "database", .str info.database), (cstr "partition", .str info.partition),
        (cstr "name", .str info.name)])), s)

/-! ## Deletes -/

/-- `sscanf(p, "%127[^/]/%255s", database, name)`. -/
def scanPartition (p : CString) : Option (CString × CString) :=
  let database := (p.takeWhile fun c => c != 47).take 127
  match database, p.drop database.length with
  | _ :: _, 47 :: rest => (scanWord 255 rest).map fun (name, _) => (database, name)
  | _, _ => none

/-- The path after a head. -/
def afterHead (head : String) (path : CString) : Option CString :=
  if (cstr head).isPrefixOf path then some (path.drop (cstr head).length) else none

/-- `handle_admin_delete`. -/
def handleAdminDelete (req : AuthRequest) (s : σ) : Response × σ :=
  let answer := outcome srv 200 deleted 404 "delete failed (not found?)"
  match afterHead "/admin/databases/" req.path with
  | some name => answer (edbDatabaseDelete srv.backend name s)
  | none =>
    match afterHead "/admin/groups/" req.path with
    | some name => answer (edbGroupDelete srv.backend name s)
    | none =>
      match afterHead "/admin/users/" req.path with
      | some name => answer (edbUserDelete srv.backend name s)
      | none =>
        match afterHead "/admin/partitions/" req.path with
        | some rest =>
          match scanPartition rest with
          | some (database, name) => answer (edbPartitionDelete srv.backend database name s)
          | none => refuse srv 400 "expected /admin/partitions/<database>/<name>" s
        | none => refuse srv 404 "unknown resource" s

/-! ## Settings -/

def cfgSettings : CString := cstr "config_settings"

/-- `edb_setting_list`. -/
def edbSettingList (B : Backend σ JsonDouble) (s : σ) : List CString :=
  (B.all s systemDb cfgSettings).filterMap fun item => item.getStr (cstr "name")

/-- `edb_setting_get`. -/
def edbSettingGet (s : σ) (name : CString) : Option CString :=
  (fetch srv.backend s cfgSettings name).bind fun obj =>
    (obj.get (cstr "value")).map srv.codec.print

/-- `edb_setting_set`. -/
def edbSettingSet (name jsonValue : CString) (s : σ) : Bool × σ :=
  if name = [] then (false, s)
  else
    match srv.codec.parse jsonValue with
    | none => (false, s)
    | some value =>
      store srv.backend cfgSettings name (.obj [(cstr "type", .str (cstr "setting")),
        (cstr "name", .str name), (cstr "value", value)]) s

/-- `edb_setting_delete`. -/
def edbSettingDelete (name : CString) (s : σ) : Bool × σ :=
  removeRecord srv.backend cfgSettings name s

/-- An element of the list of settings. -/
def settingItem (s : σ) (name : CString) : Json JsonDouble :=
  let value := edbSettingGet srv s name
  .obj [(cstr "name", .str name),
    (cstr "value", (value.bind srv.codec.parse).getD (.str (value.getD (cstr "null"))))]

/-- `handle_settings`. -/
def handleSettings (req : AuthRequest) (s : σ) : Response × σ :=
  let rest := req.path.drop (cstr "/admin/settings").length
  -- whatever byte comes first, it is taken for the slash
  let name := rest.drop 1
  if isMethod req "GET" then
    if rest = [] then
      (respondJson srv 200 (.arr ((edbSettingList srv.backend s).map (settingItem srv s))), s)
    else
      match edbSettingGet srv s name with
      | none => refuse srv 404 "unknown setting" s
      | some value => (⟨200, value⟩, s)
  else if isMethod req "POST" || isMethod req "PUT" then
    if rest = [] then refuse srv 400 "expected /admin/settings/<name> with JSON body" s
    else
      match bodyJson srv req.body with
      | none => refuse srv 400 "body must be valid JSON" s
      | some check =>
        outcome srv 200 (cstr "\x7b\"set\":\"" ++ name ++ cstr "\"\x7d") 500 "setting store failed"
          (edbSettingSet srv name (srv.codec.print check) s)
  else if isMethod req "DELETE" then
    if rest = [] then refuse srv 400 "expected /admin/settings/<name>" s
    else outcome srv 200 deleted 404 "unknown setting" (edbSettingDelete srv name s)
  else methodNotAllowed srv s

/-! ## Code -/

/-- `code_name_ok`. -/
def codeNameOk (name : CString) : Bool :=
  name ≠ [] && decide (name.length < 128) &&
    name.all fun c => !(decide (c < 32) || c == 127 || c == 47 || c == 92)

/-- A byte of an identifier after the first one. -/
def identByte (c : UInt8) : Bool :=
  c == 95 || (97 ≤ c && c ≤ 122) || (65 ≤ c && c ≤ 90) || (48 ≤ c && c ≤ 57)

/-- `lua_ident_ok`. -/
def luaIdentOk (name : CString) : Bool :=
  decide (name.length < 128) && name.all identByte &&
    match name with
    | [] => false
    | c :: _ => !(48 ≤ c && c ≤ 57)

/-- `edb_lua_event_parse`. -/
def edbLuaEventParse (name : CString) : Option LuaEvent :=
  [LuaEvent.beforeInsert, .afterInsert, .beforeUpdate, .afterUpdate, .beforeDelete,
    .afterDelete].find? fun event => event.name = name

/-- `edb_code_save`. -/
def edbCodeSave (B : Backend σ JsonDouble) (name : CString)
    (record : List (CString × Json JsonDouble)) (s : σ) : Bool × σ :=
  if name = [] then (false, s)
  else
    store B cfgCode name (.obj (record.filter (fun m => m.1 ≠ cstr "name") ++
      [(cstr "name", .str name)])) s

/-- `edb_code_load`. -/
def edbCodeLoad (B : Backend σ JsonDouble) (s : σ) (name : CString) : Option (Json JsonDouble) :=
  if name = [] then none else fetch B s cfgCode name

/-- `edb_code_delete`. -/
def edbCodeDelete (B : Backend σ JsonDouble) (name : CString) (s : σ) : Bool × σ :=
  if (edbCodeLoad B s name).isNone then (false, s) else removeRecord B cfgCode name s

/-- `code_list`. -/
def codeList (req : AuthRequest) (s : σ) : Response × σ :=
  let type := (queryParam req.query (cstr "type") 32).getD []
  if type ≠ cstr "function" ∧ type ≠ cstr "action" ∧ type ≠ [] then
    refuse srv 400 "type must be 'function' or 'action'" s
  else
    (respondJson srv 200 (.arr ((edbCodeList srv.backend s).filter fun record =>
      match record.getStr (cstr "type") with
      | some kind => (kind = cstr "function" ∨ kind = cstr "action") ∧ (type = [] ∨ type = kind)
      | none => false)), s)

/-- The code of a request, or a function of the name without a body. -/
def codeOr (body : Json JsonDouble) (name params : CString) : CString :=
  ((body.getStr (cstr "code")).filter fun code => code ≠ []).getD
    (cstr "function " ++ name ++ cstr " (" ++ params ++ cstr ")\n\nend\n")

/-- A name of a scope in a request, as its buffer holds it. -/
def scopeName (body : Json JsonDouble) (field : String) (cap : Nat) : CString :=
  snprintf cap ((body.getStr (cstr field)).getD [])

/-- The record that a request describes, with its name and its code, or what is wrong. -/
def codeRecord (body : Json JsonDouble) :
    Except String (CString × List (CString × Json JsonDouble) × CString) :=
  match body.getStr (cstr "type") with
  | none => .error "a \"type\" (function|action) is required"
  | some type =>
    if type = cstr "function" then
      match body.getStr (cstr "name") with
      | none => .error "a valid \"name\" is required"
      | some name =>
        if !codeNameOk name then .error "a valid \"name\" is required"
        else if !luaIdentOk name then
          .error ("function names must be valid Lua identifiers (letters, digits, underscores, " ++
            "not starting with a digit)")
        else .ok (name, [(cstr "type", .str (cstr "function"))], codeOr body name [])
    else if type = cstr "action" then
      let database := scopeName body "database" 128
      let partition := scopeName body "partition" 256
      let keyspace := scopeName body "keyspace" 128
      if database = [] ∨ partition = [] ∨ keyspace = [] then
        .error "an action requires \"database\", \"partition\" and \"keyspace\""
      else if !luaIdentOk database || !luaIdentOk partition || !luaIdentOk keyspace then
        .error ("database/partition/keyspace names must be valid Lua identifiers (letters, " ++
          "digits, underscores, not starting with a digit) so the action function name is " ++
          "definable")
      else
        match (body.getStr (cstr "event")).bind edbLuaEventParse with
        | none =>
          .error ("a valid \"event\" is required (beforeInsert, afterInsert, beforeUpdate, " ++
            "afterUpdate, beforeDelete, afterDelete)")
        | some event =>
          match (Lua.edbLuaActionName database partition keyspace event).filter codeNameOk with
          | none => .error "the action name is too long"
          | some name =>
            .ok (name, [(cstr "type", .str (cstr "action")), (cstr "database", .str database),
              (cstr "partition", .str partition), (cstr "keyspace", .str keyspace),
              (cstr "event", .str event.name)], codeOr body name (cstr "entity, id"))
    else .error "type must be 'function' or 'action'"

/-- `edb_lua_validate`: what is wrong with the code, if anything. -/
def edbLuaValidate (compileLua : CString → Option CString) (code : CString) : Option CString :=
  if code.all fun c => c == 32 || c == 9 || c == 10 || c == 13 then some (cstr "code is empty")
  else compileLua code

/-- `code_save`. -/
def codeSave (compileLua : CString → Option CString) (req : AuthRequest) (s : σ) : Response × σ :=
  match objectBody srv req with
  | none => refuse srv 400 "body must be a JSON object" s
  | some body =>
    match codeRecord body with
    | .error message => refuse srv 400 message s
    | .ok (name, record, code) =>
      match edbLuaValidate compileLua code with
      | some err =>
        (respondError srv 400 (snprintf 640 (cstr "code does not compile: " ++ err)), s)
      | none =>
        outcome srv 200 (cstr "\x7b\"status\":\"ok\",\"name\":\"" ++ name ++ cstr "\"\x7d") 500
          "saving code record failed"
          (edbCodeSave srv.backend name (record ++ [(cstr "code", .str code)]) s)

/-- `handle_admin_code`. -/
def handleAdminCode (compileLua : CString → Option CString) (req : AuthRequest) (s : σ) :
    Response × σ :=
  if isMethod req "GET" then codeList srv req s
  else if isMethod req "POST" then codeSave srv compileLua req s
  else methodNotAllowed srv s

/-- `handle_admin_code_validate`. -/
def handleAdminCodeValidate (compileLua : CString → Option CString) (req : AuthRequest) (s : σ) :
    Response × σ :=
  if !isMethod req "POST" then methodNotAllowed srv s
  else
    match objectBody srv req with
    | none => refuse srv 400 "body must be a JSON object" s
    | some body =>
      match body.getStr (cstr "code") with
      | none => refuse srv 400 "a \"code\" string is required" s
      | some code =>
        let err := edbLuaValidate compileLua code
        (respondJson srv 200 (.obj ((cstr "valid", .bool err.isNone) ::
          (err.map fun err => (cstr "error", .str err)).toList)), s)

/-- `handle_admin_code_item`. -/
def handleAdminCodeItem (req : AuthRequest) (s : σ) : Response × σ :=
  let name := req.path.drop (cstr "/admin/code/").length
  if !codeNameOk name then refuse srv 400 "invalid code record name" s
  else if isMethod req "GET" then
    match edbCodeLoad srv.backend s name with
    | none => refuse srv 404 "no such code record" s
    | some record => (respondJson srv 200 record, s)
  else if isMethod req "DELETE" then
    outcome srv 200 (cstr "\x7b\"status\":\"deleted\",\"name\":\"" ++ name ++ cstr "\"\x7d") 404
      "no such code record" (edbCodeDelete srv.backend name s)
  else methodNotAllowed srv s

/-! ## The requests about records -/

/-- What an administrator is answered, where it has to do with records only. -/
def adminCall (compileLua : CString → Option CString) (handler : AdminHandler) (req : AuthRequest)
    (salt : CString) : Option (σ → Response × σ) :=
  match handler with
  | .databases => some (handleAdminDatabases srv req)
  | .groups => some (handleAdminGroups srv req)
  | .users => some (handleAdminUsers srv req salt)
  | .partitions => some (handleAdminPartitions srv req)
  | .keyspaces => some (handleAdminKeyspaces srv req)
  | .delete => some (handleAdminDelete srv req)
  | .settings => some (handleSettings srv req)
  | .code => some (handleAdminCode srv compileLua req)
  | .codeValidate => some (handleAdminCodeValidate srv compileLua req)
  | .codeItem => some (handleAdminCodeItem srv req)
  | .partitionMaintenance | .analytics | .benchmark | .cluster | .join | .removeNode
  | .backupManifest | .backupShardDownload | .restoreLock | .restoreUnlock | .restoreWipe
  | .restoreShardUpload => none

end Handlers

/-! ## The same requests over another store -/

/-- The server over another store. -/
def Server.over {σ τ : Type} (srv : Server σ JsonDouble) (B : Backend τ JsonDouble) :
    Server τ JsonDouble where
  codec := srv.codec
  backend := B
  compile := srv.compile
  restoreLocked := srv.restoreLocked
  scripts := .inert

theorem cfgSettings_mem : cfgSettings ∈ systemKeyspaces := by simp [systemKeyspaces, cfgSettings]

section Agreement

variable {σ τ : Type} {srv : Server σ JsonDouble} {B : Backend τ JsonDouble} {R : σ → τ → Prop}
variable {s : σ} {t : τ} {f : σ → Bool × σ} {g : τ → Bool × τ}

@[simp] theorem over_backend : (srv.over B).backend = B := rfl

@[simp] theorem over_objectBody (req : AuthRequest) :
    objectBody (srv.over B) req = objectBody srv req := rfl

@[simp] theorem over_bodyJson (body : Bytes) : bodyJson (srv.over B) body = bodyJson srv body := rfl

theorem agree_refuse (status : Nat) (message : String) :
    Agree R (refuse srv status message) (refuse (srv.over B) status message) := Agree.known _

theorem agree_outcome (h : Agree R f g) (status : Nat) (done : CString) (failed : Nat)
    (message : String) :
    Agree R (fun s => outcome srv status done failed message (f s))
      (fun t => outcome (srv.over B) status done failed message (g t)) := by
  intro s t hst
  obtain ⟨hanswer, hstate⟩ := h s t hst
  refine ⟨?_, hstate⟩
  show (if (f s).1 then _ else _) = if (g t).1 then _ else _
  rw [hanswer]
  rfl

theorem agree_withPassword (hB : Serves srv.backend B R) (h : Agree R f g) (name : CString)
    (password : Option CString) (salt : CString) :
    Agree R (fun s => withPassword srv name password salt (f s))
      (fun t => withPassword (srv.over B) name password salt (g t)) := by
  have hrest := h.andThen (k := fun ok s => withPassword srv name password salt (ok, s))
    (l := fun ok t => withPassword (srv.over B) name password salt (ok, t)) fun ok => by
      cases ok
      · exact Agree.known false
      · cases password with
        | none => exact Agree.known true
        | some password => exact hB.edbUserSetPassword name password salt _
  exact hrest

theorem edbDatabaseList_eq (hB : Serves srv.backend B R) (h : R s t) :
    edbDatabaseList srv.backend s = edbDatabaseList B t := by
  unfold edbDatabaseList
  rw [hB.all s t h _ cfgDatabases_mem]

theorem agree_databases (hB : Serves srv.backend B R) (req : AuthRequest) :
    Agree R (handleAdminDatabases srv req) (handleAdminDatabases (srv.over B) req) := by
  intro s t h
  unfold handleAdminDatabases
  rw [over_objectBody, over_backend, edbDatabaseList_eq hB h]
  split_ifs
  · exact ⟨rfl, h⟩
  · cases objectBody srv req with
    | none => exact ⟨rfl, h⟩
    | some body =>
      dsimp only
      split
      · exact agree_outcome (hB.edbDatabaseCreate _ _) _ _ _ _ s t h
      · exact ⟨rfl, h⟩
  · exact ⟨rfl, h⟩

theorem agree_groups (hB : Serves srv.backend B R) (req : AuthRequest) :
    Agree R (handleAdminGroups srv req) (handleAdminGroups (srv.over B) req) := by
  intro s t h
  unfold handleAdminGroups
  rw [over_objectBody, over_backend, hB.edbGroupList h]
  split_ifs
  · exact ⟨rfl, h⟩
  · cases objectBody srv req with
    | none => exact ⟨rfl, h⟩
    | some body =>
      dsimp only
      cases body.getStr (cstr "name") with
      | none => exact ⟨rfl, h⟩
      | some name => exact agree_outcome (hB.edbGroupCreate name) _ _ _ _ s t h
  · exact ⟨rfl, h⟩

theorem edbUserList_eq (hB : Serves srv.backend B R) (h : R s t) :
    edbUserList srv.backend s = edbUserList B t := by
  unfold edbUserList
  rw [hB.all s t h _ cfgUsers_mem]

/-- The password is set in the state that the change of the user has left. -/
theorem agree_users (hB : Serves srv.backend B R) (req : AuthRequest) (salt : CString) :
    Agree R (handleAdminUsers srv req salt) (handleAdminUsers (srv.over B) req salt) := by
  intro s t h
  unfold handleAdminUsers
  rw [over_objectBody, over_backend, edbUserList_eq hB h]
  split_ifs
  · exact ⟨rfl, h⟩
  · cases objectBody srv req with
    | none => exact ⟨rfl, h⟩
    | some body =>
      dsimp only
      cases userArgs body with
      | none => exact ⟨rfl, h⟩
      | some args =>
        exact agree_outcome (agree_withPassword hB (hB.edbUserCreate args.1 args.2) _ _ _)
          _ _ _ _ s t h
  · cases objectBody srv req with
    | none => exact ⟨rfl, h⟩
    | some body =>
      dsimp only
      cases userArgs body with
      | none => exact ⟨rfl, h⟩
      | some args =>
        exact agree_outcome (agree_withPassword hB (hB.edbUserSetGroups args.1 args.2) _ _ _)
          _ _ _ _ s t h
  · exact ⟨rfl, h⟩

theorem listedPartitions_eq (hB : Serves srv.backend B R) (h : R s t)
    (database : Option CString) :
    listedPartitions srv.backend database s = listedPartitions B database t := by
  unfold listedPartitions
  cases database with
  | some database => exact hB.edbPartitionList h database
  | none =>
    show (edbDatabaseList srv.backend s).flatMap _ = (edbDatabaseList B t).flatMap _
    rw [edbDatabaseList_eq hB h]
    exact congrArg (List.flatMap · _) (funext fun info => hB.edbPartitionList h info.name)

theorem agree_partitions (hB : Serves srv.backend B R) (req : AuthRequest) :
    Agree R (handleAdminPartitions srv req) (handleAdminPartitions (srv.over B) req) := by
  intro s t h
  unfold handleAdminPartitions
  rw [over_objectBody, over_backend, listedPartitions_eq hB h]
  split_ifs
  · exact ⟨rfl, h⟩
  · cases objectBody srv req with
    | none => exact ⟨rfl, h⟩
    | some body =>
      dsimp only
      split
      · exact ⟨rfl, h⟩
      · exact agree_outcome (hB.edbPartitionCreate _ _ _ _ _ _) _ _ _ _ s t h
  · cases objectBody srv req with
    | none => exact ⟨rfl, h⟩
    | some body =>
      dsimp only
      split
      · exact ⟨rfl, h⟩
      · exact agree_outcome (hB.edbPartitionSetMasks _ _ _ _ _ _) _ _ _ _ s t h
  · exact ⟨rfl, h⟩

theorem agree_keyspaces (hB : Serves srv.backend B R) (req : AuthRequest) :
    Agree R (handleAdminKeyspaces srv req) (handleAdminKeyspaces (srv.over B) req) := by
  intro s t h
  unfold handleAdminKeyspaces
  rw [over_backend, hB.edbKeyspaceList h]
  exact ⟨rfl, h⟩

theorem agree_delete (hB : Serves srv.backend B R) (req : AuthRequest) :
    Agree R (handleAdminDelete srv req) (handleAdminDelete (srv.over B) req) := by
  unfold handleAdminDelete
  dsimp only
  split
  · exact agree_outcome (hB.edbDatabaseDelete _) _ _ _ _
  · split
    · exact agree_outcome (hB.removeRecord _ cfgGroups_mem _) _ _ _ _
    · split
      · exact agree_outcome (hB.removeRecord _ cfgUsers_mem _) _ _ _ _
      · split
        · split
          · exact agree_outcome (hB.edbPartitionDelete _ _) _ _ _ _
          · exact agree_refuse _ _
        · exact agree_refuse _ _

theorem edbSettingList_eq (hB : Serves srv.backend B R) (h : R s t) :
    edbSettingList srv.backend s = edbSettingList B t := by
  unfold edbSettingList
  rw [hB.all s t h _ cfgSettings_mem]

theorem edbSettingGet_eq (hB : Serves srv.backend B R) (h : R s t) :
    edbSettingGet srv s = edbSettingGet (srv.over B) t := by
  funext name
  unfold edbSettingGet
  rw [over_backend, hB.fetch s t h _ cfgSettings_mem]
  rfl

theorem settingItem_eq (hB : Serves srv.backend B R) (h : R s t) :
    settingItem srv s = settingItem (srv.over B) t := by
  funext name
  unfold settingItem
  rw [edbSettingGet_eq hB h]
  rfl

theorem agree_edbSettingSet (hB : Serves srv.backend B R) (name jsonValue : CString) :
    Agree R (edbSettingSet srv name jsonValue) (edbSettingSet (srv.over B) name jsonValue) := by
  refine Agree.ite (Agree.known false) ?_
  show Agree R _ fun t => match srv.codec.parse jsonValue with
    | none => (false, t)
    | some value => store B cfgSettings name (.obj [(cstr "type", .str (cstr "setting")),
        (cstr "name", .str name), (cstr "value", value)]) t
  cases srv.codec.parse jsonValue with
  | none => exact Agree.known false
  | some value => exact hB.store _ cfgSettings_mem name _

theorem agree_settings (hB : Serves srv.backend B R) (req : AuthRequest) :
    Agree R (handleSettings srv req) (handleSettings (srv.over B) req) := by
  intro s t h
  unfold handleSettings
  rw [over_bodyJson, over_backend, edbSettingList_eq hB h, edbSettingGet_eq hB h,
    settingItem_eq hB h]
  dsimp only
  split_ifs
  · exact ⟨rfl, h⟩
  · cases edbSettingGet (srv.over B) t ((req.path.drop (cstr "/admin/settings").length).drop 1) with
    | none => exact ⟨rfl, h⟩
    | some value => exact ⟨rfl, h⟩
  · exact ⟨rfl, h⟩
  · cases bodyJson srv req.body with
    | none => exact ⟨rfl, h⟩
    | some check => exact agree_outcome (agree_edbSettingSet hB _ _) _ _ _ _ s t h
  · exact ⟨rfl, h⟩
  · exact agree_outcome (hB.removeRecord _ cfgSettings_mem _) _ _ _ _ s t h
  · exact ⟨rfl, h⟩

theorem edbCodeList_eq (hB : Serves srv.backend B R) (h : R s t) :
    edbCodeList srv.backend s = edbCodeList B t := by
  unfold edbCodeList
  rw [hB.all s t h _ cfgCode_mem]

theorem edbCodeLoad_eq (hB : Serves srv.backend B R) (h : R s t) :
    edbCodeLoad srv.backend s = edbCodeLoad B t := by
  funext name
  unfold edbCodeLoad
  rw [hB.fetch s t h _ cfgCode_mem]

theorem agree_edbCodeSave (hB : Serves srv.backend B R) (name : CString)
    (record : List (CString × Json JsonDouble)) :
    Agree R (edbCodeSave srv.backend name record) (edbCodeSave B name record) :=
  Agree.ite (Agree.known false) (hB.store _ cfgCode_mem name _)

theorem agree_edbCodeDelete (hB : Serves srv.backend B R) (name : CString) :
    Agree R (edbCodeDelete srv.backend name) (edbCodeDelete B name) := by
  intro s t h
  unfold edbCodeDelete
  rw [edbCodeLoad_eq hB h]
  exact Agree.ite (Agree.known false) (hB.removeRecord _ cfgCode_mem name) s t h

theorem agree_codeList (hB : Serves srv.backend B R) (req : AuthRequest) :
    Agree R (codeList srv req) (codeList (srv.over B) req) := by
  intro s t h
  unfold codeList
  rw [over_backend, edbCodeList_eq hB h]
  dsimp only
  split_ifs <;> exact ⟨rfl, h⟩

theorem agree_codeSave (hB : Serves srv.backend B R) (compileLua : CString → Option CString)
    (req : AuthRequest) :
    Agree R (codeSave srv compileLua req) (codeSave (srv.over B) compileLua req) := by
  unfold codeSave
  rw [over_objectBody]
  cases objectBody srv req with
  | none => exact agree_refuse _ _
  | some body =>
    dsimp only
    split
    · exact agree_refuse _ _
    · split
      · exact Agree.known _
      · exact agree_outcome (agree_edbCodeSave hB _ _) _ _ _ _

theorem agree_code (hB : Serves srv.backend B R) (compileLua : CString → Option CString)
    (req : AuthRequest) :
    Agree R (handleAdminCode srv compileLua req) (handleAdminCode (srv.over B) compileLua req) :=
  Agree.ite (agree_codeList hB req)
    (Agree.ite (agree_codeSave hB compileLua req) (agree_refuse _ _))

theorem agree_codeValidate (compileLua : CString → Option CString) (req : AuthRequest) :
    Agree R (handleAdminCodeValidate srv compileLua req)
      (handleAdminCodeValidate (srv.over B) compileLua req) := by
  intro s t h
  unfold handleAdminCodeValidate
  rw [over_objectBody]
  dsimp only
  split_ifs
  · exact ⟨rfl, h⟩
  · cases objectBody srv req with
    | none => exact ⟨rfl, h⟩
    | some body =>
      dsimp only
      cases body.getStr (cstr "code") with
      | none => exact ⟨rfl, h⟩
      | some code => exact ⟨rfl, h⟩

theorem agree_codeItem (hB : Serves srv.backend B R) (req : AuthRequest) :
    Agree R (handleAdminCodeItem srv req) (handleAdminCodeItem (srv.over B) req) := by
  intro s t h
  unfold handleAdminCodeItem
  rw [over_backend, edbCodeLoad_eq hB h]
  dsimp only
  split_ifs
  · exact ⟨rfl, h⟩
  · split
    · exact ⟨rfl, h⟩
    · exact ⟨rfl, h⟩
  · exact agree_outcome (agree_edbCodeDelete hB _) _ _ _ _ s t h
  · exact ⟨rfl, h⟩

/-- What an administrator is answered, if the request has to do with records. -/
def adminAnswer {σ : Type} (srv : Server σ JsonDouble) (compileLua : CString → Option CString)
    (handler : AdminHandler) (req : AuthRequest) (salt : CString) (s : σ) : Option Response × σ :=
  match adminCall srv compileLua handler req salt with
  | some call => (some (call s).1, (call s).2)
  | none => (none, s)

theorem agree_some {f : σ → Response × σ} {g : τ → Response × τ} (h : Agree R f g) :
    Agree R (fun s => (some (f s).1, (f s).2)) (fun t => (some (g t).1, (g t).2)) :=
  fun s t hst => ⟨congrArg some (h s t hst).1, (h s t hst).2⟩

/-- **One request** is answered alike. -/
theorem agree_adminAnswer (hB : Serves srv.backend B R) (compileLua : CString → Option CString)
    (handler : AdminHandler) (req : AuthRequest) (salt : CString) :
    Agree R (adminAnswer srv compileLua handler req salt)
      (adminAnswer (srv.over B) compileLua handler req salt) := by
  cases handler with
  | databases => exact agree_some (agree_databases hB req)
  | groups => exact agree_some (agree_groups hB req)
  | users => exact agree_some (agree_users hB req salt)
  | partitions => exact agree_some (agree_partitions hB req)
  | keyspaces => exact agree_some (agree_keyspaces hB req)
  | delete => exact agree_some (agree_delete hB req)
  | settings => exact agree_some (agree_settings hB req)
  | code => exact agree_some (agree_code hB compileLua req)
  | codeValidate => exact agree_some (agree_codeValidate compileLua req)
  | codeItem => exact agree_some (agree_codeItem hB req)
  | _ => exact Agree.known none

end Agreement

/-! ## Runs -/

/-- What does not change while a node runs. -/
structure Administered where
  codec : Codec JsonDouble
  shardKey : CString → CString → CString
  compile : Json JsonDouble → Option (Json JsonDouble → Bool)
  restoreLocked : Bool
  compileLua : CString → Option CString
  /-- the configuration shards have keys of their own -/
  apart : KeysApart shardKey

/-- What happens to a node. -/
inductive AdminLabel where
  /-- an administrator asks, with the salt for a password -/
  | request (handler : AdminHandler) (req : AuthRequest) (salt : CString)
  /-- a document is written to the keyspace for the first time -/
  | register (database partition keyspace : CString)
  /-- a shard of documents changes -/
  | data (key : CString) (sh : Shard)
  /-- `edb_shard_cleanup` -/
  | cleanup (key : CString)
  | tick (seconds : Nat)

namespace Administered

variable (n : Administered)

/-- The server over a store. -/
def server {σ : Type} (B : Backend σ JsonDouble) : Server σ JsonDouble :=
  ⟨n.codec, B, n.compile, n.restoreLocked, .inert⟩

/-- The calls of the node at a clock. -/
def node (now : Int) : Backend (CString → Shard) JsonDouble := localBackend n.codec n.shardKey now

/-- The calls of the maps. -/
def maps : Backend (Records JsonDouble) JsonDouble := plainBackend n.codec n.shardKey

/-- The shard holds no configuration. -/
def Foreign (key : CString) : Prop := ∀ ks ∈ systemKeyspaces, n.shardKey systemDb ks ≠ key

instance (key : CString) : Decidable (n.Foreign key) := inferInstanceAs (Decidable (∀ _ ∈ _, _))

/-- A step of the node, on its shards and its clock. -/
def nodeStep : AdminLabel → (CString → Shard) × Int → Option Response × ((CString → Shard) × Int)
  | .request handler req salt, (engine, now) =>
    let (answer, engine) := adminAnswer (n.server (n.node now)) n.compileLua handler req salt engine
    (answer, engine, now)
  | .register database partition keyspace, (engine, now) =>
    (none, edbPartitionEnsure (n.node now) database partition keyspace engine, now)
  | .data key sh, (engine, now) =>
    (none, if n.Foreign key then Function.update engine key sh else engine, now)
  | .cleanup key, (engine, now) =>
    (none, Function.update engine key (edbShardCleanup now (engine key)), now)
  | .tick seconds, (engine, now) => (none, engine, now + seconds)

/-- A step of the maps. -/
def mapStep : AdminLabel → Records JsonDouble → Option Response × Records JsonDouble
  | .request handler req salt, t => adminAnswer (n.server n.maps) n.compileLua handler req salt t
  | .register database partition keyspace, t =>
    (none, edbPartitionEnsure n.maps database partition keyspace t)
  | .data _ _, t | .cleanup _, t | .tick _, t => (none, t)

/-- A node, its clock and the maps that it stands for. -/
def Shows (p : (CString → Shard) × Int) (t : Records JsonDouble) : Prop :=
  Related n.codec n.shardKey p.2 p.1 t

/-- **A step** of the node is one of its maps. -/
theorem agree_step (l : AdminLabel) : Agree n.Shows (n.nodeStep l) (n.mapStep l) := by
  rintro ⟨engine, now⟩ t h
  -- the calls of the node are those of its clock, so the relation is taken there
  have hserves : Serves (n.server (n.node now)).backend n.maps (Related n.codec n.shardKey now) :=
    serves_local n.apart
  cases l with
  | request handler req salt =>
    exact agree_adminAnswer hserves n.compileLua handler req salt engine t h
  | register database partition keyspace =>
    exact ⟨rfl, hserves.edbPartitionEnsure database partition keyspace h⟩
  | data key sh =>
    refine ⟨rfl, ?_⟩
    show Related n.codec n.shardKey now (if n.Foreign key then _ else engine) t
    split_ifs with hkey
    · exact Related.elsewhere h hkey sh
    · exact h
  | cleanup key => exact ⟨rfl, Related.cleanup h n.apart key⟩
  | tick seconds =>
    have hle : now ≤ now + seconds := by omega
    exact ⟨rfl, Related.tick h hle⟩

/-- **In every run** a node answers its administrators as plain maps do, whatever else happens to
it in between. -/
theorem admin_refines {engine : CString → Shard} {now : Int}
    (h : Settled n.shardKey now engine) (ls : List AdminLabel) :
    answers n.nodeStep ls (engine, now) =
      answers n.mapStep ls fun key => recordsOf n.codec now (engine key) :=
  answers_eq n.agree_step ls (related_recordsOf h)

end Administered

/-! ## A small node -/

/-- The codec of some texts, none of them a change. -/
def textsCodec (texts : List (CString × Json JsonDouble))
    (h : ∀ e ∈ texts, (cstr "\x7b\"op\"").isPrefixOf e.1 = false) : Codec JsonDouble where
  parse s := texts.lookup s
  print v := ((texts.find? fun e => e.2 = v).map Prod.fst).getD []
  parse_changeText _ _ _ _ _ _ _ _ _ _ _ hparse := by
    rw [lookup_changeText h] at hparse
    cases hparse
  parse_changeText_partition _ _ _ _ _ _ _ _ _ hparse := by
    rw [lookup_changeText h] at hparse
    cases hparse

/-- The database `d` with one copy of everything. -/
def smallDatabase : List (CString × Json JsonDouble) :=
  [(cstr "name", .str (cstr "d")), (cstr "replication_factor", .num (Doubles.ofInt64 1))]

/-- The texts of a request, of its record, and of a list. -/
def smallTexts : List (CString × Json JsonDouble) :=
  [(cstr "\x7b\"name\":\"d\",\"replication_factor\":1\x7d", .obj smallDatabase),
    (cstr "\x7b\"type\":\"database\",\"name\":\"d\",\"replication_factor\":1\x7d",
      databaseRecord (cstr "d") 1),
    (cstr "[\x7b\"name\":\"d\",\"replication_factor\":1\x7d]", .arr [.obj smallDatabase])]

def smallNode : Administered where
  codec := textsCodec smallTexts (by decide +kernel)
  shardKey := joinedKey
  compile _ := none
  restoreLocked := false
  compileLua _ := none
  apart := by decide +kernel

def databasesRequest (method body : String) : AuthRequest :=
  { method := cstr method, path := cstr "/admin/databases", query := [], headers := [],
    body := cstr body }

/-- A database is created, and listed an hour later. -/
theorem smallNode_refines :
    answers smallNode.nodeStep
      [.request .databases
        (databasesRequest "POST" "\x7b\"name\":\"d\",\"replication_factor\":1\x7d") [],
        .tick 3600, .request .databases (databasesRequest "GET" "") []] (fun _ => ∅, 0) =
      [some ⟨201, created⟩, none,
        some ⟨200, cstr "[\x7b\"name\":\"d\",\"replication_factor\":1\x7d]"⟩] := by
  have hsettled : Settled smallNode.shardKey 0 fun _ => ∅ := fun _ _ _ _ h => nomatch h
  rw [smallNode.admin_refines hsettled]
  decide +kernel

end EpsilonDB
