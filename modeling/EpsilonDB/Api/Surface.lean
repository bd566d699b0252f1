import Mathlib
import EpsilonDB.Api.Requests
import EpsilonDB.Api.Sessions
import EpsilonDB.Engine.Md5
import EpsilonDB.Httpd.Routes
import EpsilonDB.Lib.Runs

/-!
# The HTTP surface of a node (`api/epsilon_api.c`, `admin/admin_console.c`)

All routes of a node with what their handlers do to it. Behind `require_admin_auth` lie the
administrative handlers; what those do for an administrator is a parameter, and so is what the code
does that is attached to events. The node is one without a replication service.

- `AdminHandler`: the handlers that ask for an administrator. `requireAdminAuth`: their guard.
- `apiRoutes`: the table of `edb_api_register` and `edb_admin_console_register`.
- `HttpNode`, `Installation.dispatch`: a node, and one request.
- `Outsider`: requests of somebody who knows no token and no password of an administrator, and
  whose data requests name no configuration shard and no place that has code attached.
- `Barred`: what stays of a node. `Barred.dispatch`: one request. `outsiders_barred`: any run.
-/

namespace EpsilonDB

open Eql

variable {D : Type} [Doubles D]

/-! ## The routes -/

/-- The handlers that start with `require_admin_auth`. -/
inductive AdminHandler where
  | code
  | codeValidate
  | codeItem
  | databases
  | groups
  | users
  | partitions
  | partitionMaintenance
  | keyspaces
  | analytics
  | benchmark
  | cluster
  | join
  | removeNode
  | backupManifest
  | backupShardDownload
  | restoreLock
  | restoreUnlock
  | restoreWipe
  | restoreShardUpload
  | delete
  | settings
deriving DecidableEq

/-- The method that a handler asks for before it looks at the caller. -/
def AdminHandler.onlyMethod : AdminHandler → Option CString
  | .partitionMaintenance | .benchmark | .join | .removeNode | .restoreLock | .restoreUnlock
  | .restoreWipe => some (cstr "POST")
  | .analytics | .cluster | .backupManifest | .backupShardDownload => some (cstr "GET")
  | .restoreShardUpload => some (cstr "PUT")
  | .code | .codeValidate | .codeItem | .databases | .groups | .users | .partitions
  | .keyspaces | .delete | .settings => none

/-- The handlers of the surface. -/
inductive ApiHandler where
  | data (surface : Surface)
  | admin (handler : AdminHandler)
  | status
  | consoleState
  | login
  | setup
  | logout
  | console
deriving DecidableEq

/-- `edb_api_register`, and `edb_admin_console_register` after it. -/
def apiRoutes : List (HttpRoute ApiHandler) := [
  ⟨cstr "PUT", cstr "/data/", .data (.rest .put)⟩,
  ⟨cstr "DELETE", cstr "/data/", .data (.rest .delete)⟩,
  ⟨cstr "GET", cstr "/data/", .data (.rest .collect)⟩,
  ⟨cstr "POST", cstr "/data/", .data (.rest .collect)⟩,
  ⟨cstr "POST", cstr "/eql", .data .eql⟩,
  ⟨cstr "POST", cstr "/admin/eql", .data .eql⟩,
  ⟨cstr "GET", cstr "/admin/code", .admin .code⟩,
  ⟨cstr "POST", cstr "/admin/code", .admin .code⟩,
  ⟨cstr "POST", cstr "/admin/code/validate", .admin .codeValidate⟩,
  ⟨cstr "GET", cstr "/admin/code/", .admin .codeItem⟩,
  ⟨cstr "DELETE", cstr "/admin/code/", .admin .codeItem⟩,
  ⟨cstr "GET", cstr "/admin/databases", .admin .databases⟩,
  ⟨cstr "POST", cstr "/admin/databases", .admin .databases⟩,
  ⟨cstr "GET", cstr "/admin/groups", .admin .groups⟩,
  ⟨cstr "POST", cstr "/admin/groups", .admin .groups⟩,
  ⟨cstr "GET", cstr "/admin/users", .admin .users⟩,
  ⟨cstr "POST", cstr "/admin/users", .admin .users⟩,
  ⟨cstr "PUT", cstr "/admin/users", .admin .users⟩,
  ⟨cstr "GET", cstr "/admin/partitions", .admin .partitions⟩,
  ⟨cstr "POST", cstr "/admin/partitions", .admin .partitions⟩,
  ⟨cstr "PUT", cstr "/admin/partitions", .admin .partitions⟩,
  ⟨cstr "POST", cstr "/admin/partitions/", .admin .partitionMaintenance⟩,
  ⟨cstr "GET", cstr "/admin/keyspaces", .admin .keyspaces⟩,
  ⟨cstr "GET", cstr "/admin/analytics", .admin .analytics⟩,
  ⟨cstr "POST", cstr "/admin/benchmark", .admin .benchmark⟩,
  ⟨cstr "GET", cstr "/admin/cluster", .admin .cluster⟩,
  ⟨cstr "POST", cstr "/admin/join", .admin .join⟩,
  ⟨cstr "POST", cstr "/admin/remove-node", .admin .removeNode⟩,
  ⟨cstr "GET", cstr "/admin/backup/manifest", .admin .backupManifest⟩,
  ⟨cstr "GET", cstr "/admin/backup/", .admin .backupShardDownload⟩,
  ⟨cstr "POST", cstr "/admin/restore/lock", .admin .restoreLock⟩,
  ⟨cstr "POST", cstr "/admin/restore/unlock", .admin .restoreUnlock⟩,
  ⟨cstr "POST", cstr "/admin/restore/wipe", .admin .restoreWipe⟩,
  ⟨cstr "PUT", cstr "/admin/restore/", .admin .restoreShardUpload⟩,
  ⟨cstr "DELETE", cstr "/admin/", .admin .delete⟩,
  ⟨cstr "GET", cstr "/admin/settings", .admin .settings⟩,
  ⟨cstr "POST", cstr "/admin/settings", .admin .settings⟩,
  ⟨cstr "PUT", cstr "/admin/settings", .admin .settings⟩,
  ⟨cstr "DELETE", cstr "/admin/settings", .admin .settings⟩,
  ⟨cstr "GET", cstr "/status", .status⟩,
  ⟨cstr "GET", cstr "/admin/console/state", .consoleState⟩,
  ⟨cstr "POST", cstr "/admin/login", .login⟩,
  ⟨cstr "POST", cstr "/admin/setup", .setup⟩,
  ⟨cstr "POST", cstr "/admin/logout", .logout⟩,
  ⟨cstr "GET", cstr "/admin", .console⟩]

/-- The table has room for all routes, and no route is registered twice. -/
theorem apiRoutes_distinct : Distinct apiRoutes ∧ apiRoutes.length ≤ maxRoutes := by
  decide +kernel

/-! ## A node -/

/-- A node with its tables in memory. -/
structure HttpNode where
  engine : CString → Shard
  clock : Int
  gate : Gate := {}
  /-- `g_restore_locked` -/
  restoreLocked : Bool := false

/-- What a node is run with. -/
structure Installation (D : Type) [Doubles D] where
  codec : Codec D
  shardKey : CString → CString → CString
  compile : Json D → Option (Json D → Bool)
  sqlite : Sqlite D
  junk : CString
  version : CString
  clustered : Bool
  /-- `edb_cluster_peers` -/
  peers : Nat
  consoleHtml : Bytes
  /-- `seed_demo_data` -/
  seedDemoData : Int → (CString → Shard) → CString → Shard
  /-- what the code does that is attached to events -/
  scripts : Int → Scripts (CString → Shard) D
  /-- what an administrative handler does for an administrator -/
  admin : AdminHandler → AuthRequest → HttpNode → Response × HttpNode

/-- `session_create` at the end of a login or a setup. -/
def HttpNode.openSession (s : HttpNode) (info : UserInfo) (token : CString) : HttpNode :=
  { s with gate := { s.gate with sessions := sessionCreate s.clock info token s.gate.sessions } }

/-- `handle_admin_logout`. -/
def HttpNode.logout (s : HttpNode) (req : AuthRequest) : Response × HttpNode :=
  (⟨200, cstr "\x7b\"ok\":true\x7d"⟩,
    match bearerToken req with
    | none => s
    | some token =>
      { s with gate := { s.gate with sessions := sessionDestroy token s.gate.sessions } })

namespace Installation

variable (inst : Installation D)

def backend (s : HttpNode) : Backend (CString → Shard) D :=
  localBackend inst.codec inst.shardKey s.clock

def host (s : HttpNode) : Host (CString → Shard) D where
  codec := inst.codec
  backend := inst.backend s
  compile := inst.compile
  restoreLocked := s.restoreLocked
  sqlite := inst.sqlite
  junk := inst.junk
  scripts := inst.scripts s.clock

def caller (s : HttpNode) (req : AuthRequest) : (UInt64 × Bool) × Gate :=
  authenticate inst.codec (inst.backend s) s.clock req s.engine s.gate

/-- `respond_error` at a node. -/
def refuse (s : HttpNode) (status : Nat) (message : String) : Response :=
  respondError (inst.host s).toServer status (cstr message)

/-- `require_admin_auth`: the answer to a caller who is refused, and the tables afterwards. -/
def requireAdminAuth (s : HttpNode) (req : AuthRequest) : Option Response × Gate :=
  let ((groups, ok), gate) := inst.caller s req
  if !ok then (some (inst.refuse s 401 "unauthorized"), gate)
  else if groups &&& 1 = 0 ∧ groups ≠ ~~~0 then
    (some (inst.refuse s 403 "admin access required"), gate)
  else (none, gate)

/-- An administrative handler. -/
def handleAdmin (handler : AdminHandler) (req : AuthRequest) (s : HttpNode) : Response × HttpNode :=
  if handler.onlyMethod.any (· ≠ req.method) then (inst.refuse s 405 "method not allowed", s)
  else
    match inst.requireAdminAuth s req with
    | (some answer, gate) => (answer, { s with gate })
    | (none, gate) => inst.admin handler req { s with gate }

/-- What a data handler reads of a request. -/
def dataRequest (s : HttpNode) (req : AuthRequest) : DataRequest where
  method := req.method
  path := req.path
  query := req.query
  body := req.body
  caller := if (inst.caller s req).1.2 then some (inst.caller s req).1.1 else none
  trusted := req.trusted

/-- The data handlers look at the caller only when the rest of the request is in order. -/
def asksCaller (s : HttpNode) (surface : Surface) (req : AuthRequest) : Bool :=
  !s.restoreLocked &&
    match surface with
    | .rest .put => (splitDataPath req.path).isSome && !(bufFind (cstr "filter=") req.query).isSome
    | .rest .delete => (splitDataPath req.path).isSome
    | .rest .collect =>
      match dataPath req.path with
      | none => false
      | some work =>
        let toks := tokens 8 work
        if toks.getLast?.getD [] ∉ collectOps then
          decide (req.method = cstr "GET") && (splitDataPath req.path).isSome
        else (collectAddress toks).isSome
    | .eql => (requestSql (inst.host s) (inst.dataRequest s req)).isSome

def handleSurface (surface : Surface) (req : AuthRequest) (s : HttpNode) : Response × HttpNode :=
  let (answer, engine) := handle (inst.host s) surface (inst.dataRequest s req) s.engine
  (answer, { s with
    engine
    gate := if inst.asksCaller s surface req then (inst.caller s req).2 else s.gate })

/-- `handle_status`. -/
def handleStatus (s : HttpNode) : Response :=
  respondJson (inst.host s).toServer 200 (.obj [(cstr "service", .str (cstr "epsilondb")),
    (cstr "version", .str inst.version), (cstr "clustered", .bool inst.clustered)])

/-- `handle_console_state`. -/
def handleConsoleState (req : AuthRequest) (s : HttpNode) : Response × HttpNode :=
  let found := (bearerToken req).map fun token => sessionLookup s.clock token s.gate.sessions
  let info := found.bind Prod.fst
  (respondJson (inst.host s).toServer 200 (.obj [
    (cstr "setup_required", .bool !edbAdminExists (inst.backend s) s.engine),
    (cstr "authenticated", .bool info.isSome),
    (cstr "username", .str ((info.map UserInfo.name).getD [])),
    (cstr "clustered", .bool inst.clustered),
    (cstr "peers", .num (Doubles.ofInt64 inst.peers))]),
    { s with gate := { s.gate with sessions := (found.map Prod.snd).getD s.gate.sessions } })

/-- `respond_groups_json`: the number is spliced in as it is. -/
def respondGroupsJson (token : CString) (info : UserInfo) : Response :=
  ⟨200, cstr "\x7b\"token\":" ++ inst.codec.print (.str token) ++ cstr ",\"username\":" ++
    inst.codec.print (.str info.name) ++ cstr ",\"groups\":" ++
    cstr (toString info.groups.toNat) ++ cstr "\x7d"⟩

/-- The body of a request, where it is a JSON object. -/
def bodyObject (s : HttpNode) (req : AuthRequest) : Option (Json D) :=
  (bodyJson (inst.host s).toServer req.body).filter Json.isObject

/-- `handle_admin_login` with its answers. -/
def login (req : AuthRequest) (token : CString) (s : HttpNode) : Response × HttpNode :=
  let (info, attempts) :=
    handleAdminLogin inst.codec (inst.backend s) s.clock req s.engine s.gate.attempts
  let s' := { s with gate := { s.gate with attempts } }
  match info with
  | some info => (inst.respondGroupsJson token info, s'.openSession info token)
  | none =>
    (if req.method ≠ cstr "POST" then inst.refuse s 405 "method not allowed"
      else if !req.trusted && edbAuthThrottled s.clock req.peerIp s.gate.attempts then
        inst.refuse s 401 "too many failed attempts"
      else if (inst.bodyObject s req).isNone then inst.refuse s 400 "JSON object required"
      else inst.refuse s 401 "invalid credentials", s')

/-- `handle_admin_setup` with its answers; the keys of a cluster secret are left out. -/
def setup (req : AuthRequest) (token salt : CString) (s : HttpNode) : Response × HttpNode :=
  if req.method ≠ cstr "POST" then (inst.refuse s 405 "method not allowed", s)
  else if edbAdminExists (inst.backend s) s.engine then
    (inst.refuse s 409 "admin already configured", s)
  else if (inst.bodyObject s req).isNone then (inst.refuse s 400 "JSON object required", s)
  else
    match setupArgs inst.codec (inst.backend s) req s.engine with
    | none => (inst.refuse s 400 "password must be 4-256 characters", s)
    | some (name, password) =>
      let (info, engine) := setupAdmin (inst.backend s) name password salt s.engine
      match info with
      | some info =>
        (inst.respondGroupsJson token info,
          { s with engine := inst.seedDemoData s.clock engine }.openSession info token)
      | none =>
        let engine₁ := (edbGroupCreate (inst.backend s) (cstr "SysAdmins") s.engine).2
        let groups := adminGroups (inst.backend s) engine₁
        (if (edbUserCreate (inst.backend s) name groups engine₁).1 then
            inst.refuse s 500 "could not store password"
          else inst.refuse s 409 "could not create admin user", { s with engine })

/-- One request at a node, with the token and the salt that are drawn when it needs them. -/
def dispatch (req : AuthRequest) (token salt : CString) (s : HttpNode) : Response × HttpNode :=
  match (bestRoute apiRoutes req.method req.path).map HttpRoute.handler with
  | none => (⟨404, cstr "\x7b\"error\":\"not found\",\"path\":\"" ++ req.path ++ cstr "\"\x7d"⟩, s)
  | some (.data surface) => inst.handleSurface surface req s
  | some (.admin handler) => inst.handleAdmin handler req s
  | some .status => (inst.handleStatus s, s)
  | some .consoleState => inst.handleConsoleState req s
  | some .login => inst.login req token s
  | some .setup => inst.setup req token salt s
  | some .logout => s.logout req
  | some .console => (⟨200, inst.consoleHtml⟩, s)

end Installation

/-- A request with what is drawn for it, or time. -/
inductive HttpLabel where
  | request (req : AuthRequest) (token salt : CString)
  | tick (seconds : Nat)

/-- A step of the node. -/
def Installation.step (inst : Installation D) (s : HttpNode) : HttpLabel → Option HttpNode
  | .request req token salt => some (inst.dispatch req token salt s).2
  | .tick seconds => some { s with clock := s.clock + seconds }

/-! ## Outsiders -/

/-- The set has the bit of the first group, whose members are the administrators. -/
def Administers (groups : UInt64) : Prop := groups &&& 1 ≠ 0

instance (groups : UInt64) : Decidable (Administers groups) := inferInstanceAs (Decidable (_ ≠ _))

/-- The name and the password that a login gives. -/
def loginArgs (codec : Codec D) (req : AuthRequest) : Option CString × Option CString :=
  match if req.body = [] then none else codec.parse req.body with
  | some (.obj members) =>
    ((Json.obj members).getStr (cstr "username"), (Json.obj members).getStr (cstr "password"))
  | _ => (none, none)

/-- The request gives a name and a password, as credentials or for a login. -/
def Presents (codec : Codec D) (req : AuthRequest) (name password : CString) : Prop :=
  credentials codec req = (some name, some password) ∨
    loginArgs codec req = (some name, some password)

/-- A request of an outsider: over the open port, without the token of an administrator's
session and without the password of an administrator, both as they are at the start; what it
asks of the data routes lies in no configuration shard, and where it may write no code is attached
at the start. -/
structure Outsider (inst : Installation D) (start : HttpNode) (req : AuthRequest) : Prop where
  untrusted : req.trusted = false
  token : ∀ token ∈ (credentials inst.codec req).1, ∀ x ∈ start.gate.sessions,
    x.used = true → x.token = token → ¬ Administers x.groups
  password : ∀ name password, Presents inst.codec req name password →
    edbUserVerifyPassword (inst.backend start) start.engine name password = true →
    ∀ info ∈ edbUserGet (inst.backend start) start.engine name, ¬ Administers info.groups
  names : ∀ r ∈ bestRoute apiRoutes req.method req.path, ∀ surface, r.handler = .data surface →
    Disjoint (addressedKeys (inst.host start) surface (inst.dataRequest start req))
      (configKeys (inst.backend start))
  quiet : ∀ r ∈ bestRoute apiRoutes req.method req.path, ∀ surface, r.handler = .data surface →
    Writes (inst.host start) surface (inst.dataRequest start req) → ∀ db partition keyspace,
    Addresses (inst.host start) surface (inst.dataRequest start req) db partition keyspace →
      (inst.backend start).Quiet start.engine db partition keyspace

/-- What an outsider cannot change: all configuration but the registry, the masks in the
registry, the lock, and who has the session of an administrator. -/
structure Barred (inst : Installation D) (start s : HttpNode) : Prop where
  clock : start.clock ≤ s.clock
  shards : ∀ ks ∈ systemKeyspaces, ks ≠ cfgPartitions → ks ≠ cfgKeyspaces →
    s.engine (inst.shardKey systemDb ks) = start.engine (inst.shardKey systemDb ks)
  settled : Settled inst.shardKey s.clock s.engine
  masks : ∀ db partition, (edbPartitionGet (inst.backend start) start.engine db partition).isSome →
    edbPartitionGet (inst.backend s) s.engine db partition =
      edbPartitionGet (inst.backend start) start.engine db partition
  sessions : ∀ x ∈ s.gate.sessions, x.used = true → Administers x.groups →
    ∃ y ∈ start.gate.sessions, y.used = true ∧ y.token = x.token ∧ Administers y.groups
  locked : s.restoreLocked = start.restoreLocked

variable {inst : Installation D} {start s : HttpNode} {req : AuthRequest}

theorem Barred.refl (hsettled : Settled inst.shardKey start.clock start.engine) :
    Barred inst start start :=
  ⟨le_rfl, fun _ _ _ _ => rfl, hsettled, fun _ _ _ => rfl, fun x hx hused hadmin =>
    ⟨x, hx, hused, rfl, hadmin⟩, rfl⟩

/-! ## What is read of the configuration -/

/-- The records of the users are found as they were. -/
theorem Barred.fetch_users (h : Barred inst start s)
    (hsettled : Settled inst.shardKey start.clock start.engine) :
    fetch (inst.backend s) s.engine cfgUsers = fetch (inst.backend start) start.engine cfgUsers := by
  funext id
  refine Eq.trans ?_ (fetch_later hsettled h.clock cfgUsers_mem id)
  show fetch (localBackend inst.codec inst.shardKey s.clock) s.engine cfgUsers id = _
  rw [fetch_eq, fetch_eq, h.shards cfgUsers cfgUsers_mem (by decide) (by decide)]

/-- The code is what it was. -/
theorem Barred.code_eq (h : Barred inst start s)
    (hsettled : Settled inst.shardKey start.clock start.engine) :
    (inst.backend s).code s.engine = (inst.backend start).code start.engine := by
  have hfetch : ∀ id, fetch (inst.backend s) s.engine cfgCode id =
      fetch (inst.backend start) start.engine cfgCode id := by
    intro id
    refine Eq.trans ?_ (fetch_later hsettled h.clock cfgCode_mem id)
    show fetch (localBackend inst.codec inst.shardKey s.clock) s.engine cfgCode id = _
    rw [fetch_eq, fetch_eq, h.shards cfgCode cfgCode_mem (by decide) (by decide)]
  ext doc
  exact (mem_all.trans (exists_congr fun id => Iff.of_eq (congrArg (· = some doc) (hfetch id)))).trans
    mem_all.symm

theorem Barred.edbUserGet_eq (h : Barred inst start s)
    (hsettled : Settled inst.shardKey start.clock start.engine) (name : CString) :
    edbUserGet (inst.backend s) s.engine name =
      edbUserGet (inst.backend start) start.engine name := by
  rw [edbUserGet, edbUserGet, h.fetch_users hsettled]

theorem Barred.edbUserVerifyPassword_eq (h : Barred inst start s)
    (hsettled : Settled inst.shardKey start.clock start.engine) (name password : CString) :
    edbUserVerifyPassword (inst.backend s) s.engine name password =
      edbUserVerifyPassword (inst.backend start) start.engine name password := by
  rw [edbUserVerifyPassword, edbUserVerifyPassword, h.fetch_users hsettled]

/-- An administrator is still listed. -/
theorem Barred.edbAdminExists_eq (h : Barred inst start s)
    (hsettled : Settled inst.shardKey start.clock start.engine)
    (hadmin : edbAdminExists (inst.backend start) start.engine = true) :
    edbAdminExists (inst.backend s) s.engine = true := by
  rw [edbAdminExists, List.any_eq_true] at hadmin ⊢
  obtain ⟨user, hmem, huser⟩ := hadmin
  refine ⟨user, ?_, huser⟩
  rw [edbUserList, List.mem_map] at hmem ⊢
  obtain ⟨doc, hdoc, rfl⟩ := hmem
  obtain ⟨id, hid⟩ := mem_all.mp hdoc
  exact ⟨doc, mem_all.mpr ⟨id, (congrFun (h.fetch_users hsettled) id).trans hid⟩, rfl⟩

theorem sessionLookup_token {now : Int} {token : CString} {sessions : List Session} {info : UserInfo}
    (h : (sessionLookup now token sessions).1 = some info) :
    ∃ x ∈ sessions, x.used = true ∧ x.token = token ∧ x.groups = info.groups := by
  unfold sessionLookup at h
  split at h
  · cases h
  · next x hfind =>
    have hx := List.find?_some hfind
    simp only [Bool.and_eq_true, beq_iff_eq] at hx
    split at h
    · cases h
    · exact ⟨x, List.mem_of_find?_eq_some hfind, hx.1, hx.2,
        congrArg UserInfo.groups (Option.some.inj h)⟩

/-! ## The guard -/

/-- **No outsider is taken for an administrator**, at any time. -/
theorem Barred.caller_spec (h : Barred inst start s)
    (hsettled : Settled inst.shardKey start.clock start.engine)
    (hadmin : edbAdminExists (inst.backend start) start.engine = true)
    (hreq : Outsider inst start req) : ¬ Administers (inst.caller s req).1.1 := by
  have hzero : ¬ Administers 0 := by decide
  unfold Installation.caller authenticate
  rw [hreq.untrusted, if_neg Bool.false_ne_true]
  split
  · exact hzero
  · dsimp only
    split
    · -- without a name: there are users, so nothing is granted
      have hlist : (edbUserList (inst.backend s) s.engine).isEmpty = false := by
        have hexists := h.edbAdminExists_eq hsettled hadmin
        rw [edbAdminExists, List.any_eq_true] at hexists
        obtain ⟨user, hmem, -⟩ := hexists
        exact List.isEmpty_eq_false_iff_exists_mem.mpr ⟨user, hmem⟩
      rw [hlist]
      exact hzero
    · next token hfilter =>
      have htoken := (Option.filter_eq_some_iff.mp hfilter).1
      split
      · -- with the token of a session
        next info hlookup =>
        obtain ⟨x, hx, hused, hxtoken, hgroups⟩ := sessionLookup_token hlookup
        show ¬ Administers info.groups
        rw [← hgroups]
        intro hx'
        obtain ⟨y, hy, hyused, hytoken, hyadmin⟩ := h.sessions x hx hused hx'
        exact hreq.token token htoken y hy hyused (hytoken.trans hxtoken) hyadmin
      · -- with a password
        split
        · next hverified =>
          rw [passwordVerified, Option.any_eq_true] at hverified
          obtain ⟨password, hpassword, hverified⟩ := hverified
          rw [Bool.and_eq_true] at hverified
          have hcredentials : credentials inst.codec req = (some token, some password) :=
            Prod.ext htoken hpassword
          have hstart := hreq.password token password (.inl hcredentials)
            ((h.edbUserVerifyPassword_eq hsettled token password).symm.trans hverified.2)
          rw [← h.edbUserGet_eq hsettled] at hstart
          split
          · next user huser => exact hstart user huser
          · exact hzero
        · exact hzero

theorem Barred.requireAdminAuth_eq (h : Barred inst start s)
    (hsettled : Settled inst.shardKey start.clock start.engine)
    (hadmin : edbAdminExists (inst.backend start) start.engine = true)
    (hreq : Outsider inst start req) :
    ∃ answer, 400 ≤ answer.status ∧
      inst.requireAdminAuth s req = (some answer, (inst.caller s req).2) := by
  have hgroups := h.caller_spec hsettled hadmin hreq
  unfold Installation.requireAdminAuth
  dsimp only
  split
  · exact ⟨_, show 400 ≤ 401 by decide, rfl⟩
  · have hzero : (inst.caller s req).1.1 &&& 1 = 0 := not_not.mp hgroups
    have hne : (inst.caller s req).1.1 ≠ ~~~0 := by
      intro hall
      rw [hall] at hzero
      exact absurd hzero (by decide)
    rw [if_pos ⟨hzero, hne⟩]
    exact ⟨_, show 400 ≤ 403 by decide, rfl⟩

/-! ## What requests leave as it is -/

/-- Nothing happens to the configuration shards, and no administrator gets a session. -/
theorem Barred.of_agree (h : Barred inst start s) {engine : CString → Shard} {gate : Gate}
    (hengine : ∀ ks ∈ systemKeyspaces,
      engine (inst.shardKey systemDb ks) = s.engine (inst.shardKey systemDb ks))
    (hgate : ∀ x ∈ gate.sessions, x.used = true → x ∈ s.gate.sessions ∨ ¬ Administers x.groups) :
    Barred inst start { s with engine, gate } where
  clock := h.clock
  shards ks hks h1 h2 := (hengine ks hks).trans (h.shards ks hks h1 h2)
  settled ks hks id r hr := h.settled ks hks id r (hengine ks hks ▸ hr)
  masks db partition hstart := by
    rw [← h.masks db partition hstart]
    exact congrFun (congrFun (edbPartitionGet_congr (B := inst.backend s)
      (hengine cfgPartitions cfgPartitions_mem)) db) partition
  sessions x hx hused hadmin := by
    rcases hgate x hx hused with hold | hnot
    · exact h.sessions x hold hused hadmin
    · exact absurd hadmin hnot
  locked := h.locked

theorem Barred.of_gate (h : Barred inst start s) {gate : Gate}
    (hgate : ∀ x ∈ gate.sessions, x.used = true → x ∈ s.gate.sessions ∨ ¬ Administers x.groups) :
    Barred inst start { s with gate } :=
  h.of_agree (fun _ _ => rfl) hgate

theorem Barred.tick (h : Barred inst start s) (seconds : Nat) :
    Barred inst start { s with clock := s.clock + seconds } where
  clock := h.clock.trans (by show s.clock ≤ s.clock + seconds; omega)
  shards := h.shards
  settled := h.settled.mono (by show s.clock ≤ s.clock + seconds; omega)
  masks db partition hstart := by
    rw [← h.masks db partition hstart]
    have hle : s.clock ≤ s.clock + seconds := by omega
    show edbPartitionGet (localBackend inst.codec inst.shardKey (s.clock + seconds)) s.engine db
      partition = edbPartitionGet (localBackend inst.codec inst.shardKey s.clock) s.engine db
      partition
    rw [edbPartitionGet, edbPartitionGet, fetch_later h.settled hle cfgPartitions_mem]
  sessions := h.sessions
  locked := h.locked

/-- Storing a record of the registry leaves the masks that are there. -/
theorem Barred.store (h : Barred inst start s) (hapart : KeysApart inst.shardKey) {ks : CString}
    (hks : ks ∈ systemKeyspaces) (hregistry : ks = cfgPartitions ∨ ks = cfgKeyspaces)
    (id : CString) (obj : Json D)
    (hfree : ks = cfgPartitions → ∀ db partition,
      (edbPartitionGet (inst.backend s) s.engine db partition).isSome →
        partitionId db partition ≠ id) :
    Barred inst start { s with engine := (store (inst.backend s) ks id obj s.engine).2 } where
  clock := h.clock
  shards ks' hks' h1 h2 := by
    have hne : ks' ≠ ks := by
      rintro rfl
      exact hregistry.elim h1 h2
    show (EpsilonDB.store (localBackend inst.codec inst.shardKey s.clock) ks id obj s.engine).2 _ = _
    rw [store_snd, Function.update_of_ne (hapart.ne hks' hks hne)]
    exact h.shards ks' hks' h1 h2
  settled := h.settled.store hks id obj
  masks db partition hstart := by
    have hmask := h.masks db partition hstart
    rw [← hmask] at hstart ⊢
    show edbPartitionGet (localBackend inst.codec inst.shardKey s.clock)
      (EpsilonDB.store (localBackend inst.codec inst.shardKey s.clock) ks id obj s.engine).2 db
      partition = edbPartitionGet (localBackend inst.codec inst.shardKey s.clock) s.engine db partition
    rw [edbPartitionGet, edbPartitionGet]
    have hfetch : fetch (localBackend inst.codec inst.shardKey s.clock)
        (EpsilonDB.store (localBackend inst.codec inst.shardKey s.clock) ks id obj s.engine).2
        cfgPartitions (partitionId db partition) =
        fetch (localBackend inst.codec inst.shardKey s.clock) s.engine cfgPartitions
          (partitionId db partition) := by
      rw [store_snd]
      rcases hregistry with rfl | rfl
      · rw [fetch_eq, fetch_eq, Function.update_self, lookup_edbShardPut,
          if_neg (hfree rfl db partition hstart)]
      · rw [fetch_update_of_ne hapart cfgKeyspaces_mem cfgPartitions_mem (by decide)]
    rw [hfetch]
  sessions := h.sessions
  locked := h.locked

theorem Barred.ensureKeyspace (h : Barred inst start s) (hapart : KeysApart inst.shardKey)
    (database partition keyspace : CString) :
    Barred inst start { s with
      engine := ensureKeyspace (inst.backend s) database partition keyspace s.engine } := by
  unfold EpsilonDB.ensureKeyspace
  dsimp only
  split
  · exact h
  · exact h.store hapart cfgKeyspaces_mem (.inr rfl) _ _ (fun heq => absurd heq (by decide))

/-- **Registering a place** keeps the masks that are there. -/
theorem Barred.edbPartitionEnsure (h : Barred inst start s) (hapart : KeysApart inst.shardKey)
    (database partition keyspace : CString) :
    Barred inst start { s with
      engine := edbPartitionEnsure (inst.backend s) database partition keyspace s.engine } := by
  unfold EpsilonDB.edbPartitionEnsure
  split
  · exact h
  split
  · exact h.ensureKeyspace hapart _ _ _
  · next hnone =>
    -- the partition is new: no record with a name has its id
    have hcreate : Barred inst start { s with
        engine := (edbPartitionCreate (inst.backend s) database partition maskAllowAll maskAllowAll
          maskAllowAll maskAllowAll s.engine).2 } := by
      unfold edbPartitionCreate
      split
      · exact h
      · refine h.store hapart cfgPartitions_mem (.inl rfl) _ _ fun _ db' partition' hsome heq => ?_
        rw [EpsilonDB.edbPartitionGet, heq] at hsome
        exact hnone hsome
    dsimp only
    split
    · exact hcreate.ensureKeyspace hapart database partition keyspace
    · exact hcreate

theorem Barred.registerAll (h : Barred inst start s) (hapart : KeysApart inst.shardKey)
    (places : List (CString × CString × CString)) :
    Barred inst start { s with engine := registerAll (inst.backend s) places s.engine } := by
  induction places generalizing s with
  | nil => exact h
  | cons p places ih => exact ih (h.edbPartitionEnsure hapart p.1 p.2.1 p.2.2)

/-! ## One request -/

theorem addressedKeys_eq (surface : Surface) (req : AuthRequest) (s s' : HttpNode) :
    addressedKeys (inst.host s) surface (inst.dataRequest s req) =
      addressedKeys (inst.host s') surface (inst.dataRequest s' req) := by
  cases surface <;> rfl

/-- **Nothing of what is attached to events runs** for an outsider. -/
theorem Barred.unscripted (h : Barred inst start s) (hapart : KeysApart inst.shardKey)
    (hsettled : Settled inst.shardKey start.clock start.engine) {surface : Surface}
    (hnames : Disjoint (addressedKeys (inst.host start) surface (inst.dataRequest start req))
      (configKeys (inst.backend start)))
    (hquiet : Writes (inst.host start) surface (inst.dataRequest start req) →
      ∀ db partition keyspace,
        Addresses (inst.host start) surface (inst.dataRequest start req) db partition keyspace →
          (inst.backend start).Quiet start.engine db partition keyspace) :
    Unscripted (inst.host s) surface (inst.dataRequest s req) s.engine := by
  intro hwrites
  have hsame : ∀ db partition keyspace,
      Addresses (inst.host s) surface (inst.dataRequest s req) db partition keyspace →
        Addresses (inst.host start) surface (inst.dataRequest start req) db partition keyspace := by
    cases surface <;> exact fun _ _ _ => id
  have hwrites' : Writes (inst.host start) surface (inst.dataRequest start req) := by
    cases surface <;> exact hwrites
  refine .inr ⟨?_, fun db partition keyspace haddr => ⟨fun hkey => ?_, ?_⟩⟩
  · -- the code has a key of its own beside those of the registry
    rintro ⟨ks, hks, hkey⟩
    have hregistry : ks ∈ systemKeyspaces ∧ ks ≠ cfgCode := by
      rcases List.mem_pair.mp hks with rfl | rfl
      · exact ⟨cfgPartitions_mem, by decide⟩
      · exact ⟨cfgKeyspaces_mem, by decide⟩
    exact hapart.ne hregistry.1 cfgCode_mem hregistry.2 hkey
  · exact Set.disjoint_left.mp hnames ⟨db, partition, keyspace, hsame _ _ _ haddr, hkey⟩
      ⟨cfgCode, cfgCode_mem, rfl⟩
  · have hstart := hquiet hwrites' db partition keyspace (hsame _ _ _ haddr)
    show (inst.backend s).Quiet s.engine db partition keyspace
    rw [Backend.Quiet, h.code_eq hsettled]
    exact hstart

theorem Barred.handleSurface (h : Barred inst start s) (hapart : KeysApart inst.shardKey)
    (hsettled : Settled inst.shardKey start.clock start.engine)
    {surface : Surface} (hnames : Disjoint
      (addressedKeys (inst.host start) surface (inst.dataRequest start req))
      (configKeys (inst.backend start)))
    (hquiet : Writes (inst.host start) surface (inst.dataRequest start req) →
      ∀ db partition keyspace,
        Addresses (inst.host start) surface (inst.dataRequest start req) db partition keyspace →
          (inst.backend start).Quiet start.engine db partition keyspace) :
    Barred inst start (inst.handleSurface surface req s).2 := by
  have hunscripted := h.unscripted hapart hsettled hnames hquiet
  rw [addressedKeys_eq surface req start s] at hnames
  have hreg : Disjoint (registryKeys (inst.host s).backend) (configKeys (inst.backend s))ᶜ :=
    Set.disjoint_compl_right_iff_subset.mpr (registryKeys_subset _)
  obtain ⟨places, -, hafter⟩ := handle_registers (h := inst.host s)
    (K := (configKeys (inst.backend s))ᶜ) (s := s.engine)
    (Set.subset_compl_iff_disjoint_right.mpr hnames) (.inr hreg) (fun _ _ => trivial) hunscripted
  refine (h.registerAll hapart places).of_agree (fun ks hks => ?_) fun x hx hused => ?_
  · exact (hafter _ (not_not.mpr ⟨ks, hks, rfl⟩)).symm
  · have hx : x ∈ (if inst.asksCaller s surface req then (inst.caller s req).2
        else s.gate).sessions := hx
    split at hx
    · exact .inl (mem_authenticate hx hused)
    · exact .inl hx

theorem Barred.handleAdmin (h : Barred inst start s)
    (hsettled : Settled inst.shardKey start.clock start.engine)
    (hadmin : edbAdminExists (inst.backend start) start.engine = true)
    (hreq : Outsider inst start req) (handler : AdminHandler) :
    Barred inst start (inst.handleAdmin handler req s).2 ∧
      400 ≤ (inst.handleAdmin handler req s).1.status := by
  unfold Installation.handleAdmin
  split
  · exact ⟨h, show 400 ≤ 405 by decide⟩
  · obtain ⟨answer, hstatus, hguard⟩ := h.requireAdminAuth_eq hsettled hadmin hreq
    rw [hguard]
    exact ⟨h.of_gate fun x hx hused => .inl (mem_authenticate hx hused), hstatus⟩

/-- A login that succeeds gave the password of its user. -/
theorem handleAdminLogin_eq_some {σ : Type} {codec : Codec D} {B : Backend σ D} {now : Int} {s : σ}
    {attempts : List AuthAttempt} {info : UserInfo}
    (h : (handleAdminLogin codec B now req s attempts).1 = some info) :
    ∃ name password, loginArgs codec req = (some name, some password) ∧
      edbUserVerifyPassword B s name password = true ∧ edbUserGet B s name = some info := by
  unfold handleAdminLogin at h
  split at h
  · cases h
  split at h
  · cases h
  split at h
  · next members hbody =>
    dsimp only at h
    split at h
    · cases h
    · next username huser =>
      obtain ⟨hname, hverified⟩ := Option.filter_eq_some_iff.mp huser
      rw [Option.any_eq_true] at hverified
      obtain ⟨password, hpassword, hverified⟩ := hverified
      split at h
      · cases h
      · next info' hget =>
        obtain rfl := Option.some.inj h
        refine ⟨username, password, ?_, hverified, hget⟩
        rw [loginArgs, hbody]
        exact Prod.ext hname hpassword
  · cases h

theorem Barred.login (h : Barred inst start s)
    (hsettled : Settled inst.shardKey start.clock start.engine) (hreq : Outsider inst start req)
    (token : CString) : Barred inst start (inst.login req token s).2 := by
  unfold Installation.login
  dsimp only
  split
  · next info hlogin =>
    obtain ⟨name, password, hargs, hverified, hget⟩ := handleAdminLogin_eq_some hlogin
    have hnot : ¬ Administers info.groups := by
      refine hreq.password name password (.inr hargs) ?_ info ?_
      · exact (h.edbUserVerifyPassword_eq hsettled name password).symm.trans hverified
      · exact (h.edbUserGet_eq hsettled name).symm.trans hget
    refine h.of_gate fun x hx hused => ?_
    rcases mem_sessionCreate hx with hnew | hold
    · refine .inr ?_
      rw [show x.groups = info.groups from congrArg UserInfo.groups hnew]
      exact hnot
    · exact .inl hold
  · exact h.of_gate fun x hx _ => .inl hx

/-- **One request of an outsider.** -/
theorem Barred.dispatch (h : Barred inst start s) (hapart : KeysApart inst.shardKey)
    (hsettled : Settled inst.shardKey start.clock start.engine)
    (hadmin : edbAdminExists (inst.backend start) start.engine = true)
    (hreq : Outsider inst start req) (token salt : CString) :
    Barred inst start (inst.dispatch req token salt s).2 := by
  unfold Installation.dispatch
  cases hroute : bestRoute apiRoutes req.method req.path with
  | none => exact h
  | some r =>
    have hnames := hreq.names r hroute
    have hquiet := hreq.quiet r hroute
    rw [Option.map_some]
    cases hhandler : r.handler with
    | data surface =>
      exact h.handleSurface hapart hsettled (hnames surface hhandler) (hquiet surface hhandler)
    | admin handler => exact (h.handleAdmin hsettled hadmin hreq handler).1
    | status => exact h
    | consoleState =>
      refine h.of_gate fun x hx hused => .inl ?_
      revert hx
      cases bearerToken req with
      | none => exact id
      | some token => exact fun hx => mem_sessionLookup hx hused
    | login => exact h.login hsettled hreq token
    | setup =>
      -- there is an administrator already
      show Barred inst start (inst.setup req token salt s).2
      unfold Installation.setup
      split
      · exact h
      · rw [if_pos (h.edbAdminExists_eq hsettled hadmin)]
        exact h
    | logout =>
      show Barred inst start (s.logout req).2
      unfold HttpNode.logout
      dsimp only
      split
      · exact h
      · exact h.of_gate fun x hx hused => .inl (mem_sessionDestroy hx hused)
    | console => exact h

/-! ## The result -/

/-- A label of an outsider, or time. -/
def HttpLabel.OfOutsider (inst : Installation D) (start : HttpNode) : HttpLabel → Prop
  | .request req _ _ => Outsider inst start req
  | .tick _ => True

/-- **The keys of the code** are apart, as the results above ask of them. -/
theorem keysApart_shardKeyOf (buffers : Fin 3 → Vector UInt8 64) :
    KeysApart (shardKeyOf buffers) := by
  have hkey : ∀ ks, shardKeyOf buffers systemDb ks =
      blockDigits (blockDigits systemDb ++ cstr ":" ++ blockDigits ks) := by
    intro ks
    rw [shardKeyOf_eq, ← edbMd5Hex_eq (buffers 0), edbMd5Hex_eq_blockDigits, framed,
      ← edbMd5Hex_eq (buffers 0), ← edbMd5Hex_eq (buffers 0), edbMd5Hex_eq_blockDigits,
      edbMd5Hex_eq_blockDigits]
  rw [KeysApart, List.map_congr_left fun ks _ => hkey ks]
  decide +kernel

/-! ## A node with an administrator -/

/-- What a stranger sends to log in. -/
def guessBody : Json Int :=
  .obj [(cstr "username", .str (cstr "admin")), (cstr "password", .str (cstr "guess"))]

def noteBody : Json Int := .obj [(cstr "text", .str (cstr "hello"))]

/-- An administrator without a password; a handler does nothing, and code would clear the store. -/
def adminInstallation : Installation Int where
  codec := tableCodec [userUpdateRecord (cstr "admin") 1, guessBody, noteBody] (by decide +kernel)
  shardKey := joinedKey
  compile _ := none
  sqlite := noSqlite
  junk := []
  version := cstr "1.0.0"
  clustered := false
  peers := 0
  consoleHtml := []
  seedDemoData _ engine := engine
  scripts _ := ⟨fun _ arg _ => (arg.passed, fun _ => {})⟩
  admin _ _ s := (⟨200, []⟩, s)

/-- The node with the record of the administrator. -/
def adminNode : HttpNode where
  engine := (store (localBackend adminInstallation.codec joinedKey 0) cfgUsers (cstr "admin")
    (userUpdateRecord (cstr "admin") 1) fun _ => {}).2
  clock := 0

def strangerRequest (method path : String) (body : CString) : AuthRequest where
  method := cstr method
  path := cstr path
  query := []
  headers := []
  body

def strangerRequests : List AuthRequest :=
  [strangerRequest "GET" "/admin/users" [],
    strangerRequest "PUT" "/data/app/main/notes/n1" noteBody.text,
    strangerRequest "POST" "/admin/login" guessBody.text,
    strangerRequest "POST" "/admin/setup" []]

/-- A stranger at work, a second each. -/
def strangerRun : List HttpLabel :=
  strangerRequests.flatMap fun req => [.request req (cstr "t") (cstr "s"), .tick 1]

/-- All four are outsiders': the one name and password among them is wrong, and the one data
request goes to a place of its own. -/
theorem strangerRequests_outsider :
    ∀ req ∈ strangerRequests, Outsider adminInstallation adminNode req := by
  intro req hreq
  constructor
  case untrusted =>
    have huntrusted : ∀ req ∈ strangerRequests, req.trusted = false := by decide +kernel
    exact huntrusted req hreq
  case token =>
    have hfresh : ∀ x ∈ adminNode.gate.sessions, x.used = false := by decide +kernel
    intro token _ x hx hused
    rw [hfresh x hx] at hused
    cases hused
  case password =>
    have hnone : ∀ req ∈ strangerRequests, (credentials adminInstallation.codec req).1 = none := by
      decide +kernel
    have hargs : ∀ req ∈ strangerRequests,
        loginArgs adminInstallation.codec req = (none, none) ∨
          loginArgs adminInstallation.codec req = (some (cstr "admin"), some (cstr "guess")) := by
      decide +kernel
    rintro name password (h | h) hverified
    · have hname := congrArg Prod.fst h
      rw [hnone req hreq] at hname
      cases hname
    · rcases hargs req hreq with hargs | hargs
      · rw [hargs] at h
        cases h
      · rw [hargs] at h
        cases h
        -- the record has no password
        exact absurd hverified (by decide +kernel)
  case names =>
    have hdata : ∀ req ∈ strangerRequests,
        (bestRoute apiRoutes req.method req.path).map HttpRoute.handler ∈
            [some (.admin .users), some .login, some .setup] ∨
          (bestRoute apiRoutes req.method req.path).map HttpRoute.handler =
              some (.data (.rest .put)) ∧
            restAddress .put req.path = some (cstr "app", cstr "main", some (cstr "notes")) := by
      decide +kernel
    intro r hr surface hsurface
    have hhandler := hdata req hreq
    rw [Option.mem_def.mp hr, Option.map_some, hsurface] at hhandler
    rcases hhandler with hother | ⟨hput, haddr⟩
    · simp at hother
    · cases hput
      have hne : ∀ ks ∈ systemKeyspaces,
          joinedKey systemDb ks ≠ joinedKey (cstr "main") (cstr "notes") := by
        decide +kernel
      rw [Set.disjoint_left]
      rintro _ ⟨db, partition, ks, ⟨ks', ha, hk⟩, rfl⟩ ⟨sys, hsys, hkey⟩
      cases haddr.symm.trans ha
      rw [← hk (cstr "notes") rfl] at hkey
      exact hne sys hsys hkey
  case quiet =>
    -- there is no code at all
    have hnone : (adminInstallation.backend adminNode).all adminNode.engine systemDb cfgCode = [] :=
      by decide +kernel
    intro r _ surface _ _ db partition ks _
    refine .inr fun event name _ doc hdoc => ?_
    have hdoc : doc ∈ (adminInstallation.backend adminNode).all adminNode.engine systemDb cfgCode :=
      hdoc
    rw [hnone] at hdoc
    cases hdoc

theorem Installation.exists_run (inst : Installation D) (s : HttpNode) (ls : List HttpLabel) :
    ∃ s', Runs.run inst.step s ls = some s' := by
  induction ls generalizing s with
  | nil => exact ⟨s, rfl⟩
  | cons l ls ih => cases l <;> exact ih _

end EpsilonDB
