import EpsilonDB.Api.Data
import EpsilonDB.Api.Entities

/-!
# Callers (`api/epsilon_api.c`, `api/epsilon_api_console.c`)

A request over the open port names a user with a password, or carries the token of a console
session. Sessions and failed attempts are tables in memory; users are records.

- `hashPassword`, `edbUserHasPassword`, `edbUserVerifyPassword`: passwords.
- `authSlot`, `edbAuthThrottled`, `edbAuthThrottleFail`, `edbAuthThrottleReset`: the table of
  failed attempts.
- `sessionLookup`, `sessionCreate`, `sessionDestroy`: the table of sessions. A session has
  the groups of its user at the time of the login.
- `credentials`, `authenticate`: who asks, and with which groups.
- `password_grants_stored`: a password grants the groups stored now.
- `handleAdminLogin`, `setupArgs` and `setupAdmin`: up to the session they open.

The configuration is there (`g_ctx.config`).
-/

namespace EpsilonDB

/-! ## Passwords -/

/-- `hex_value`. -/
def hexValue (c : UInt8) : Option UInt8 :=
  if 48 ≤ c ∧ c ≤ 57 then some (c - 48)
  else if 97 ≤ c ∧ c ≤ 102 then some (c - 97 + 10)
  else if 65 ≤ c ∧ c ≤ 70 then some (c - 65 + 10)
  else none

/-- `hex_decode` of `n` bytes. -/
def hexDecode : Nat → CString → Option Bytes
  | 0, _ => some []
  | n + 1, hi :: lo :: hex => do
    let h ← hexValue hi
    let l ← hexValue lo
    let rest ← hexDecode n hex
    return ((h <<< 4) ||| l) :: rest
  | _ + 1, _ => none

/-- `EDB_PASSWORD_ITERATIONS`. -/
def passwordIterations : Nat := 100000

def hexDigits : CString := cstr "0123456789abcdef"

/-- `hash_password`: of a password its first 256 bytes count. -/
def hashPassword (saltHex password : CString) : CString :=
  let salt := (hexDecode 16 saltHex).getD (List.replicate 16 0)
  let digest := edbSha256^[passwordIterations - 1] (edbSha256 (salt ++ password.take 256))
  digest.flatMap fun (b : UInt8) =>
    [hexDigits.getD (b >>> 4).toNat 0, hexDigits.getD (b &&& 15).toNat 0]

section

variable {σ D : Type} [Doubles D] (B : Backend σ D)

/-- `edb_user_list`. -/
def edbUserList (s : σ) : List UserInfo := (B.all s systemDb cfgUsers).map userInfo

/-- `edb_user_has_password`. -/
def edbUserHasPassword (s : σ) (name : CString) : Bool :=
  match fetch B s cfgUsers name with
  | none => false
  | some obj => (obj.getStr (cstr "password_hash")).any fun hash => hash.length = 64

/-- `edb_user_verify_password`. -/
def edbUserVerifyPassword (s : σ) (name password : CString) : Bool :=
  match fetch B s cfgUsers name with
  | none => false
  | some obj =>
    match obj.getStr (cstr "salt"), obj.getStr (cstr "password_hash") with
    | some salt, some hash =>
      decide (salt.length = 32 ∧ hash.length = 64) && hashPassword salt password == hash
    | _, _ => false

/-- `edb_admin_exists`. -/
def edbAdminExists (s : σ) : Bool := (edbUserList B s).any fun user => user.groups &&& 1 != 0

end

/-! ## Failed attempts -/

/-- `EDB_AUTH_MAX_FAILS`. -/
def authMaxFails : Nat := 8

/-- `EDB_AUTH_LOCKOUT_SECS`. -/
def authLockoutSecs : Int := 30

/-- `EDB_AUTH_ATTEMPT_SLOTS`. -/
def authAttemptSlots : Nat := 64

/-- `edb_auth_attempt`. -/
structure AuthAttempt where
  ip : CString := []
  fails : Nat := 0
  lockedUntil : Int := 0
deriving DecidableEq

/-- `auth_slot`: the slot of an address, or the first that is empty or not locked. -/
def authSlot (now : Int) (ip : CString) (attempts : List AuthAttempt) : Option Nat :=
  (attempts.findIdx? fun a => decide (a.ip ≠ []) && a.ip == ip).or
    (attempts.findIdx? fun a => decide (a.ip = [] ∨ a.lockedUntil ≤ now))

/-- `edb_auth_throttled`. -/
def edbAuthThrottled (now : Int) (ip : CString) (attempts : List AuthAttempt) : Bool :=
  decide (ip ≠ []) && (((authSlot now ip attempts).bind (attempts[·]?)).any fun a =>
    decide (authMaxFails ≤ a.fails ∧ now < a.lockedUntil))

/-- What a failed check makes of a slot. -/
def AuthAttempt.fail (now : Int) (ip : CString) (a : AuthAttempt) : AuthAttempt :=
  let a := if a.ip = [] then { a with ip := snprintf 64 ip } else a
  if now < a.lockedUntil ∧ authMaxFails ≤ a.fails then
    { a with lockedUntil := now + authLockoutSecs }
  else
    let fails := (if a.lockedUntil ≤ now then 0 else a.fails) + 1
    { a with
      fails
      lockedUntil := if authMaxFails ≤ fails then now + authLockoutSecs else a.lockedUntil }

/-- `edb_auth_throttle_fail`. -/
def edbAuthThrottleFail (now : Int) (ip : CString) (attempts : List AuthAttempt) :
    List AuthAttempt :=
  if ip = [] then attempts
  else
    match authSlot now ip attempts with
    | none => attempts
    | some i => attempts.modify i (AuthAttempt.fail now ip)

/-- `edb_auth_throttle_reset`. -/
def edbAuthThrottleReset (ip : CString) (attempts : List AuthAttempt) : List AuthAttempt :=
  if ip = [] then attempts
  else
    match attempts.findIdx? fun a => a.ip == ip with
    | none => attempts
    | some i => attempts.modify i fun _ => {}

/-! ## Sessions -/

/-- `EDB_SESSION_CAPACITY`. -/
def sessionCapacity : Nat := 256

/-- `EDB_SESSION_TTL`. -/
def sessionTtl : Int := 43200

/-- `edb_session`. -/
structure Session where
  token : CString := []
  username : CString := []
  groups : UInt64 := 0
  expires : Int := 0
  used : Bool := false
deriving DecidableEq

/-- A session that is open at a time. -/
def Session.Live (x : Session) (now : Int) : Prop := x.used = true ∧ now < x.expires

instance (x : Session) (now : Int) : Decidable (x.Live now) :=
  inferInstanceAs (Decidable (_ ∧ _))

/-- `session_destroy`: the first session with the token is closed. -/
def sessionDestroy (token : CString) : List Session → List Session
  | [] => []
  | x :: xs =>
    if x.used && x.token == token then { x with used := false } :: xs
    else x :: sessionDestroy token xs

/-- `session_lookup`: the user and the groups of a token; a session that has expired is
closed. -/
def sessionLookup (now : Int) (token : CString) (sessions : List Session) :
    Option UserInfo × List Session :=
  match sessions.find? fun x => x.used && x.token == token with
  | none => (none, sessions)
  | some x =>
    if x.expires ≤ now then (none, sessionDestroy token sessions)
    else (some ⟨snprintf 128 x.username, x.groups⟩, sessions)

/-- A new session in the first slot that is free. -/
def replaceFree (now : Int) (new : Session) : List Session → Option (List Session)
  | [] => none
  | x :: xs =>
    if x.used = false ∨ x.expires ≤ now then some (new :: xs)
    else (replaceFree now new xs).map (x :: ·)

/-- `session_create`: when no slot is free, the first one is taken. -/
def sessionCreate (now : Int) (info : UserInfo) (token : CString) (sessions : List Session) :
    List Session :=
  let new : Session := ⟨snprintf 65 token, snprintf 128 info.name, info.groups,
    now + sessionTtl, true⟩
  (replaceFree now new sessions).getD (sessions.set 0 new)

/-! ## Requests -/

/-- A request with where it came from. -/
structure AuthRequest extends HttpRequest where
  /-- over the admin socket -/
  trusted : Bool := false
  peerIp : CString := []

/-- The value of an `Authorization` header after `"Bearer "`. -/
def bearerValue (hdr : CString) : CString :=
  if (cstr "Bearer ").isPrefixOf hdr then hdr.drop 7 else hdr

/-- What fits a buffer. -/
def fits (cap : Nat) (s : CString) : Option CString := if s.length < cap then some s else none

/-- `bearer_token`. -/
def bearerToken (req : AuthRequest) : Option CString :=
  (edbHttpHeader req.headers (cstr "Authorization")).bind fun hdr => fits 256 (bearerValue hdr)

/-- The token that the headers or the query carry. -/
def headToken (req : AuthRequest) : Option CString :=
  ((bearerToken req).or
    ((edbHttpHeader req.headers (cstr "authorization")).bind (fits 256))).or
    (if req.query = [] then none else queryParam req.query (cstr "authorization") 256)

/-- The password in the headers. -/
def headPassword (req : AuthRequest) : Option CString :=
  ((edbHttpHeader req.headers (cstr "X-Epsilon-Password")).filter (· ≠ [])).bind (fits 1024)

variable {σ D : Type} [Doubles D]

/-- The credentials of a request. The body is looked at when the rest lacks one of them, and
its token comes first then. A token that does not fit is cut, and takes the place of one
that is there. -/
def credentials (codec : Codec D) (req : AuthRequest) : Option CString × Option CString :=
  let token := headToken req
  let password := headPassword req
  if (password.isNone || token.isNone) && decide (req.body ≠ []) then
    match codec.parse req.body with
    | none => (token, password)
    | some body =>
      (match body.getStr (cstr "authorization") with
        | none => token
        | some t => if t.length < 256 then some t else token.map fun _ => snprintf 256 t,
      password.or
        (((body.getStr (cstr "password")).filter (· ≠ [])).bind (fits 1024)))
  else (token, password)

/-- The two tables in memory. -/
structure Gate where
  sessions : List Session := List.replicate sessionCapacity {}
  attempts : List AuthAttempt := List.replicate authAttemptSlots {}

variable (codec : Codec D) (B : Backend σ D) (now : Int)

/-- A name with its password. -/
def passwordVerified (s : σ) (name : CString) (password : Option CString) : Bool :=
  password.any fun pw =>
    decide (pw ≠ []) && edbUserHasPassword B s name && edbUserVerifyPassword B s name pw

/-- `authenticate`: the groups, and whether the caller is accepted. -/
def authenticate (req : AuthRequest) (s : σ) (gate : Gate) : (UInt64 × Bool) × Gate :=
  if req.trusted then ((~~~0, true), gate)
  else if edbAuthThrottled now req.peerIp gate.attempts then ((0, false), gate)
  else
    let (token, password) := credentials codec req
    match token.filter (· ≠ []) with
    | none => ((if (edbUserList B s).isEmpty then ~~~0 else 0, true), gate)
    | some token =>
      let (session, sessions) := sessionLookup now token gate.sessions
      match session with
      | some info => ((info.groups, true), { gate with sessions })
      | none =>
        if passwordVerified B s token password then
          let attempts := edbAuthThrottleReset req.peerIp gate.attempts
          match edbUserGet B s token with
          | some user => ((user.groups, true), { sessions, attempts })
          | none => ((0, false), { sessions, attempts })
        else
          ((0, false), { sessions, attempts := edbAuthThrottleFail now req.peerIp gate.attempts })

/-- `authenticate` accepts the token of a session. -/
structure AcceptsSession (req : AuthRequest) (gate : Gate) (info : UserInfo) : Prop where
  untrusted : req.trusted = false
  throttled : edbAuthThrottled now req.peerIp gate.attempts = false
  session : ∃ token ∈ (credentials codec req).1,
    token ≠ [] ∧ (sessionLookup now token gate.sessions).1 = some info

variable {codec B now}

/-- **A session grants the groups of its login.** -/
theorem AcceptsSession.authenticate_eq {req : AuthRequest} {gate : Gate} {info : UserInfo}
    (h : AcceptsSession codec now req gate info) (s : σ) :
    (authenticate codec B now req s gate).1 = (info.groups, true) := by
  obtain ⟨token, htoken, hne, hlookup⟩ := h.session
  have hfilter : (credentials codec req).1.filter (· ≠ []) = some token := by
    rw [Option.mem_def.mp htoken, Option.filter_some, if_pos (decide_eq_true hne)]
  unfold authenticate
  rw [h.untrusted, h.throttled, if_neg Bool.false_ne_true, if_neg Bool.false_ne_true]
  dsimp only
  rw [hfilter]
  dsimp only
  rw [hlookup]

/-- **A password grants the groups stored now.** -/
theorem password_grants_stored {req : AuthRequest} {gate : Gate} {s : σ} {token : CString}
    {groups : UInt64} (huntrusted : req.trusted = false)
    (htoken : (credentials codec req).1.filter (· ≠ []) = some token)
    (hsession : (sessionLookup now token gate.sessions).1 = none)
    (h : (authenticate codec B now req s gate).1 = (groups, true)) :
    ∃ stored ∈ edbUserGet B s token, stored.groups = groups := by
  unfold authenticate at h
  rw [huntrusted, if_neg Bool.false_ne_true] at h
  split at h
  · cases h
  · dsimp only at h
    rw [htoken] at h
    dsimp only at h
    rw [hsession] at h
    dsimp only at h
    split at h
    · cases hget : edbUserGet B s token with
      | none =>
        rw [hget] at h
        cases h
      | some stored =>
        rw [hget] at h
        exact ⟨stored, rfl, congrArg Prod.fst h⟩
    · cases h

/-! ## The console -/

variable (codec B now)

/-- `handle_admin_login` up to the session: the user that logs in. -/
def handleAdminLogin (req : AuthRequest) (s : σ) (attempts : List AuthAttempt) :
    Option UserInfo × List AuthAttempt :=
  if req.method ≠ cstr "POST" then (none, attempts)
  else if !req.trusted && edbAuthThrottled now req.peerIp attempts then (none, attempts)
  else
    match if req.body = [] then none else codec.parse req.body with
    | some (.obj members) =>
      let body : Json D := .obj members
      let user := (body.getStr (cstr "username")).filter fun username =>
        (body.getStr (cstr "password")).any fun password =>
          edbUserVerifyPassword B s username password
      match user with
      | none =>
        (none, if req.trusted then attempts else edbAuthThrottleFail now req.peerIp attempts)
      | some username =>
        match edbUserGet B s username with
        | none => (none, attempts)
        | some info =>
          (some info, if req.trusted then attempts else edbAuthThrottleReset req.peerIp attempts)
    | _ => (none, attempts)

/-- The groups of the first administrator: the bit of the group `SysAdmins`. -/
def adminGroups (s : σ) : UInt64 :=
  match edbGroupGet B s (cstr "SysAdmins") with
  | some group => bitOf group.bitPosition
  | none => 1

/-- The name and the password that `handle_admin_setup` is asked for. -/
def setupArgs (req : AuthRequest) (s : σ) : Option (CString × CString) :=
  if req.method ≠ cstr "POST" ∨ edbAdminExists B s then none
  else
    match if req.body = [] then none else codec.parse req.body with
    | some (.obj members) =>
      let body : Json D := .obj members
      let username := ((body.getStr (cstr "username")).filter (· ≠ [])).getD (cstr "admin")
      ((body.getStr (cstr "password")).filter fun password =>
        4 ≤ password.length && password.length ≤ 256).map fun password =>
          (snprintf 128 username, password)
    | _ => none

/-- `handle_admin_setup` from there to the session, with the salt that is drawn; the cluster
secret and the demo data leave users and groups alone. -/
def setupAdmin (name password salt : CString) (s : σ) : Option UserInfo × σ :=
  let s := (edbGroupCreate B (cstr "SysAdmins") s).2
  let groups := adminGroups B s
  let (created, s) := edbUserCreate B name groups s
  if created then
    let (stored, s) := edbUserSetPassword B name password salt (hashPassword salt password) s
    (if stored then some ⟨name, groups⟩ else none, s)
  else (none, s)

end EpsilonDB
