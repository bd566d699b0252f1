import EpsilonDB.Api.Authenticate
import EpsilonDB.Api.LocalConfig
import EpsilonDB.Lib.Runs

/-!
# Sessions and the users they are of

A session keeps the groups its user had at the login for twelve hours. Nothing that happens
to the user's record reaches the table of sessions.

- `Console`: a node with its table of sessions and the logins under way; `Console.step`.
- `SessionsTrack`: an accepted token has an existing user, and grants the groups stored for
  that user.
- `Undisturbed`: a step that neither deletes a user with an open session nor gives one other
  groups, and opens sessions with the groups stored at that moment.
- `UsersStep`: what an operation does to the records of the users.
- `sessionsTrack_run`: runs of undisturbed steps.
- `token_of_deleted_user`: a token that outlives its user.
-/

namespace EpsilonDB

/-! ## The table of sessions -/

/-- What a lookup answers for a session. -/
def Session.info (x : Session) : UserInfo := ⟨snprintf 128 x.username, x.groups⟩

variable {now : Int} {token : CString} {sessions : List Session} {x : Session}

theorem sessionLookup_eq_some {info : UserInfo}
    (h : (sessionLookup now token sessions).1 = some info) :
    ∃ x ∈ sessions, x.Live now ∧ x.info = info := by
  unfold sessionLookup at h
  split at h
  · cases h
  · next x hfind =>
    have hx := List.find?_some hfind
    simp only [Bool.and_eq_true, beq_iff_eq] at hx
    split at h
    · cases h
    · next hexpires =>
      exact ⟨x, List.mem_of_find?_eq_some hfind, ⟨hx.1, by omega⟩, Option.some.inj h⟩

/-- Closing a session opens none. -/
theorem mem_sessionDestroy (h : x ∈ sessionDestroy token sessions) (hx : x.used = true) :
    x ∈ sessions := by
  induction sessions with
  | nil => exact h
  | cons y ys ih =>
    unfold sessionDestroy at h
    split at h
    · rcases List.mem_cons.mp h with rfl | h
      · cases hx
      · exact List.mem_cons_of_mem y h
    · rcases List.mem_cons.mp h with rfl | h
      · exact List.mem_cons_self
      · exact List.mem_cons_of_mem y (ih h)

theorem mem_sessionLookup (h : x ∈ (sessionLookup now token sessions).2) (hx : x.used = true) :
    x ∈ sessions := by
  unfold sessionLookup at h
  split at h
  · exact h
  · split at h
    · exact mem_sessionDestroy h hx
    · exact h

theorem mem_replaceFree {new : Session} {sessions' : List Session}
    (h : replaceFree now new sessions = some sessions') (hx : x ∈ sessions') :
    x = new ∨ x ∈ sessions := by
  induction sessions generalizing sessions' with
  | nil => cases h
  | cons y ys ih =>
    unfold replaceFree at h
    split at h
    · cases h
      exact (List.mem_cons.mp hx).imp_right (List.mem_cons_of_mem y)
    · obtain ⟨ys', hys, rfl⟩ := Option.map_eq_some_iff.mp h
      rcases List.mem_cons.mp hx with rfl | hx
      · exact Or.inr List.mem_cons_self
      · exact (ih hys hx).imp_right (List.mem_cons_of_mem y)

/-- Opening a session takes a slot. -/
theorem mem_sessionCreate {info : UserInfo} (h : x ∈ sessionCreate now info token sessions) :
    x.info = ⟨snprintf 128 info.name, info.groups⟩ ∨ x ∈ sessions := by
  have hnew : ∀ t e, Session.info ⟨t, snprintf 128 info.name, info.groups, e, true⟩ =
      ⟨snprintf 128 info.name, info.groups⟩ := by
    intro t e
    rw [Session.info, snprintf_of_lt (length_snprintf_lt (by decide) _)]
  unfold sessionCreate at h
  dsimp only at h
  cases hfree : replaceFree now ⟨snprintf 65 token, snprintf 128 info.name, info.groups,
      now + sessionTtl, true⟩ sessions with
  | some sessions' =>
    rw [hfree] at h
    rcases mem_replaceFree hfree h with rfl | h
    · exact Or.inl (hnew ..)
    · exact Or.inr h
  | none =>
    rw [hfree] at h
    rcases List.mem_or_eq_of_mem_set h with h | rfl
    · exact Or.inr h
    · exact Or.inl (hnew ..)

variable {σ D : Type} [Doubles D] {codec : Codec D} {B : Backend σ D}

/-- A request opens no session. -/
theorem mem_authenticate {req : AuthRequest} {s : σ} {gate : Gate}
    (h : x ∈ (authenticate codec B now req s gate).2.sessions) (hx : x.used = true) :
    x ∈ gate.sessions := by
  unfold authenticate at h
  split at h
  · exact h
  · split at h
    · exact h
    · dsimp only at h
      split at h
      · exact h
      · split at h
        · exact mem_sessionLookup h hx
        · split at h
          · split at h
            · exact mem_sessionLookup h hx
            · exact mem_sessionLookup h hx
          · exact mem_sessionLookup h hx

/-! ## The records of the users -/

/-- A record that names a user, with a set. -/
def HasGroups (doc : Json D) (groups : UInt64) : Prop :=
  (userInfo doc).name ≠ [] ∧ (userInfo doc).groups = groups

/-- The set that is stored for a name. -/
def StoredGroups (us : CString → Option (Json D)) (name : CString) (groups : UInt64) : Prop :=
  ∃ doc ∈ us name, HasGroups doc groups

theorem storedGroups_iff {s : σ} {name : CString} {groups : UInt64} :
    StoredGroups (fetch B s cfgUsers) name groups ↔
      ∃ info ∈ edbUserGet B s name, info.groups = groups := by
  unfold StoredGroups edbUserGet
  cases fetch B s cfgUsers name with
  | none => simp
  | some doc =>
    simp only [Option.mem_def, Option.some.injEq, exists_eq_left', HasGroups]
    by_cases hname : (userInfo doc).name = []
    · simp [hname]
    · simp [hname]

/-- What an operation does to the records of the users. -/
inductive UsersStep (us : CString → Option (Json D)) :
    EntityOp → (CString → Option (Json D)) → Prop where
  | same (o : EntityOp) : UsersStep us o us
  | create {name : CString} {groups : UInt64} {doc : Json D} (hname : name ≠ [])
      (hnew : ∀ g, ¬ StoredGroups us name g) (hdoc : HasGroups doc groups) :
      UsersStep us (.userCreate name groups) (Function.update us name (some doc))
  | setGroups {name : CString} {groups old : UInt64} {doc : Json D} (hname : name ≠ [])
      (hold : StoredGroups us name old) (hdoc : HasGroups doc groups) :
      UsersStep us (.userSetGroups name groups) (Function.update us name (some doc))
  | setPassword {name password salt hash : CString} {groups : UInt64} {doc : Json D}
      (hname : name ≠ []) (hold : StoredGroups us name groups) (hdoc : HasGroups doc groups) :
      UsersStep us (.userSetPassword name password salt hash)
        (Function.update us name (some doc))
  | delete (name : CString) : UsersStep us (.userDelete name) (Function.update us name none)

/-- The operation neither changes the set of a user nor deletes the user. -/
def Spares (name : CString) (groups : UInt64) : EntityOp → Prop
  | .userSetGroups name' groups' => name' = name → groups' = groups
  | .userDelete name' => name' ≠ name
  | _ => True

instance (name : CString) (groups : UInt64) (o : EntityOp) : Decidable (Spares name groups o) :=
  match o with
  | .userSetGroups name' groups' => inferInstanceAs (Decidable (name' = name → groups' = groups))
  | .userDelete name' => inferInstanceAs (Decidable (name' ≠ name))
  | .groupCreate _ | .groupDelete _ | .userCreate _ _ | .userSetPassword _ _ _ _
  | .databaseCreate _ _ | .databaseDelete _ | .partitionCreate _ _ _ _ _ _
  | .partitionDelete _ _ | .partitionSetMasks _ _ _ _ _ _ | .partitionEnsure _ _ _ =>
    isTrue trivial

section

variable {us us' : CString → Option (Json D)} {o : EntityOp} {name : CString} {groups : UInt64}

theorem StoredGroups.unique {groups' : UInt64} (h : StoredGroups us name groups)
    (h' : StoredGroups us name groups') : groups = groups' := by
  obtain ⟨doc, hdoc, -, rfl⟩ := h
  obtain ⟨doc', hdoc', -, rfl⟩ := h'
  rw [Option.mem_unique hdoc hdoc']

theorem StoredGroups.update_of_ne {name' : CString} {doc : Option (Json D)}
    (h : StoredGroups us name groups) (hne : name' ≠ name) :
    StoredGroups (Function.update us name' doc) name groups := by
  obtain ⟨d, hd, hgroups⟩ := h
  refine ⟨d, ?_, hgroups⟩
  rwa [Function.update_of_ne (Ne.symm hne)]

theorem storedGroups_update {doc : Json D} (h : HasGroups doc groups) :
    StoredGroups (Function.update us name (some doc)) name groups :=
  ⟨doc, by rw [Function.update_self]; rfl, h⟩

/-- **A user that is spared keeps the set.** -/
theorem UsersStep.storedGroups (h : UsersStep us o us') (hstored : StoredGroups us name groups)
    (hspares : Spares name groups o) : StoredGroups us' name groups := by
  cases h with
  | same => exact hstored
  | @create name' _ _ _ hnew hdoc =>
    by_cases heq : name' = name
    · subst heq
      exact absurd hstored (hnew groups)
    · exact hstored.update_of_ne heq
  | @setGroups name' _ _ _ _ _ hdoc =>
    by_cases heq : name' = name
    · obtain rfl := hspares heq
      subst heq
      exact storedGroups_update hdoc
    · exact hstored.update_of_ne heq
  | @setPassword name' _ _ _ _ _ _ hold hdoc =>
    by_cases heq : name' = name
    · subst heq
      rw [hstored.unique hold]
      exact storedGroups_update hdoc
    · exact hstored.update_of_ne heq
  | delete => exact hstored.update_of_ne hspares

/-- No record is stored without a name. -/
theorem UsersStep.unnamed (h : UsersStep us o us') (hnone : us [] = none) : us' [] = none := by
  cases h with
  | same => exact hnone
  | create hname | setGroups hname | setPassword hname =>
    rw [Function.update_of_ne (Ne.symm hname), hnone]
  | delete name' =>
    rw [Function.update_apply, hnone, ite_self]

end

theorem hasGroups_userUpdateRecord {name : CString} (hname : name ≠ []) (groups : UInt64) :
    HasGroups (userUpdateRecord name groups : Json D) groups := by
  refine ⟨?_, groups_userUpdateRecord name groups⟩
  show snprintf 128 name ≠ []
  cases name with
  | nil => exact absurd rfl hname
  | cons c t => exact List.cons_ne_nil c _

theorem hasGroups_passwordRecord {name : CString} (hname : name ≠ []) (groups : UInt64)
    (salt hash : CString) : HasGroups (passwordRecord name groups salt hash : Json D) groups := by
  refine ⟨?_, groups_passwordRecord name groups salt hash⟩
  show snprintf 128 name ≠ []
  cases name with
  | nil => exact absurd rfl hname
  | cons c t => exact List.cons_ne_nil c _

/-- **What an operation does to the users.** -/
theorem usersStep_run {shardKey : CString → CString → CString} (hapart : KeysApart shardKey)
    {engine : CString → Shard} (o : EntityOp)
    (hnone : fetch (localBackend codec shardKey now) engine cfgUsers [] = none)
    (hreads : ∀ v ∈ o.written (localBackend codec shardKey now) engine, codec.Keeps v) :
    UsersStep (fetch (localBackend codec shardKey now) engine cfgUsers) o
      (fetch (localBackend codec shardKey now)
        (o.run (localBackend codec shardKey now) engine).2 cfgUsers) := by
  -- operations that write no user record leave the users as they are
  have hsame : cfgUsers ∉ o.stored → cfgUsers ∉ o.removed →
      UsersStep (fetch (localBackend codec shardKey now) engine cfgUsers) o
        (fetch (localBackend codec shardKey now)
          (o.run (localBackend codec shardKey now) engine).2 cfgUsers) := by
    intro hstored hremoved
    rw [fetch_run_eq hapart o cfgUsers_mem hstored hremoved]
    exact .same o
  -- a user with stored groups has a name: no record is without an id
  have hnamed : ∀ {name groups}, StoredGroups
      (fetch (localBackend codec shardKey now) engine cfgUsers) name groups → name ≠ [] := by
    rintro name groups ⟨doc, hdoc, -⟩ rfl
    rw [hnone] at hdoc
    cases hdoc
  cases o with
  | userCreate name groups =>
    -- refused when the name is taken, so no stored groups are overwritten
    show UsersStep _ _ (fetch _ (edbUserCreate (localBackend codec shardKey now) name groups
      engine).2 cfgUsers)
    unfold edbUserCreate
    split
    · exact .same _
    · next hname =>
      rw [not_or] at hname
      split
      · exact .same _
      · next hget =>
        rw [fetch_store (hreads _ List.mem_cons_self)]
        refine .create hname.1 (fun g hg => ?_) (hasGroups_userUpdateRecord hname.1 groups)
        obtain ⟨info, hinfo, -⟩ := storedGroups_iff.mp hg
        rw [Option.mem_def.mp hinfo] at hget
        exact hget rfl
  | userSetGroups name groups =>
    -- the one operation that may change the groups of a stored user
    show UsersStep _ _ (fetch _ (edbUserSetGroups (localBackend codec shardKey now) name groups
      engine).2 cfgUsers)
    unfold edbUserSetGroups
    split
    · next hget =>
      obtain ⟨info, hinfo⟩ := Option.isSome_iff_exists.mp hget
      have hold := storedGroups_iff.mpr ⟨info, hinfo, rfl⟩
      rw [fetch_store (hreads _ List.mem_cons_self)]
      exact .setGroups (hnamed hold) hold (hasGroups_userUpdateRecord (hnamed hold) groups)
    · exact .same _
  | userSetPassword name password salt hash =>
    -- the record is written anew with the groups that were read
    show UsersStep _ _ (fetch _ (edbUserSetPassword (localBackend codec shardKey now) name
      password salt hash engine).2 cfgUsers)
    unfold edbUserSetPassword
    split
    · exact .same _
    · cases hget : edbUserGet (localBackend codec shardKey now) engine name with
      | none => exact .same _
      | some info =>
        have hold := storedGroups_iff.mpr ⟨info, hget, rfl⟩
        have hkeeps : codec.Keeps (passwordRecord name info.groups salt hash) :=
          hreads _ (EntityOp.mem_written_userSetPassword hget password salt hash)
        dsimp only
        rw [fetch_store hkeeps]
        exact .setPassword (hnamed hold) hold
          (hasGroups_passwordRecord (hnamed hold) info.groups salt hash)
  | userDelete name =>
    show UsersStep _ _ (fetch _ (removeRecord (localBackend codec shardKey now) cfgUsers name
      engine).2 cfgUsers)
    rw [fetch_removeRecord]
    exact .delete name
  | groupCreate | groupDelete =>
    exact hsame (by simp [EntityOp.stored, cfgUsers, cfgGroups, cstr])
      (by simp [EntityOp.removed, cfgUsers, cfgGroups, cstr])
  | databaseCreate | databaseDelete =>
    exact hsame (by simp [EntityOp.stored, cfgUsers, cfgDatabases, cstr])
      (by simp [EntityOp.removed, cfgUsers, cfgDatabases, cfgPartitions, cfgKeyspaces, cstr])
  | partitionCreate | partitionDelete | partitionSetMasks | partitionEnsure =>
    exact hsame (by simp [EntityOp.stored, cfgUsers, cfgPartitions, cfgKeyspaces, cstr])
      (by simp [EntityOp.removed, cfgUsers, cfgPartitions, cfgKeyspaces, cstr])

/-- A user that was created has the set. -/
theorem storedGroups_edbUserCreate {shardKey : CString → CString → CString}
    {engine : CString → Shard} {name : CString} {groups : UInt64}
    (hkeeps : codec.Keeps (userUpdateRecord name groups))
    (h : (edbUserCreate (localBackend codec shardKey now) name groups engine).1 = true) :
    StoredGroups (fetch (localBackend codec shardKey now)
      (edbUserCreate (localBackend codec shardKey now) name groups engine).2 cfgUsers) name
      groups := by
  unfold edbUserCreate at h ⊢
  split at h
  · cases h
  · next hname =>
    rw [if_neg hname]
    split at h
    · cases h
    · next hget =>
      rw [not_or] at hname
      rw [if_neg hget, fetch_store hkeeps]
      exact storedGroups_update (hasGroups_userUpdateRecord hname.1 groups)

/-- The users that are stored stay, with their sets. -/
structure UsersKept (codec : Codec D) (shardKey : CString → CString → CString) (now : Int)
    (engine engine' : CString → Shard) : Prop where
  settled : Settled shardKey now engine'
  unnamed : fetch (localBackend codec shardKey now) engine' cfgUsers [] = none
  stored : ∀ name groups,
    StoredGroups (fetch (localBackend codec shardKey now) engine cfgUsers) name groups →
      StoredGroups (fetch (localBackend codec shardKey now) engine' cfgUsers) name groups

section

variable {shardKey : CString → CString → CString} {engine engine' engine'' : CString → Shard}

theorem UsersKept.trans (h : UsersKept codec shardKey now engine engine')
    (h' : UsersKept codec shardKey now engine' engine'') :
    UsersKept codec shardKey now engine engine'' :=
  ⟨h'.settled, h'.unnamed, fun name groups hs => h'.stored name groups (h.stored name groups hs)⟩

variable (hapart : KeysApart shardKey) (hsettled : Settled shardKey now engine)
variable (hnone : fetch (localBackend codec shardKey now) engine cfgUsers [] = none)
include hapart hsettled hnone

/-- An operation that changes no set keeps the users. -/
theorem usersKept_run (o : EntityOp) (hspares : ∀ name groups, Spares name groups o)
    (hreads : ∀ v ∈ o.written (localBackend codec shardKey now) engine, codec.Keeps v) :
    UsersKept codec shardKey now engine (o.run (localBackend codec shardKey now) engine).2 := by
  have hstep := usersStep_run hapart o hnone hreads
  exact ⟨settled_run o hsettled codec, hstep.unnamed hnone, fun name groups hs =>
    hstep.storedGroups hs (hspares name groups)⟩

/-- So does one that does not touch their records. -/
theorem usersKept_of_apart (o : EntityOp) (hstored : cfgUsers ∉ o.stored)
    (hremoved : cfgUsers ∉ o.removed) :
    UsersKept codec shardKey now engine (o.run (localBackend codec shardKey now) engine).2 := by
  have hsame : fetch (localBackend codec shardKey now)
      (o.run (localBackend codec shardKey now) engine).2 cfgUsers =
        fetch (localBackend codec shardKey now) engine cfgUsers :=
    fetch_run_eq hapart o cfgUsers_mem hstored hremoved
  refine ⟨settled_run o hsettled codec, ?_, ?_⟩
  · rw [hsame]
    exact hnone
  · rw [hsame]
    exact fun _ _ hs => hs

/-- **The first administrator**: other users stay, and the one that logs in is stored. -/
theorem setupAdmin_spec {name password salt : CString} {groups : UInt64}
    (hgroups : adminGroups (localBackend codec shardKey now)
      (edbGroupCreate (localBackend codec shardKey now) (cstr "SysAdmins") engine).2 = groups)
    (hcreate : codec.Keeps (userUpdateRecord name groups))
    (hpassword : codec.Keeps (passwordRecord name groups salt (hashPassword salt password))) :
    UsersKept codec shardKey now engine
        (setupAdmin (localBackend codec shardKey now) name password salt engine).2 ∧
      ∀ info ∈ (setupAdmin (localBackend codec shardKey now) name password salt engine).1,
        StoredGroups (fetch (localBackend codec shardKey now)
          (setupAdmin (localBackend codec shardKey now) name password salt engine).2 cfgUsers)
          info.name info.groups := by
  set B := localBackend codec shardKey now
  set engine₁ := (edbGroupCreate B (cstr "SysAdmins") engine).2
  set r₂ := edbUserCreate B name groups engine₁ with hr₂
  set r₃ := edbUserSetPassword B name password salt (hashPassword salt password) r₂.2
  have hsetup : setupAdmin B name password salt engine =
      if r₂.1 then (if r₃.1 then some ⟨name, groups⟩ else none, r₃.2) else (none, r₂.2) := by
    subst hgroups
    rfl
  have h₁ : UsersKept codec shardKey now engine engine₁ :=
    usersKept_of_apart hapart hsettled hnone (.groupCreate (cstr "SysAdmins"))
      (by simp [EntityOp.stored, cfgUsers, cfgGroups, cstr]) List.not_mem_nil
  have h₂ : UsersKept codec shardKey now engine₁ r₂.2 :=
    usersKept_run hapart h₁.settled h₁.unnamed (.userCreate name groups) (fun _ _ => trivial)
      fun v hv => List.mem_singleton.mp hv ▸ hcreate
  rw [hsetup]
  split
  · next hcreated =>
    have hstored : StoredGroups (fetch B r₂.2 cfgUsers) name groups :=
      storedGroups_edbUserCreate hcreate hcreated
    have h₃ : UsersKept codec shardKey now r₂.2 r₃.2 := by
      refine usersKept_run hapart h₂.settled h₂.unnamed
        (.userSetPassword name password salt (hashPassword salt password)) (fun _ _ => trivial) ?_
      -- the record has the set that was created
      intro v hv
      obtain ⟨info, hinfo, rfl⟩ := List.mem_map.mp hv
      obtain ⟨info', hinfo', rfl⟩ := storedGroups_iff.mp hstored
      rw [Option.mem_unique (Option.mem_toList.mp hinfo) hinfo']
      exact hpassword
    refine ⟨h₁.trans (h₂.trans h₃), fun info hinfo => ?_⟩
    dsimp only at hinfo ⊢
    split at hinfo
    · obtain rfl := Option.some.inj hinfo
      exact h₃.stored name groups hstored
    · cases hinfo
  · exact ⟨h₁.trans h₂, fun info hinfo => absurd hinfo (Option.not_mem_none info)⟩

end

/-! ## A node and its console -/

/-- A node with the tables in memory and the logins under way. -/
structure Console where
  engine : CString → Shard
  clock : Int
  gate : Gate := {}
  /-- users whose login has been checked, and whose session is not opened yet -/
  pending : List UserInfo := []

/-- One step of a handler, or time. -/
inductive ConsoleLabel where
  /-- an administrative operation -/
  | op (o : EntityOp)
  /-- the first administrator, with the salt of the password -/
  | setup (req : AuthRequest) (salt : CString)
  | login (req : AuthRequest)
  /-- the end of a setup or a login, with the token that is drawn -/
  | openSession (info : UserInfo) (token : CString)
  | logout (req : AuthRequest)
  /-- any other request -/
  | request (req : AuthRequest)
  | tick (seconds : Nat)

namespace Console

variable (codec : Codec D) (shardKey : CString → CString → CString)

/-- The configuration calls at the clock of the node. -/
def backend (s : Console) : Backend (CString → Shard) D := localBackend codec shardKey s.clock

/-- What a step makes of the node. -/
def next (s : Console) : ConsoleLabel → Console
  | .op o => { s with engine := (o.run (s.backend codec shardKey) s.engine).2 }
  | .setup req salt =>
    match setupArgs codec (s.backend codec shardKey) req s.engine with
    | none => s
    | some (name, password) =>
      let (info, engine) := setupAdmin (s.backend codec shardKey) name password salt s.engine
      { s with engine, pending := info.toList ++ s.pending }
  | .login req =>
    let (info, attempts) := handleAdminLogin codec (s.backend codec shardKey) s.clock req s.engine
      s.gate.attempts
    { s with gate := { s.gate with attempts }, pending := info.toList ++ s.pending }
  | .openSession info token =>
    { s with
      gate := { s.gate with sessions := sessionCreate s.clock info token s.gate.sessions }
      pending := s.pending.erase info }
  | .logout req =>
    match bearerToken req with
    | none => s
    | some token =>
      { s with gate := { s.gate with sessions := sessionDestroy token s.gate.sessions } }
  | .request req =>
    { s with
      gate := (authenticate codec (s.backend codec shardKey) s.clock req s.engine s.gate).2 }
  | .tick seconds => { s with clock := s.clock + seconds }

/-- A step; a session is opened for a user whose login was checked. -/
def step (s : Console) (l : ConsoleLabel) : Option Console :=
  match l with
  | .openSession info _ => if info ∈ s.pending then some (s.next codec shardKey l) else none
  | _ => some (s.next codec shardKey l)

/-- **Sessions track the users**: whoever is accepted with a token exists, and is granted the
stored groups. -/
def SessionsTrack (s : Console) : Prop :=
  ∀ req info, AcceptsSession codec s.clock req s.gate info →
    ∃ stored ∈ edbUserGet (s.backend codec shardKey) s.engine info.name,
      (authenticate codec (s.backend codec shardKey) s.clock req s.engine s.gate).1 =
        (stored.groups, true)

/-- Users with an open session keep their groups, and a session is opened with the groups
that are stored. -/
def Undisturbed (s : Console) : ConsoleLabel → Prop
  | .op o => ∀ x ∈ s.gate.sessions, x.Live s.clock → Spares x.info.name x.info.groups o
  | .openSession info _ =>
    (edbUserGet (s.backend codec shardKey) s.engine (snprintf 128 info.name)).map
      UserInfo.groups = some info.groups
  | _ => True

/-- The records of users that a step may store, with what else the operation stores. -/
def written (s : Console) : ConsoleLabel → List (Json D)
  | .op o => o.written (s.backend codec shardKey) s.engine
  | .setup req salt =>
    match setupArgs codec (s.backend codec shardKey) req s.engine with
    | none => []
    | some (name, password) =>
      let groups := adminGroups (s.backend codec shardKey)
        (edbGroupCreate (s.backend codec shardKey) (cstr "SysAdmins") s.engine).2
      [userUpdateRecord name groups,
        passwordRecord name groups salt (hashPassword salt password)]
  | _ => []

/-- They are read back. -/
def ReadsBack (s : Console) (l : ConsoleLabel) : Prop :=
  ∀ v ∈ s.written codec shardKey l, codec.Keeps v

instance (s : Console) (l : ConsoleLabel) : Decidable (s.Undisturbed codec shardKey l) :=
  match l with
  | .op o => inferInstanceAs (Decidable
      (∀ x ∈ s.gate.sessions, x.Live s.clock → Spares x.info.name x.info.groups o))
  | .openSession info _ => inferInstanceAs (Decidable (_ = some info.groups))
  | .setup _ _ | .login _ | .logout _ | .request _ | .tick _ => isTrue trivial

instance (s : Console) (l : ConsoleLabel) : Decidable (s.ReadsBack codec shardKey l) :=
  inferInstanceAs (Decidable (∀ v ∈ s.written codec shardKey l, codec.Keeps v))

variable {codec shardKey} {s s' : Console}

/-- What undisturbed steps keep. -/
structure Tracked (codec : Codec D) (shardKey : CString → CString → CString) (s : Console) :
    Prop where
  settled : Settled shardKey s.clock s.engine
  unnamed : fetch (s.backend codec shardKey) s.engine cfgUsers [] = none
  stored : ∀ x ∈ s.gate.sessions, x.Live s.clock →
    StoredGroups (fetch (s.backend codec shardKey) s.engine cfgUsers) x.info.name x.info.groups

/-- Sessions are tracked where the users of the open ones are stored. -/
theorem Tracked.sessionsTrack (h : s.Tracked codec shardKey) : s.SessionsTrack codec shardKey := by
  intro req info haccepts
  obtain ⟨token, -, -, hlookup⟩ := haccepts.session
  obtain ⟨x, hx, hlive, rfl⟩ := sessionLookup_eq_some hlookup
  obtain ⟨stored, hstored, hgroups⟩ := storedGroups_iff.mp (h.stored x hx hlive)
  exact ⟨stored, hstored, by rw [haccepts.authenticate_eq, hgroups]⟩

/-- Sessions stay or close, and users stay. -/
theorem Tracked.of_kept (h : s.Tracked codec shardKey) {engine : CString → Shard}
    (hkept : UsersKept codec shardKey s.clock s.engine engine) {gate : Gate}
    (hgate : ∀ x ∈ gate.sessions, x.used = true → x ∈ s.gate.sessions) (pending : List UserInfo) :
    Tracked codec shardKey { s with engine, gate, pending } :=
  ⟨hkept.settled, hkept.unnamed, fun x hx hlive =>
    hkept.stored _ _ (h.stored x (hgate x hx hlive.1) hlive)⟩

/-- Nothing happened to the records. -/
theorem Tracked.usersKept (h : s.Tracked codec shardKey) :
    UsersKept codec shardKey s.clock s.engine s.engine :=
  ⟨h.settled, h.unnamed, fun _ _ hs => hs⟩

/-- **One undisturbed step** keeps the sessions tracked. -/
theorem Tracked.next (h : s.Tracked codec shardKey) (hapart : KeysApart shardKey)
    {l : ConsoleLabel} (hreads : s.ReadsBack codec shardKey l)
    (hl : s.Undisturbed codec shardKey l) : (s.next codec shardKey l).Tracked codec shardKey := by
  cases l with
  | op o =>
    have hstep := usersStep_run hapart o h.unnamed hreads
    exact ⟨settled_run o h.settled codec, hstep.unnamed h.unnamed, fun x hx hlive =>
      hstep.storedGroups (h.stored x hx hlive) (hl x hx hlive)⟩
  | setup req salt =>
    unfold Console.next
    dsimp only
    split
    · exact h
    · next name password hargs =>
      unfold ReadsBack written at hreads
      simp only [hargs, List.mem_cons, List.not_mem_nil, or_false, forall_eq_or_imp,
        forall_eq] at hreads
      obtain ⟨hcreate, hpassword⟩ := hreads
      have hspec := setupAdmin_spec hapart h.settled h.unnamed rfl hcreate hpassword
      exact h.of_kept hspec.1 (fun _ hx _ => hx) _
  | login req =>
    refine h.of_kept h.usersKept ?_ _
    exact fun _ hx _ => hx
  | openSession info token =>
    refine ⟨h.settled, h.unnamed, fun x hx hlive => ?_⟩
    rcases mem_sessionCreate hx with hnew | hold
    · rw [hnew]
      obtain ⟨stored, hstored, hgroups⟩ := Option.map_eq_some_iff.mp hl
      exact storedGroups_iff.mpr ⟨stored, hstored, hgroups⟩
    · exact h.stored x hold hlive
  | logout req =>
    unfold Console.next
    dsimp only
    split
    · exact h
    · exact h.of_kept h.usersKept (fun _ hx hused => mem_sessionDestroy hx hused) _
  | request req => exact h.of_kept h.usersKept (fun _ hx hused => mem_authenticate hx hused) _
  | tick seconds =>
    -- a session that is open later is open now
    have hle : s.clock ≤ s.clock + seconds := by omega
    have hsame : fetch (Console.backend codec shardKey { s with clock := s.clock + seconds })
        s.engine cfgUsers = fetch (s.backend codec shardKey) s.engine cfgUsers :=
      funext (fetch_later h.settled hle cfgUsers_mem)
    refine ⟨h.settled.mono hle, ?_, fun x hx hlive => ?_⟩
    · exact (congrFun hsame []).trans h.unnamed
    · have hearlier : x.Live s.clock := ⟨hlive.1, lt_of_le_of_lt hle hlive.2⟩
      have hstored := h.stored x hx hearlier
      rwa [← hsame] at hstored

theorem Tracked.step (h : s.Tracked codec shardKey) (hapart : KeysApart shardKey)
    {l : ConsoleLabel} (hreads : s.ReadsBack codec shardKey l)
    (hl : s.Undisturbed codec shardKey l) (hstep : s.step codec shardKey l = some s') :
    s'.Tracked codec shardKey := by
  have hnext : s' = s.next codec shardKey l := by
    unfold Console.step at hstep
    split at hstep
    · split at hstep
      · exact (Option.some.inj hstep).symm
      · cases hstep
    · exact (Option.some.inj hstep).symm
  rw [hnext]
  exact h.next hapart hreads hl

/-- A new node. -/
def fresh (clock : Int) : Console where
  engine _ := ∅
  clock

theorem tracked_fresh (clock : Int) : (fresh clock).Tracked codec shardKey := by
  refine ⟨fun ks _ id r hr => ?_, ?_, fun x hx hlive => ?_⟩
  · rw [fresh, AList.lookup_empty] at hr
    cases hr
  · show fetch (localBackend codec shardKey clock) (fun _ => ∅) cfgUsers [] = none
    rw [fetch_eq, AList.lookup_empty]
    rfl
  · rw [List.eq_of_mem_replicate hx] at hlive
    exact absurd hlive.1 Bool.false_ne_true

/-- **Runs of undisturbed steps**: in every state sessions track the users. -/
theorem sessionsTrack_run (hapart : KeysApart shardKey) (clock : Int) {ls : List ConsoleLabel}
    (hreads : Runs.Along (step codec shardKey) (ReadsBack codec shardKey) (fresh clock) ls)
    (hls : Runs.Along (step codec shardKey) (Undisturbed codec shardKey) (fresh clock) ls) :
    Runs.Throughout (step codec shardKey) (SessionsTrack codec shardKey) (fresh clock) ls := by
  have hboth := (Runs.along_and _ _).mpr ⟨hreads, hls⟩
  exact Runs.throughout_mono (fun _ h => h.sessionsTrack)
    (Runs.throughout_of_along (fun _ _ _ h hl hstep => h.step hapart hl.1 hl.2 hstep)
      (tracked_fresh clock) hboth)

/-! ## The first administrator -/

/-- A salt that may be drawn. -/
def exampleSalt : CString := List.replicate 32 97

def adminHash : CString := hashPassword exampleSalt (cstr "secret")

/-- The body of the setup. -/
def setupBody : Json Int :=
  .obj [(cstr "username", .str (cstr "admin")), (cstr "password", .str (cstr "secret"))]

/-- The values that are written and read below. -/
def consoleTable : List (Json Int) :=
  [setupBody, groupRecord (cstr "SysAdmins") 1, userUpdateRecord (cstr "admin") 1,
    userUpdateRecord (cstr "ann") 2, userUpdateRecord (cstr "ann") 3,
    passwordRecord (cstr "admin") 1 exampleSalt adminHash]

def consoleCodec : Codec Int := tableCodec consoleTable (by decide +kernel)

def setupRequest : AuthRequest where
  method := cstr "POST"
  path := cstr "/console/setup"
  query := []
  headers := []
  body := setupBody.text

def exampleToken : CString := List.replicate 64 97

/-- A request with the token. -/
def tokenRequest : AuthRequest where
  method := cstr "GET"
  path := cstr "/data/d/p/k"
  query := []
  headers := [(cstr "Authorization", cstr "Bearer " ++ exampleToken)]
  body := []

/-- The first administrator is deleted with an open session. -/
def deletedUser : List ConsoleLabel :=
  [.setup setupRequest exampleSalt, .openSession ⟨cstr "admin", 1⟩ exampleToken,
    .op (.userDelete (cstr "admin"))]

/-- **The token of a deleted user** is accepted. -/
theorem token_of_deleted_user :
    ¬ Runs.Throughout (step consoleCodec fun _ ks => ks)
      (SessionsTrack consoleCodec fun _ ks => ks) (fresh 100) deletedUser := by
  intro h
  obtain ⟨s, hrun, hthrottled, hlookup, hget⟩ :
      ∃ s ∈ Runs.run (step consoleCodec fun _ ks => ks) (fresh 100) deletedUser,
        edbAuthThrottled s.clock tokenRequest.peerIp s.gate.attempts = false ∧
          (sessionLookup s.clock exampleToken s.gate.sessions).1 = some ⟨cstr "admin", 1⟩ ∧
          edbUserGet (s.backend consoleCodec fun _ ks => ks) s.engine (cstr "admin") = none := by
    decide +kernel
  have haccepts : AcceptsSession consoleCodec s.clock tokenRequest s.gate ⟨cstr "admin", 1⟩ :=
    ⟨rfl, hthrottled, exampleToken, by decide +kernel, by decide, hlookup⟩
  obtain ⟨stored, hstored, -⟩ := Runs.of_throughout h hrun _ _ haccepts
  rw [Option.mem_def, hget] at hstored
  cases hstored

theorem consoleTable_inj :
    ∀ v ∈ consoleTable, ∀ w ∈ consoleTable, v.text = w.text → v = w := by
  have hnodup : (consoleTable.map fun v => v.text.take 60).Nodup := by decide +kernel
  exact fun v hv w hw h =>
    List.inj_on_of_nodup_map hnodup hv hw (congrArg (List.take 60) h)

theorem consoleCodec_keeps {v : Json Int} (hv : v ∈ consoleTable) (hne : v.text ≠ []) :
    consoleCodec.Keeps v where
  print_ne := hne
  parse_print := tableCodec_parse_text _ consoleTable_inj hv

/-- The groups of another user change, and the administrator goes after the session. -/
def spared : List ConsoleLabel :=
  [.setup setupRequest exampleSalt, .openSession ⟨cstr "admin", 1⟩ exampleToken,
    .request tokenRequest, .op (.userCreate (cstr "ann") 2), .op (.userSetGroups (cstr "ann") 3),
    .tick 43200, .op (.userDelete (cstr "admin"))]

/-- The node after the setup. -/
def afterSetup : Console :=
  next consoleCodec (fun _ ks => ks) (fresh 100) (.setup setupRequest exampleSalt)

theorem keeps_setup :
    consoleCodec.Keeps (userUpdateRecord (cstr "admin") 1) ∧
      consoleCodec.Keeps (passwordRecord (cstr "admin") 1 exampleSalt
        (hashPassword exampleSalt (cstr "secret"))) :=
  ⟨consoleCodec_keeps (by simp [consoleTable]) (List.cons_ne_nil _ _),
    consoleCodec_keeps (by simp [consoleTable, adminHash]) (List.cons_ne_nil _ _)⟩

theorem readsBack_setup :
    (fresh 100).ReadsBack consoleCodec (fun _ ks => ks) (.setup setupRequest exampleSalt) := by
  intro v hv
  have hargs : setupArgs consoleCodec ((fresh 100).backend consoleCodec fun _ ks => ks)
      setupRequest (fresh 100).engine = some (cstr "admin", cstr "secret") := by
    decide +kernel
  have hgroups : adminGroups ((fresh 100).backend consoleCodec fun _ ks => ks)
      (edbGroupCreate ((fresh 100).backend consoleCodec fun _ ks => ks) (cstr "SysAdmins")
        (fresh 100).engine).2 = 1 := by
    decide +kernel
  simp only [written, hargs, hgroups, List.mem_cons, List.not_mem_nil, or_false] at hv
  rcases hv with rfl | rfl
  · exact keeps_setup.1
  · exact keeps_setup.2

theorem undisturbed_afterSetup :
    afterSetup.Undisturbed consoleCodec (fun _ ks => ks)
      (.openSession ⟨cstr "admin", 1⟩ exampleToken) := by
  have htracked : (fresh 100).Tracked consoleCodec (fun _ ks => ks) := tracked_fresh 100
  obtain ⟨hcreate, hpassword⟩ := keeps_setup
  have hspec := setupAdmin_spec (by decide +kernel) htracked.settled htracked.unnamed
    (by decide +kernel) hcreate hpassword
  have hstored := hspec.2 ⟨cstr "admin", 1⟩ (by decide +kernel)
  obtain ⟨info, hinfo, hgroups⟩ := storedGroups_iff.mp hstored
  exact Option.map_eq_some_iff.mpr ⟨info, hinfo, hgroups⟩

/-- The session is tracked all along. -/
theorem spared_sessionsTrack :
    Runs.Throughout (step consoleCodec fun _ ks => ks)
      (SessionsTrack consoleCodec fun _ ks => ks) (fresh 100) spared := by
  have hopen : afterSetup.step consoleCodec (fun _ ks => ks)
      (.openSession ⟨cstr "admin", 1⟩ exampleToken) = some (next consoleCodec (fun _ ks => ks)
        afterSetup (.openSession ⟨cstr "admin", 1⟩ exampleToken)) := by
    rw [step, if_pos (by decide +kernel)]
  exact sessionsTrack_run (by decide +kernel) 100
    ((Runs.along_cons _ rfl).mpr ⟨readsBack_setup, (Runs.along_cons _ hopen).mpr ⟨nofun,
      by decide +kernel⟩⟩)
    ((Runs.along_cons _ rfl).mpr ⟨trivial, (Runs.along_cons _ hopen).mpr ⟨undisturbed_afterSetup,
      by decide +kernel⟩⟩)

end Console

end EpsilonDB
