import EpsilonDB.Api.Groups

/-!
# Databases, users and partitions (`engine/epsilon_config_entities.c`)

The administrative operations on the configuration store. A user's record has the bits of
its groups as a number, and so has every mask of a partition: neither says which groups
they stood for.

- `edbUserCreate`, `edbUserSetGroups`, `edbUserSetPassword`, `edbUserDelete`: the records of
  `config_users`.
- `edbPartitionSetMasks`, `edbPartitionDelete`, `edbDatabaseDelete`: what drops or replaces
  masks.
- `EntityOp`: one operation, and `EntityOp.run`.
- `Touches`: an operation is a sequence of stores and removals in some keyspaces, which
  `EntityOp.stored` and `EntityOp.removed` name.

The salt and the hash of a password are arguments: `edb_random_hex` and `hash_password`
made them.
-/

namespace EpsilonDB

def cfgDatabases : CString := cstr "config_databases"
def cfgUsers : CString := cstr "config_users"

theorem cfgUsers_mem : cfgUsers ∈ systemKeyspaces := by simp [systemKeyspaces, cfgUsers]

/-- `edb_database_info`. -/
structure DatabaseInfo where
  name : CString
  replicationFactor : Int
deriving DecidableEq

/-- `edb_user_info`. -/
structure UserInfo where
  name : CString
  groups : UInt64
deriving DecidableEq

variable {σ D : Type} [Doubles D]

/-! ## Records -/

/-- The record of `edb_database_create`. -/
def databaseRecord (name : CString) (replicationFactor : Int) : Json D :=
  .obj [(cstr "type", .str (cstr "database")), (cstr "name", .str name),
    (cstr "replication_factor", .num (Doubles.ofInt64 replicationFactor))]

/-- The record of `edb_user_create` and `user_update`. -/
def userUpdateRecord (name : CString) (groups : UInt64) : Json D :=
  .obj [(cstr "type", .str (cstr "user")), (cstr "name", .str name),
    (cstr "groups", u64Json groups)]

/-- The record of `edb_user_set_password`. -/
def passwordRecord (name : CString) (groups : UInt64) (salt hash : CString) : Json D :=
  .obj [(cstr "type", .str (cstr "user")), (cstr "name", .str name),
    (cstr "groups", u64Json groups), (cstr "salt", .str salt),
    (cstr "password_hash", .str hash)]

/-- A record as `edb_user_get` reads it. -/
def userInfo (obj : Json D) : UserInfo where
  name := copyName 128 obj (cstr "name")
  groups := jsonU64 obj (cstr "groups")

theorem jsonU64_of_get {obj : Json D} {field : CString} {v : UInt64}
    (h : obj.get field = some (u64Json v)) : jsonU64 obj field = v := by
  unfold jsonU64
  rw [h]
  show (strtoull (cstr (toString v.toNat))).getD 0 = v
  rw [strtoull_toString]
  rfl

/-- A user's set is read back from both of its records. -/
theorem groups_userUpdateRecord (name : CString) (groups : UInt64) :
    (userInfo (userUpdateRecord name groups : Json D)).groups = groups := by
  show jsonU64 (userUpdateRecord name groups : Json D) (cstr "groups") = groups
  exact jsonU64_of_get rfl

theorem groups_passwordRecord (name : CString) (groups : UInt64) (salt hash : CString) :
    (userInfo (passwordRecord name groups salt hash : Json D)).groups = groups := by
  show jsonU64 (passwordRecord name groups salt hash : Json D) (cstr "groups") = groups
  exact jsonU64_of_get rfl

variable (B : Backend σ D)

/-! ## Users -/

/-- `edb_user_get`. -/
def edbUserGet (s : σ) (name : CString) : Option UserInfo :=
  match fetch B s cfgUsers name with
  | none => none
  | some obj => if (userInfo obj).name = [] then none else some (userInfo obj)

/-- `edb_user_create`. -/
def edbUserCreate (name : CString) (groups : UInt64) (s : σ) : Bool × σ :=
  if name = [] ∨ 128 ≤ name.length then (false, s)
  else if (edbUserGet B s name).isSome then (false, s)
  else store B cfgUsers name (userUpdateRecord name groups) s

/-- `edb_user_delete`. -/
def edbUserDelete (name : CString) (s : σ) : Bool × σ := removeRecord B cfgUsers name s

/-- `edb_user_set_groups`: the new record has no password. -/
def edbUserSetGroups (name : CString) (groups : UInt64) (s : σ) : Bool × σ :=
  if (edbUserGet B s name).isSome then store B cfgUsers name (userUpdateRecord name groups) s
  else (false, s)

/-- `edb_user_set_password`. -/
def edbUserSetPassword (name password salt hash : CString) (s : σ) : Bool × σ :=
  if password = [] then (false, s)
  else
    match edbUserGet B s name with
    | none => (false, s)
    | some info => store B cfgUsers name (passwordRecord name info.groups salt hash) s

/-! ## Partitions and databases -/

/-- One round of the loop of `remove_keyspaces_for`. -/
def removeKeyspace (database : CString) (partition : Option CString) (acc : Bool × σ)
    (item : Json D) : Bool × σ :=
  match item.getStr (cstr "database"), item.getStr (cstr "partition") with
  | some db, some part =>
    if db = database ∧ partition.all (· = part) then
      match item.getStr (cstr "name") with
      | none => (false, acc.2)
      | some name =>
        let id := database ++ cstr "/" ++ part ++ cstr "/" ++ name
        if 640 ≤ id.length then (false, acc.2)
        else
          let (removed, s) := removeRecord B cfgKeyspaces id acc.2
          (acc.1 && removed, s)
    else acc
  | _, _ => acc

/-- `remove_keyspaces_for`: every record of the database, and of the partition when one is
given. -/
def removeKeyspacesFor (database : CString) (partition : Option CString) (s : σ) : Bool × σ :=
  (B.all s systemDb cfgKeyspaces).foldl (removeKeyspace B database partition) (true, s)

/-- A record as `edb_partition_list` reads it. -/
def partitionInfo (obj : Json D) : PartitionInfo where
  database := copyName 128 obj (cstr "database")
  name := copyName 256 obj (cstr "name")
  createMask := jsonU64 obj (cstr "create_mask")
  updateMask := jsonU64 obj (cstr "update_mask")
  readMask := jsonU64 obj (cstr "read_mask")
  deleteMask := jsonU64 obj (cstr "delete_mask")

/-- The masks of permissions in the order of the records. -/
def maskOf (createMask updateMask readMask deleteMask : UInt64) : Permission → UInt64
  | .create => createMask
  | .update => updateMask
  | .read => readMask
  | .delete => deleteMask

/-- The masks of a partition are read back from its record. -/
theorem mask_partitionRecord (database name : CString)
    (createMask updateMask readMask deleteMask : UInt64) :
    (partitionInfo (partitionRecord database name createMask updateMask readMask deleteMask :
      Json D)).mask = maskOf createMask updateMask readMask deleteMask := by
  have hmask : ∀ (field : CString) (v : UInt64),
      (partitionRecord database name createMask updateMask readMask deleteMask : Json D).get
        field = some (u64Json v) → jsonU64 _ field = v := fun _ _ => jsonU64_of_get
  funext perm
  cases perm
  · exact hmask (cstr "create_mask") createMask rfl
  · exact hmask (cstr "update_mask") updateMask rfl
  · exact hmask (cstr "read_mask") readMask rfl
  · exact hmask (cstr "delete_mask") deleteMask rfl

theorem name_partitionRecord {name : CString} (hname : name.length < 256) (database : CString)
    (createMask updateMask readMask deleteMask : UInt64) :
    (partitionInfo (partitionRecord database name createMask updateMask readMask deleteMask :
      Json D)).name = name :=
  snprintf_of_lt hname

/-- `edb_partition_list`. -/
def edbPartitionList (s : σ) (database : CString) : List PartitionInfo :=
  ((B.all s systemDb cfgPartitions).map partitionInfo).filter fun info =>
    info.database = database

/-- `edb_partition_delete`. -/
def edbPartitionDelete (database name : CString) (s : σ) : Bool × σ :=
  let (ok, s) := removeKeyspacesFor B database (some name) s
  if ok then removeRecord B cfgPartitions (partitionId database name) s else (false, s)

/-- `edb_partition_set_masks`. -/
def edbPartitionSetMasks (database name : CString) (createMask updateMask readMask
    deleteMask : UInt64) (s : σ) : Bool × σ :=
  if (edbPartitionGet B s database name).isSome then
    store B cfgPartitions (partitionId database name)
      (partitionRecord database name createMask updateMask readMask deleteMask) s
  else (false, s)

/-- `edb_database_get`. -/
def edbDatabaseGet (s : σ) (name : CString) : Option DatabaseInfo :=
  match fetch B s cfgDatabases name with
  | none => none
  | some obj =>
    let info : DatabaseInfo :=
      { name := copyName 128 obj (cstr "name")
        replicationFactor :=
          match obj.get (cstr "replication_factor") with
          | some (.num d) => Doubles.toInt64 d
          | _ => 1 }
    if info.name = [] then none else some info

/-- `edb_database_create`. -/
def edbDatabaseCreate (name : CString) (replicationFactor : Int) (s : σ) : Bool × σ :=
  if name = [] ∨ 128 ≤ name.length ∨ replicationFactor < 1 then (false, s)
  else if (edbDatabaseGet B s name).isSome then (false, s)
  else store B cfgDatabases name (databaseRecord name replicationFactor) s

/-- `edb_database_delete`: the partitions and the keyspaces go first. -/
def edbDatabaseDelete (name : CString) (s : σ) : Bool × σ :=
  let s := (edbPartitionList B s name).foldl
    (fun s info => (edbPartitionDelete B name info.name s).2) s
  let (ok, s) := removeKeyspacesFor B name none s
  if ok then removeRecord B cfgDatabases name s else (false, s)

/-- Records of the keyspaces `S` are stored and records of `R` removed, one after the
other. -/
inductive Touches (S R : List CString) (s : σ) : σ → Prop where
  | refl : Touches S R s s
  | store {s' : σ} {keyspace : CString} (id : CString) (obj : Json D)
      (h : Touches S R s s') (hmem : keyspace ∈ S) :
      Touches S R s (store B keyspace id obj s').2
  | remove {s' : σ} {keyspace : CString} (id : CString) (h : Touches S R s s')
      (hmem : keyspace ∈ R) : Touches S R s (removeRecord B keyspace id s').2

variable {B} {S R : List CString} {s s' s'' : σ}

omit [Doubles D] in
theorem Touches.trans (h : Touches B S R s s') (h' : Touches B S R s' s'') :
    Touches B S R s s'' := by
  induction h' with
  | refl => exact h
  | store id obj _ hmem ih => exact .store id obj ih hmem
  | remove id _ hmem ih => exact .remove id ih hmem

omit [Doubles D] in
theorem touches_removeKeyspacesFor (hR : cfgKeyspaces ∈ R) (database : CString)
    (partition : Option CString) (s : σ) :
    Touches B S R s (removeKeyspacesFor B database partition s).2 := by
  suffices hfold : ∀ (items : List (Json D)) (acc : Bool × σ), Touches B S R s acc.2 →
      Touches B S R s (items.foldl (removeKeyspace B database partition) acc).2 from
    hfold _ _ .refl
  intro items
  induction items with
  | nil => exact fun _ h => h
  | cons item items ih =>
    intro acc h
    refine ih _ ?_
    unfold removeKeyspace
    split
    · split
      · split
        · exact h
        · dsimp only
          split
          · exact h
          · exact .remove _ h hR
      · exact h
    · exact h

omit [Doubles D] in
theorem touches_edbPartitionDelete (hR : cfgKeyspaces ∈ R) (hR' : cfgPartitions ∈ R)
    (database name : CString) (s : σ) :
    Touches B S R s (edbPartitionDelete B database name s).2 := by
  have h := touches_removeKeyspacesFor (B := B) (S := S) hR database (some name) s
  unfold edbPartitionDelete
  dsimp only
  split
  · exact .remove _ h hR'
  · exact h

/-- A database goes with its partitions and keyspaces, record by record. -/
theorem touches_edbDatabaseDelete (hR : cfgKeyspaces ∈ R) (hR' : cfgPartitions ∈ R)
    (hR'' : cfgDatabases ∈ R) (name : CString) (s : σ) :
    Touches B S R s (edbDatabaseDelete B name s).2 := by
  have hparts : ∀ (infos : List PartitionInfo) (s' : σ), Touches B S R s s' →
      Touches B S R s
        (infos.foldl (fun s info => (edbPartitionDelete B name info.name s).2) s') := by
    intro infos
    induction infos with
    | nil => exact fun _ h => h
    | cons info infos ih =>
      intro s' h
      exact ih _ (h.trans (touches_edbPartitionDelete hR hR' name info.name s'))
  have h := hparts (edbPartitionList B s name) s .refl
  have h' := h.trans (touches_removeKeyspacesFor hR name none _)
  unfold edbDatabaseDelete
  dsimp only
  split
  · exact .remove _ h' hR''
  · exact h'

theorem touches_edbPartitionCreate (hS : cfgPartitions ∈ S) (database name : CString)
    (createMask updateMask readMask deleteMask : UInt64) (s : σ) :
    Touches B S R s
      (edbPartitionCreate B database name createMask updateMask readMask deleteMask s).2 := by
  unfold edbPartitionCreate
  split
  · exact .refl
  · split
    · exact .refl
    · exact .store _ _ .refl hS

omit [Doubles D] in
theorem touches_ensureKeyspace (hS : cfgKeyspaces ∈ S) (database partition keyspace : CString)
    (s : σ) : Touches B S R s (ensureKeyspace B database partition keyspace s) := by
  unfold ensureKeyspace
  dsimp only
  split
  · exact .refl
  · exact .store _ _ .refl hS

theorem touches_edbPartitionEnsure (hS : cfgPartitions ∈ S) (hS' : cfgKeyspaces ∈ S)
    (database partition keyspace : CString) (s : σ) :
    Touches B S R s (edbPartitionEnsure B database partition keyspace s) := by
  have hcreate := touches_edbPartitionCreate (B := B) (R := R) hS database partition maskAllowAll
    maskAllowAll maskAllowAll maskAllowAll s
  unfold edbPartitionEnsure
  split
  · exact .refl
  · split
    · exact touches_ensureKeyspace hS' ..
    · dsimp only
      split
      · exact hcreate.trans (touches_ensureKeyspace hS' ..)
      · exact hcreate

variable (B)

/-! ## One operation -/

/-- An administrative operation. -/
inductive EntityOp where
  | groupCreate (name : CString)
  | groupDelete (name : CString)
  | userCreate (name : CString) (groups : UInt64)
  | userDelete (name : CString)
  | userSetGroups (name : CString) (groups : UInt64)
  | userSetPassword (name password salt hash : CString)
  | databaseCreate (name : CString) (replicationFactor : Int)
  | databaseDelete (name : CString)
  | partitionCreate (database name : CString)
      (createMask updateMask readMask deleteMask : UInt64)
  | partitionDelete (database name : CString)
  | partitionSetMasks (database name : CString)
      (createMask updateMask readMask deleteMask : UInt64)
  /-- the registration of a write -/
  | partitionEnsure (database partition keyspace : CString)
deriving DecidableEq

/-- The operation on the store, and its answer. -/
def EntityOp.run : EntityOp → σ → Bool × σ
  | .groupCreate name => edbGroupCreate B name
  | .groupDelete name => edbGroupDelete B name
  | .userCreate name groups => edbUserCreate B name groups
  | .userDelete name => edbUserDelete B name
  | .userSetGroups name groups => edbUserSetGroups B name groups
  | .userSetPassword name password salt hash => edbUserSetPassword B name password salt hash
  | .databaseCreate name replicationFactor => edbDatabaseCreate B name replicationFactor
  | .databaseDelete name => edbDatabaseDelete B name
  | .partitionCreate database name createMask updateMask readMask deleteMask =>
    edbPartitionCreate B database name createMask updateMask readMask deleteMask
  | .partitionDelete database name => edbPartitionDelete B database name
  | .partitionSetMasks database name createMask updateMask readMask deleteMask =>
    edbPartitionSetMasks B database name createMask updateMask readMask deleteMask
  | .partitionEnsure database partition keyspace =>
    fun s => (true, edbPartitionEnsure B database partition keyspace s)

/-- The keyspaces in which an operation stores records. -/
def EntityOp.stored : EntityOp → List CString
  | .groupCreate _ => [cfgGroups]
  | .userCreate _ _ | .userSetGroups _ _ | .userSetPassword _ _ _ _ => [cfgUsers]
  | .databaseCreate _ _ => [cfgDatabases]
  | .partitionCreate _ _ _ _ _ _ | .partitionSetMasks _ _ _ _ _ _ => [cfgPartitions]
  | .partitionEnsure _ _ _ => [cfgPartitions, cfgKeyspaces]
  | .groupDelete _ | .userDelete _ | .databaseDelete _ | .partitionDelete _ _ => []

/-- The keyspaces in which it removes records. -/
def EntityOp.removed : EntityOp → List CString
  | .groupDelete _ => [cfgGroups]
  | .userDelete _ => [cfgUsers]
  | .databaseDelete _ => [cfgKeyspaces, cfgPartitions, cfgDatabases]
  | .partitionDelete _ _ => [cfgKeyspaces, cfgPartitions]
  | _ => []

/-- **An operation is stores and removals in its keyspaces.** -/
theorem touches_run (op : EntityOp) (s : σ) :
    Touches B op.stored op.removed s (op.run B s).2 := by
  cases op with
  | groupCreate name =>
    -- refused, or one record stored
    show Touches B _ _ s (edbGroupCreate B name s).2
    unfold edbGroupCreate
    split
    · exact .refl
    · exact .store _ _ .refl List.mem_cons_self
  | groupDelete name => exact .remove _ .refl List.mem_cons_self
  | userCreate name groups =>
    show Touches B _ _ s (edbUserCreate B name groups s).2
    unfold edbUserCreate
    split
    · exact .refl
    · split
      · exact .refl
      · exact .store _ _ .refl List.mem_cons_self
  | userDelete name => exact .remove _ .refl List.mem_cons_self
  | userSetGroups name groups =>
    show Touches B _ _ s (edbUserSetGroups B name groups s).2
    unfold edbUserSetGroups
    split
    · exact .store _ _ .refl List.mem_cons_self
    · exact .refl
  | userSetPassword name password salt hash =>
    show Touches B _ _ s (edbUserSetPassword B name password salt hash s).2
    unfold edbUserSetPassword
    split
    · exact .refl
    · split
      · exact .refl
      · exact .store _ _ .refl List.mem_cons_self
  | databaseCreate name replicationFactor =>
    show Touches B _ _ s (edbDatabaseCreate B name replicationFactor s).2
    unfold edbDatabaseCreate
    split
    · exact .refl
    · split
      · exact .refl
      · exact .store _ _ .refl List.mem_cons_self
  | databaseDelete name =>
    -- a database takes its partitions and their keyspaces with it
    exact touches_edbDatabaseDelete (by simp [EntityOp.removed]) (by simp [EntityOp.removed])
      (by simp [EntityOp.removed]) name s
  | partitionCreate database name createMask updateMask readMask deleteMask =>
    exact touches_edbPartitionCreate List.mem_cons_self ..
  | partitionDelete database name =>
    exact touches_edbPartitionDelete (by simp [EntityOp.removed]) (by simp [EntityOp.removed]) ..
  | partitionSetMasks database name createMask updateMask readMask deleteMask =>
    show Touches B _ _ s (edbPartitionSetMasks B database name createMask updateMask readMask
      deleteMask s).2
    unfold edbPartitionSetMasks
    split
    · exact .store _ _ .refl List.mem_cons_self
    · exact .refl
  | partitionEnsure database partition keyspace =>
    exact touches_edbPartitionEnsure (by simp [EntityOp.stored]) (by simp [EntityOp.stored]) ..

end EpsilonDB
