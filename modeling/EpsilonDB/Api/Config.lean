import EpsilonDB.Api.Backend
import EpsilonDB.Httpd.Http
import Mathlib.Data.Set.BooleanAlgebra
import Mathlib.Order.CompletePartialOrder

/-!
# The configuration store (`engine/epsilon_config.c`, `epsilon_config_partitions.c`)

Permission masks and the registry of used keyspaces are JSON records in the shards of the
reserved partition `__system__`, read and written like any other record.

- `edbPartitionGet`: the masks registered for a partition of a database.
- `edbCheckPerm`: a mask of 0 allows everybody.
- `edbKeyspaceList`: the registered database, partition and keyspace triples.
- `edbPartitionEnsure`: the registration a successful write makes.
- `configKeys`: the keys of the configuration shards; `registryKeys` those of the two that
  the data plane reads and writes on its own account.
- `agreeOff_edbPartitionEnsure`: registration in two runs.
-/

namespace EpsilonDB

/-! ## Records -/

def cfgPartitions : CString := cstr "config_partitions"
def cfgKeyspaces : CString := cstr "config_keyspaces"

theorem cfgPartitions_mem : cfgPartitions ∈ systemKeyspaces := by
  simp [systemKeyspaces, cfgPartitions]

theorem cfgKeyspaces_mem : cfgKeyspaces ∈ systemKeyspaces := by
  simp [systemKeyspaces, cfgKeyspaces]

/-- `strtoull` in base 10 of a whole text, where it neither overflows nor stops early. -/
def strtoull (s : CString) : Option UInt64 :=
  if s = [] then some 0
  else
    let (negative, digits) := match s.dropWhile isSpace with
      | 45 :: t => (true, t)
      | 43 :: t => (false, t)
      | t => (false, t)
    if digits = [] || digits.any (fun c => !isDigit c) || decide (2 ^ 64 ≤ decimal digits) then
      none
    else if negative then some (0 - UInt64.ofNat (decimal digits))
    else some (UInt64.ofNat (decimal digits))

variable {σ D : Type} [Doubles D]

/-- `json_u64`. -/
def jsonU64 (obj : Json D) (field : CString) : UInt64 :=
  match obj.get field with
  | some (.str s) => (strtoull s).getD 0
  | some (.num d) => (Doubles.toUInt64 d).getD 0
  | _ => 0

/-- `set_json_u64`: the value of the field. -/
def u64Json (v : UInt64) : Json D := .str (cstr (toString v.toNat))

/-- `copy_name`. -/
def copyName (cap : Nat) (obj : Json D) (field : CString) : CString :=
  snprintf cap ((obj.getStr field).getD [])

/-! ## Permissions -/

/-- `edb_permission`. -/
inductive Permission where
  | create
  | update
  | read
  | delete
deriving DecidableEq

/-- `edb_partition_info`. -/
structure PartitionInfo where
  database : CString
  name : CString
  createMask : UInt64
  updateMask : UInt64
  readMask : UInt64
  deleteMask : UInt64

/-- The mask of a permission. -/
def PartitionInfo.mask (info : PartitionInfo) : Permission → UInt64
  | .create => info.createMask
  | .update => info.updateMask
  | .read => info.readMask
  | .delete => info.deleteMask

/-- `EDB_MASK_ALLOW_ALL`. -/
def maskAllowAll : UInt64 := 0

/-- `edb_check_perm`. -/
def edbCheckPerm (mask userGroups : UInt64) : Bool :=
  mask == maskAllowAll || (mask &&& userGroups) != 0

variable (B : Backend σ D)

/-- `fetch`. -/
def fetch (s : σ) (keyspace id : CString) : Option (Json D) := B.get s systemDb keyspace id

/-- `"%s/%s"` in 384 bytes. -/
def partitionId (database name : CString) : CString :=
  snprintf 384 (database ++ cstr "/" ++ name)

/-- `edb_partition_get`. -/
def edbPartitionGet (s : σ) (database name : CString) : Option PartitionInfo :=
  match fetch B s cfgPartitions (partitionId database name) with
  | none => none
  | some obj =>
    let info : PartitionInfo :=
      { database := copyName 128 obj (cstr "database")
        name := copyName 256 obj (cstr "name")
        createMask := jsonU64 obj (cstr "create_mask")
        updateMask := jsonU64 obj (cstr "update_mask")
        readMask := jsonU64 obj (cstr "read_mask")
        deleteMask := jsonU64 obj (cstr "delete_mask") }
    if info.name = [] then none else some info

/-- The decision of `authorize_partition` and `perm_denied`: an unknown partition is open. -/
def partitionAllows (s : σ) (database partition : CString) (userGroups : UInt64)
    (perm : Permission) : Bool :=
  match edbPartitionGet B s database partition with
  | none => true
  | some info => edbCheckPerm (info.mask perm) userGroups

/-! ## The registry of keyspaces -/

/-- `edb_keyspace_list`. -/
def edbKeyspaceList (s : σ) : List KeyspaceInfo :=
  ((B.all s systemDb cfgKeyspaces).map fun item =>
    (⟨copyName 128 item (cstr "database"), copyName 256 item (cstr "partition"),
      copyName 128 item (cstr "name")⟩ : KeyspaceInfo)).filter fun info => info.name ≠ []

/-- `partition_keyspaces`, and the list `fetch_docs` makes: the first `cap` keyspaces of a
partition. -/
def partitionKeyspaces (s : σ) (database partition : CString) (cap : Nat) : List CString :=
  (((edbKeyspaceList B s).filter fun info =>
    info.database = database && info.partition = partition).take cap).map fun info =>
      snprintf 128 info.name

/-- The record of `edb_partition_create`. -/
def partitionRecord (database name : CString) (createMask updateMask readMask
    deleteMask : UInt64) : Json D :=
  .obj [(cstr "type", .str (cstr "partition")), (cstr "database", .str database),
    (cstr "name", .str name), (cstr "create_mask", u64Json createMask),
    (cstr "update_mask", u64Json updateMask), (cstr "read_mask", u64Json readMask),
    (cstr "delete_mask", u64Json deleteMask)]

/-- The record of a used keyspace. -/
def keyspaceRecord (database partition keyspace : CString) : Json D :=
  .obj [(cstr "type", .str (cstr "keyspace")), (cstr "database", .str database),
    (cstr "partition", .str partition), (cstr "name", .str keyspace)]

/-- `store`. -/
def store (keyspace id : CString) (obj : Json D) (s : σ) : Bool × σ :=
  let (status, s) := B.write (.config keyspace id obj) s
  (decide (status = .ok), s)

/-- `edb_partition_create`. -/
def edbPartitionCreate (database name : CString) (createMask updateMask readMask
    deleteMask : UInt64) (s : σ) : Bool × σ :=
  if database = [] ∨ name = [] ∨ 256 ≤ database.length ∨ 256 ≤ name.length then (false, s)
  else if (edbPartitionGet B s database name).isSome then (false, s)
  else
    store B cfgPartitions (partitionId database name)
      (partitionRecord database name createMask updateMask readMask deleteMask) s

/-- The second half of `edb_partition_ensure`: one record per distinct triple. -/
def ensureKeyspace (database partition keyspace : CString) (s : σ) : σ :=
  let id := snprintf 640 (database ++ cstr "/" ++ partition ++ cstr "/" ++ keyspace)
  match fetch B s cfgKeyspaces id with
  | some _ => s
  | none => (store B cfgKeyspaces id (keyspaceRecord database partition keyspace) s).2

/-- `edb_partition_ensure`; no handler looks at its answer. -/
def edbPartitionEnsure (database partition keyspace : CString) (s : σ) : σ :=
  if database = [] ∨ partition = [] ∨ keyspace = [] ∨ 256 ≤ database.length ∨
      128 ≤ partition.length then s
  else if (edbPartitionGet B s database partition).isSome then
    ensureKeyspace B database partition keyspace s
  else
    let (created, s) := edbPartitionCreate B database partition maskAllowAll maskAllowAll
      maskAllowAll maskAllowAll s
    if created then ensureKeyspace B database partition keyspace s else s

/-! ## The configuration shards -/

/-- The keys of the configuration shards. -/
def configKeys : Set CString :=
  { key | ∃ keyspace ∈ systemKeyspaces, B.shardKey systemDb keyspace = key }

/-- The keys of the two shards behind the masks and the registry. -/
def registryKeys : Set CString :=
  { key | ∃ keyspace ∈ [cfgPartitions, cfgKeyspaces], B.shardKey systemDb keyspace = key }

omit [Doubles D] in
theorem registryKeys_subset : registryKeys B ⊆ configKeys B := by
  rintro _ ⟨keyspace, hmem, rfl⟩
  refine ⟨keyspace, ?_, rfl⟩
  simp only [List.mem_cons, List.not_mem_nil, or_false] at hmem
  rcases hmem with rfl | rfl
  · exact cfgPartitions_mem
  · exact cfgKeyspaces_mem

omit [Doubles D] in
theorem partitions_mem_registryKeys : B.shardKey systemDb cfgPartitions ∈ registryKeys B :=
  ⟨cfgPartitions, by simp, rfl⟩

omit [Doubles D] in
theorem keyspaces_mem_registryKeys : B.shardKey systemDb cfgKeyspaces ∈ registryKeys B :=
  ⟨cfgKeyspaces, by simp, rfl⟩

variable {B} {K : Set CString} {s s' : σ}

theorem edbPartitionGet_congr
    (h : B.view s (B.shardKey systemDb cfgPartitions) =
      B.view s' (B.shardKey systemDb cfgPartitions)) :
    edbPartitionGet B s = edbPartitionGet B s' := by
  funext database name
  rw [edbPartitionGet, edbPartitionGet, fetch, fetch, B.get_congr h]

omit [Doubles D] in
theorem edbKeyspaceList_congr
    (h : B.view s (B.shardKey systemDb cfgKeyspaces) =
      B.view s' (B.shardKey systemDb cfgKeyspaces)) :
    edbKeyspaceList B s = edbKeyspaceList B s' := by
  rw [edbKeyspaceList, edbKeyspaceList, B.all_congr h]

omit [Doubles D] in
/-- Storing a record is confined to its shard. -/
theorem confined_store (keyspace id : CString) (obj : Json D) :
    Confined B.view (B.shardKey systemDb keyspace) (store B keyspace id obj) := by
  have h := B.confined (.config keyspace id obj) (B.safe_of_escaped _ rfl)
  refine ⟨h.frame, h.part, fun s s' hs => ?_⟩
  exact congrArg (fun r => decide (r = ReplStatus.ok)) (h.answer s s' hs)

omit [Doubles D] in
theorem ensureKeyspace_keeps (hK : registryKeys B ⊆ K)
    (database partition keyspace : CString) (s : σ) :
    AgreeOff B.view K s (ensureKeyspace B database partition keyspace s) := by
  rw [ensureKeyspace]
  split
  · exact .refl B.view K s
  · exact (confined_store ..).keeps (hK (keyspaces_mem_registryKeys B)) s

theorem edbPartitionCreate_keeps (hK : registryKeys B ⊆ K) (database name : CString)
    (createMask updateMask readMask deleteMask : UInt64) (s : σ) :
    AgreeOff B.view K s
      (edbPartitionCreate B database name createMask updateMask readMask deleteMask s).2 := by
  rw [edbPartitionCreate]
  split
  · exact .refl B.view K s
  · split
    · exact .refl B.view K s
    · exact (confined_store ..).keeps (hK (partitions_mem_registryKeys B)) s

/-- Registration touches the registry shards only. -/
theorem edbPartitionEnsure_keeps (hK : registryKeys B ⊆ K)
    (database partition keyspace : CString) (s : σ) :
    AgreeOff B.view K s (edbPartitionEnsure B database partition keyspace s) := by
  have hcreate := edbPartitionCreate_keeps hK database partition maskAllowAll maskAllowAll
    maskAllowAll maskAllowAll s
  rw [edbPartitionEnsure]
  split
  · exact .refl B.view K s
  · split
    · exact ensureKeyspace_keeps hK database partition keyspace s
    · simp only
      split
      · exact hcreate.trans (ensureKeyspace_keeps hK database partition keyspace _)
      · exact hcreate

omit [Doubles D] in
theorem agreeOff_ensureKeyspace (hK : Disjoint (registryKeys B) K)
    (database partition keyspace : CString) (h : AgreeOff B.view K s s') :
    AgreeOff B.view K (ensureKeyspace B database partition keyspace s)
      (ensureKeyspace B database partition keyspace s') := by
  have hkey := h _ (Set.disjoint_left.mp hK (keyspaces_mem_registryKeys B))
  rw [ensureKeyspace, ensureKeyspace, fetch, fetch, B.get_congr hkey]
  split
  · exact h
  · exact (confined_store ..).agreeOff h

theorem agreeOff_edbPartitionCreate (hK : Disjoint (registryKeys B) K)
    (database name : CString) (createMask updateMask readMask deleteMask : UInt64)
    (h : AgreeOff B.view K s s') :
    (edbPartitionCreate B database name createMask updateMask readMask deleteMask s).1 =
        (edbPartitionCreate B database name createMask updateMask readMask deleteMask s').1 ∧
      AgreeOff B.view K
        (edbPartitionCreate B database name createMask updateMask readMask deleteMask s).2
        (edbPartitionCreate B database name createMask updateMask readMask deleteMask s').2 := by
  have hkey := Set.disjoint_left.mp hK (partitions_mem_registryKeys B)
  rw [edbPartitionCreate, edbPartitionCreate, edbPartitionGet_congr (h _ hkey)]
  split
  · exact ⟨rfl, h⟩
  · split
    · exact ⟨rfl, h⟩
    · exact ⟨(confined_store ..).answer_eq hkey h, (confined_store ..).agreeOff h⟩

/-- Registration in two runs whose registries agree. -/
theorem agreeOff_edbPartitionEnsure_of_disjoint (hK : Disjoint (registryKeys B) K)
    (database partition keyspace : CString) (h : AgreeOff B.view K s s') :
    AgreeOff B.view K (edbPartitionEnsure B database partition keyspace s)
      (edbPartitionEnsure B database partition keyspace s') := by
  have hkey := Set.disjoint_left.mp hK (partitions_mem_registryKeys B)
  obtain ⟨hcreated, hcreate⟩ := agreeOff_edbPartitionCreate hK database partition maskAllowAll
    maskAllowAll maskAllowAll maskAllowAll h
  rw [edbPartitionEnsure, edbPartitionEnsure, edbPartitionGet_congr (h _ hkey)]
  split
  · exact h
  · split
    · exact agreeOff_ensureKeyspace hK database partition keyspace h
    · simp only [hcreated]
      split
      · exact agreeOff_ensureKeyspace hK database partition keyspace hcreate
      · exact hcreate

/-- Registration in two runs, when the registry is looked at or none of it is. -/
theorem agreeOff_edbPartitionEnsure (hK : registryKeys B ⊆ K ∨ Disjoint (registryKeys B) K)
    (database partition keyspace : CString) (h : AgreeOff B.view K s s') :
    AgreeOff B.view K (edbPartitionEnsure B database partition keyspace s)
      (edbPartitionEnsure B database partition keyspace s') := by
  rcases hK with hK | hK
  · exact ((edbPartitionEnsure_keeps hK database partition keyspace s).symm.trans h).trans
      (edbPartitionEnsure_keeps hK database partition keyspace s')
  · exact agreeOff_edbPartitionEnsure_of_disjoint hK database partition keyspace h

end EpsilonDB
