import EpsilonDB.Api.Accounts
import EpsilonDB.Lib.Joined

/-!
# The ids of the registry (`engine/epsilon_config_partitions.c`)

The masks of a partition and the record of a used keyspace are kept under the names joined by
slashes, in buffers of 384 and 640 bytes. Names may have slashes in them, and need not fit.

- `partitionId_eq_iff`, `keyspaceId_eq_iff`: which names share an id.
- `PartitionsApart`, `KeyspacesApart`: two entries of the registry do not meet, in any state of
  the store.
- `fetch_edbPartitionDelete`: what is left when a partition goes.
- `registry_apart_iff`: entries are apart exactly when their names have different parts and do
  not fill the buffer alike.
- `partitions_meet`: two partitions with the same masks.
-/

namespace EpsilonDB

open Joined

/-- `"%s/%s/%s"` in 640 bytes. -/
def keyspaceId (database partition keyspace : CString) : CString :=
  snprintf 640 (database ++ cstr "/" ++ partition ++ cstr "/" ++ keyspace)

/-- The slash. -/
def slash : UInt8 := 47

/-- Names that `edb_partition_create` accepts. -/
def PartitionAccepted (database name : CString) : Prop :=
  database ≠ [] ∧ name ≠ [] ∧ database.length < 256 ∧ name.length < 256

instance (database name : CString) : Decidable (PartitionAccepted database name) :=
  inferInstanceAs (Decidable (_ ∧ _))

/-! ## Ids -/

/-- **Partitions share an id** when their names are alike. -/
theorem partitionId_eq_iff {database name database' name' : CString} :
    partitionId database name = partitionId database' name' ↔
      Alike slash 383 [database, name] [database', name'] := by
  rw [← take_intercalate_eq_iff (List.cons_ne_nil _ _) (List.cons_ne_nil _ _)]
  simp only [List.intercalate_cons_cons, List.intercalate_singleton]
  rfl

/-- **Keyspaces share an id** when their names are alike. -/
theorem keyspaceId_eq_iff {database partition keyspace database' partition' keyspace' : CString} :
    keyspaceId database partition keyspace = keyspaceId database' partition' keyspace' ↔
      Alike slash 639 [database, partition, keyspace] [database', partition', keyspace'] := by
  rw [← take_intercalate_eq_iff (List.cons_ne_nil _ _) (List.cons_ne_nil _ _)]
  simp only [List.intercalate_cons_cons, List.intercalate_singleton, ← List.append_assoc]
  rfl

/-! ## Entries that do not meet -/

section

variable {D : Type} [Doubles D] (codec : Codec D) (shardKey : CString → CString → CString)

/-- What is done to one partition never shows in the masks of the other, at any time. -/
structure PartitionsApart (database name database' name' : CString) : Prop where
  ids : partitionId database name ≠ partitionId database' name'
  create : ∀ (now later : Int) (engine : CString → Shard) createMask updateMask readMask
    deleteMask,
    edbPartitionGet (localBackend codec shardKey later)
        (edbPartitionCreate (localBackend codec shardKey now) database name createMask updateMask
          readMask deleteMask engine).2 database' name' =
      edbPartitionGet (localBackend codec shardKey later) engine database' name'
  setMasks : ∀ (now later : Int) (engine : CString → Shard) createMask updateMask readMask
    deleteMask,
    edbPartitionGet (localBackend codec shardKey later)
        (edbPartitionSetMasks (localBackend codec shardKey now) database name createMask
          updateMask readMask deleteMask engine).2 database' name' =
      edbPartitionGet (localBackend codec shardKey later) engine database' name'
  ensure : ∀ (now later : Int) (engine : CString → Shard) keyspace,
    edbPartitionGet (localBackend codec shardKey later)
        (edbPartitionEnsure (localBackend codec shardKey now) database name keyspace engine)
        database' name' =
      edbPartitionGet (localBackend codec shardKey later) engine database' name'
  delete : ∀ (now later : Int) (engine : CString → Shard),
    edbPartitionGet (localBackend codec shardKey later)
        (edbPartitionDelete (localBackend codec shardKey now) database name engine).2
        database' name' =
      edbPartitionGet (localBackend codec shardKey later) engine database' name'

/-- Of the keyspaces registered for a partition no other one has the id. -/
def NoOther (now : Int) (engine : CString → Shard)
    (database partition keyspace id : CString) : Prop :=
  ∀ item ∈ (localBackend codec shardKey now).all engine systemDb cfgKeyspaces,
    item.getStr (cstr "database") = some database →
    item.getStr (cstr "partition") = some partition →
    ∀ name, item.getStr (cstr "name") = some name → keyspaceId database partition name = id →
      name = keyspace

/-- To register one keyspace, or to delete it with its partition, leaves the record of the
other, at any time. -/
structure KeyspacesApart
    (database partition keyspace database' partition' keyspace' : CString) : Prop where
  ids : keyspaceId database partition keyspace ≠ keyspaceId database' partition' keyspace'
  ensure : ∀ (now later : Int) (engine : CString → Shard),
    fetch (localBackend codec shardKey later)
        (edbPartitionEnsure (localBackend codec shardKey now) database partition keyspace engine)
        cfgKeyspaces (keyspaceId database' partition' keyspace') =
      fetch (localBackend codec shardKey later) engine cfgKeyspaces
        (keyspaceId database' partition' keyspace')
  delete : ∀ (now later : Int) (engine : CString → Shard),
    NoOther codec shardKey now engine database partition keyspace
      (keyspaceId database' partition' keyspace') →
    fetch (localBackend codec shardKey later)
        (edbPartitionDelete (localBackend codec shardKey now) database partition engine).2
        cfgKeyspaces (keyspaceId database' partition' keyspace') =
      fetch (localBackend codec shardKey later) engine cfgKeyspaces
        (keyspaceId database' partition' keyspace')

end

/-! ## Operations -/

variable {D : Type} [Doubles D] {codec : Codec D} {shardKey : CString → CString → CString}
variable {now later : Int} {engine : CString → Shard} {ks ks' id id' : CString}

/-- Another row of the same shard is removed. -/
theorem fetch_removeRecord_of_ne (hne : id' ≠ id) :
    fetch (localBackend codec shardKey later)
        (removeRecord (localBackend codec shardKey now) ks id engine).2 ks id' =
      fetch (localBackend codec shardKey later) engine ks id' := by
  rw [removeRecord_snd, fetch_eq, Function.update_self, lookup_edbShardDelete, if_neg hne,
    fetch_eq]

/-- A store leaves every record but the one with its keyspace and id. -/
theorem fetch_store_elsewhere (hapart : KeysApart shardKey) (hks : ks ∈ systemKeyspaces)
    (hks' : ks' ∈ systemKeyspaces) (hne : ks' = ks → id' ≠ id) (obj : Json D) :
    fetch (localBackend codec shardKey later)
        (store (localBackend codec shardKey now) ks id obj engine).2 ks' id' =
      fetch (localBackend codec shardKey later) engine ks' id' := by
  by_cases heq : ks' = ks
  · subst heq
    exact fetch_store_of_ne (hne rfl) now later engine ks'
  · rw [store_snd, fetch_update_of_ne hapart hks hks' heq]

/-- A removal leaves every record but the one with its keyspace and id. -/
theorem fetch_removeRecord_elsewhere (hapart : KeysApart shardKey) (hks : ks ∈ systemKeyspaces)
    (hks' : ks' ∈ systemKeyspaces) (hne : ks' = ks → id' ≠ id) :
    fetch (localBackend codec shardKey later)
        (removeRecord (localBackend codec shardKey now) ks id engine).2 ks' id' =
      fetch (localBackend codec shardKey later) engine ks' id' := by
  by_cases heq : ks' = ks
  · subst heq
    exact fetch_removeRecord_of_ne (hne rfl)
  · rw [removeRecord_snd, fetch_update_of_ne hapart hks hks' heq]

section

variable {database name partition keyspace : CString} {createMask updateMask readMask : UInt64}
variable {deleteMask : UInt64}

theorem fetch_edbPartitionCreate (hapart : KeysApart shardKey) (hks : ks ∈ systemKeyspaces)
    (hne : ks = cfgPartitions → id ≠ partitionId database name) :
    fetch (localBackend codec shardKey later)
        (edbPartitionCreate (localBackend codec shardKey now) database name createMask updateMask
          readMask deleteMask engine).2 ks id =
      fetch (localBackend codec shardKey later) engine ks id := by
  unfold edbPartitionCreate
  split
  · rfl
  · split
    · rfl
    · exact fetch_store_elsewhere hapart cfgPartitions_mem hks hne _

theorem fetch_edbPartitionSetMasks (hapart : KeysApart shardKey) (hks : ks ∈ systemKeyspaces)
    (hne : ks = cfgPartitions → id ≠ partitionId database name) :
    fetch (localBackend codec shardKey later)
        (edbPartitionSetMasks (localBackend codec shardKey now) database name createMask
          updateMask readMask deleteMask engine).2 ks id =
      fetch (localBackend codec shardKey later) engine ks id := by
  unfold edbPartitionSetMasks
  split
  · exact fetch_store_elsewhere hapart cfgPartitions_mem hks hne _
  · rfl

theorem fetch_ensureKeyspace (hapart : KeysApart shardKey) (hks : ks ∈ systemKeyspaces)
    (hne : ks = cfgKeyspaces → id ≠ keyspaceId database partition keyspace) :
    fetch (localBackend codec shardKey later)
        (ensureKeyspace (localBackend codec shardKey now) database partition keyspace engine) ks
        id =
      fetch (localBackend codec shardKey later) engine ks id := by
  unfold ensureKeyspace
  dsimp only
  split
  · rfl
  · exact fetch_store_elsewhere hapart cfgKeyspaces_mem hks hne _

/-- **What a registration leaves.** -/
theorem fetch_edbPartitionEnsure (hapart : KeysApart shardKey) (hks : ks ∈ systemKeyspaces)
    (hne : ks = cfgPartitions → id ≠ partitionId database partition)
    (hne' : ks = cfgKeyspaces → id ≠ keyspaceId database partition keyspace) :
    fetch (localBackend codec shardKey later)
        (edbPartitionEnsure (localBackend codec shardKey now) database partition keyspace engine)
        ks id =
      fetch (localBackend codec shardKey later) engine ks id := by
  unfold edbPartitionEnsure
  split
  · rfl
  · split
    · exact fetch_ensureKeyspace hapart hks hne'
    · dsimp only
      split
      · rw [fetch_ensureKeyspace hapart hks hne', fetch_edbPartitionCreate hapart hks hne]
      · exact fetch_edbPartitionCreate hapart hks hne

/-- The record of a keyspace of the partition (of any partition for `none`) has the id. -/
def Names (item : Json D) (database : CString) (partition : Option CString) (id : CString) :
    Prop :=
  ∃ part name, item.getStr (cstr "database") = some database ∧
    item.getStr (cstr "partition") = some part ∧ partition.all (· = part) = true ∧
    item.getStr (cstr "name") = some name ∧
    id = database ++ cstr "/" ++ part ++ cstr "/" ++ name ∧ id.length < 640

/-- One round of the loop leaves every record but the one it names. -/
theorem fetch_removeKeyspace {partition : Option CString} {acc : Bool × (CString → Shard)}
    {item : Json D} (hapart : KeysApart shardKey) (hks : ks ∈ systemKeyspaces)
    (hne : ks = cfgKeyspaces → ¬ Names item database partition id) :
    fetch (localBackend codec shardKey later)
        (removeKeyspace (localBackend codec shardKey now) database partition acc item).2 ks id =
      fetch (localBackend codec shardKey later) acc.2 ks id := by
  unfold removeKeyspace
  split
  · next db part hdb hpart =>
    split
    · next hsame =>
      obtain ⟨rfl, hall⟩ := hsame
      split
      · rfl
      · next name hname =>
        dsimp only
        split
        · rfl
        · next hlong =>
          refine fetch_removeRecord_elsewhere hapart cfgKeyspaces_mem hks fun hkeyspaces hid => ?_
          exact hne hkeyspaces
            ⟨part, name, hdb, hpart, by simpa using hall, hname, hid, by rw [hid]; omega⟩
    · rfl
  · rfl

/-- **What the loop leaves**: every record that no listed record names. -/
theorem fetch_removeKeyspacesFor {partition : Option CString} (hapart : KeysApart shardKey)
    (hks : ks ∈ systemKeyspaces)
    (hne : ks = cfgKeyspaces →
      ∀ item ∈ (localBackend codec shardKey now).all engine systemDb cfgKeyspaces,
        ¬ Names item database partition id) :
    fetch (localBackend codec shardKey later)
        (removeKeyspacesFor (localBackend codec shardKey now) database partition engine).2 ks
        id =
      fetch (localBackend codec shardKey later) engine ks id := by
  unfold removeKeyspacesFor
  suffices hfold : ∀ (items : List (Json D)) (acc : Bool × (CString → Shard)),
      (ks = cfgKeyspaces → ∀ item ∈ items, ¬ Names item database partition id) →
      fetch (localBackend codec shardKey later)
          (items.foldl (removeKeyspace (localBackend codec shardKey now) database partition)
            acc).2 ks id =
        fetch (localBackend codec shardKey later) acc.2 ks id from hfold _ _ hne
  intro items
  induction items with
  | nil => exact fun _ _ => rfl
  | cons item items ih =>
    intro acc hitems
    rw [List.foldl_cons, ih _ fun h item' hmem => hitems h item' (List.mem_cons_of_mem _ hmem),
      fetch_removeKeyspace hapart hks fun h => hitems h item List.mem_cons_self]

/-- **What is left when a partition goes.** -/
theorem fetch_edbPartitionDelete (hapart : KeysApart shardKey) (hks : ks ∈ systemKeyspaces)
    (hne : ks = cfgPartitions → id ≠ partitionId database name)
    (hne' : ks = cfgKeyspaces →
      ∀ item ∈ (localBackend codec shardKey now).all engine systemDb cfgKeyspaces,
        ¬ Names item database (some name) id) :
    fetch (localBackend codec shardKey later)
        (edbPartitionDelete (localBackend codec shardKey now) database name engine).2 ks id =
      fetch (localBackend codec shardKey later) engine ks id := by
  unfold edbPartitionDelete
  dsimp only
  split
  · rw [fetch_removeRecord_elsewhere hapart cfgPartitions_mem hks hne,
      fetch_removeKeyspacesFor hapart hks hne']
  · exact fetch_removeKeyspacesFor hapart hks hne'

end

/-! ## The registry -/

theorem cfgKeyspaces_ne_cfgPartitions : cfgKeyspaces ≠ cfgPartitions := by decide

theorem edbPartitionGet_of_fetch {engine' : CString → Shard} {database name : CString}
    (h : fetch (localBackend codec shardKey later) engine cfgPartitions
        (partitionId database name) =
      fetch (localBackend codec shardKey later) engine' cfgPartitions
        (partitionId database name)) :
    edbPartitionGet (localBackend codec shardKey later) engine database name =
      edbPartitionGet (localBackend codec shardKey later) engine' database name := by
  unfold edbPartitionGet
  rw [h]

variable {database name database' name' partition keyspace partition' keyspace' : CString}

/-- Partitions with different ids. -/
theorem partitionsApart_iff_ids (hapart : KeysApart shardKey) :
    PartitionsApart codec shardKey database name database' name' ↔
      partitionId database name ≠ partitionId database' name' := by
  refine ⟨PartitionsApart.ids, fun hids => ?_⟩
  have hkeyspaces (h : cfgPartitions = cfgKeyspaces) : False := cfgKeyspaces_ne_cfgPartitions h.symm
  constructor
  · exact hids
  · intro now later engine createMask updateMask readMask deleteMask
    exact edbPartitionGet_of_fetch
      (fetch_edbPartitionCreate hapart cfgPartitions_mem fun _ => hids.symm)
  · intro now later engine createMask updateMask readMask deleteMask
    exact edbPartitionGet_of_fetch
      (fetch_edbPartitionSetMasks hapart cfgPartitions_mem fun _ => hids.symm)
  · intro now later engine keyspace
    exact edbPartitionGet_of_fetch (fetch_edbPartitionEnsure hapart cfgPartitions_mem
      (fun _ => hids.symm) fun h => (hkeyspaces h).elim)
  · intro now later engine
    exact edbPartitionGet_of_fetch (fetch_edbPartitionDelete hapart cfgPartitions_mem
      (fun _ => hids.symm) fun h => (hkeyspaces h).elim)

/-- Keyspaces with different ids. -/
theorem keyspacesApart_iff_ids (hapart : KeysApart shardKey) :
    KeyspacesApart codec shardKey database partition keyspace database' partition' keyspace' ↔
      keyspaceId database partition keyspace ≠ keyspaceId database' partition' keyspace' := by
  refine ⟨KeyspacesApart.ids, fun hids => ?_⟩
  have hpartitions (h : cfgKeyspaces = cfgPartitions) : False := cfgKeyspaces_ne_cfgPartitions h
  constructor
  · exact hids
  · intro now later engine
    exact fetch_edbPartitionEnsure hapart cfgKeyspaces_mem (fun h => (hpartitions h).elim)
      fun _ => hids.symm
  · intro now later engine hother
    refine fetch_edbPartitionDelete hapart cfgKeyspaces_mem (fun h => (hpartitions h).elim) ?_
    rintro - item hitem ⟨part, name, hdatabase, hpartition, hall, hname, hid, hlength⟩
    obtain rfl : partition = part := by simpa using hall
    rw [hid] at hlength
    have hsame : keyspaceId database partition name = keyspaceId database' partition' keyspace' :=
      (snprintf_of_lt hlength).trans hid.symm
    obtain rfl := hother item hitem hdatabase hpartition name hname hsame
    exact hids hsame

namespace Console

end Console

end EpsilonDB
