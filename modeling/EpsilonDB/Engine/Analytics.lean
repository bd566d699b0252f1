import EpsilonDB.Engine.Shard
import EpsilonDB.Engine.Tombstones
import EpsilonDB.Engine.Json
import EpsilonDB.Lib.Joined
import EpsilonDB.Lib.Runs
import EpsilonDB.Lib.Tallies
import Mathlib.Data.UInt

/-!
# Workload analytics (`engine/epsilon_analytics.c`, `api/epsilon_api.c`)

Every node counts the operations it serves, for each shard and for each kind of query. From time
to time it stores what it has counted under its own id, with an expiry; a report adds up the
documents of all nodes.

- `Recorder`: the two tables of a node; `edbAnalyticsRecordRead` and its siblings.
- `joinFilterKeys`, `collectFilterKeys`: the filters of a query as part of its name;
  `slowKey_eq_iff`.
- `snapshotJson`: what a node stores; `reportSnapshots`, `edbAnalyticsReport`: what is made of it.
- `Flush`: a snapshot, and what it is of; `reportSnapshots_docs`.
- `Analytics`: the nodes, the snapshots between them, and the shard that a report reads.
  `report_counts`: in every run a report is the sum of the newest snapshots that have not expired.

Allocations succeed. `time` is read once for a snapshot, its expiry and its timestamp. A report
without an engine, which is empty, is left out.
-/

namespace EpsilonDB

/-! ## Recording -/

/-- `shard_stat`, without its names. -/
structure ShardStat where
  reads : UInt64 := 0
  writes : UInt64 := 0
  updates : UInt64 := 0
  deletes : UInt64 := 0
  readUs : UInt64 := 0
  writeUs : UInt64 := 0
  sizeBytes : UInt64 := 0
deriving DecidableEq

/-- `slow_stat`, without its names. -/
structure SlowStat where
  count : UInt64 := 0
  totalUs : UInt64 := 0
  maxUs : UInt64 := 0
deriving DecidableEq

/-- A partition and a keyspace. -/
abbrev ShardName := CString × CString

/-- The names of a `slow_stat`. -/
structure SlowName where
  kind : CString
  partition : CString
  keyspace : CString
  filterKey : CString
deriving DecidableEq

/-- The names as the arrays of a `shard_stat` hold them. -/
def cutShard (name : ShardName) : ShardName := (snprintf 256 name.1, snprintf 128 name.2)

/-- The names as the arrays of a `slow_stat` hold them. -/
def cutSlow (name : SlowName) : SlowName where
  kind := snprintf 16 name.kind
  partition := snprintf 256 name.partition
  keyspace := snprintf 128 name.keyspace
  filterKey := snprintf 256 name.filterKey

/-- The tables of `edb_analytics`. -/
structure Recorder where
  shards : List (ShardName × ShardStat) := []
  slow : List (SlowName × SlowStat) := []
deriving DecidableEq, Inhabited

/-- `find_shard`, and what is done with the entry. -/
def findShard (a : Recorder) (partition keyspace : CString) (f : ShardStat → ShardStat) :
    Recorder :=
  { a with shards := Tallies.bump cutShard {} (partition, keyspace) f a.shards }

/-- `find_slow`, and what is done with the entry. -/
def findSlow (a : Recorder) (kind partition keyspace filterKey : CString)
    (f : SlowStat → SlowStat) : Recorder :=
  { a with slow := Tallies.bump cutSlow {} ⟨kind, partition, keyspace, filterKey⟩ f a.slow }

/-- `record_read_locked`. -/
def recordReadLocked (a : Recorder) (partition keyspace : CString) (latencyUs : Int64) :
    Recorder :=
  findShard a partition keyspace fun s =>
    { s with reads := s.reads + 1, readUs := s.readUs + latencyUs.toUInt64 }

/-- `record_slow_locked`. -/
def recordSlowLocked (a : Recorder) (kind partition keyspace filterKey : CString)
    (latencyUs : Int64) : Recorder :=
  findSlow a kind partition keyspace filterKey fun s =>
    { count := s.count + 1
      totalUs := s.totalUs + latencyUs.toUInt64
      maxUs := if latencyUs.toUInt64 > s.maxUs then latencyUs.toUInt64 else s.maxUs }

/-- `edb_analytics_record_read`. -/
def edbAnalyticsRecordRead (a : Recorder) (partition keyspace : CString) (latencyUs : Int64) :
    Recorder :=
  recordSlowLocked (recordReadLocked a partition keyspace latencyUs) (cstr "read") partition
    keyspace [] latencyUs

/-- `edb_analytics_record_write`. -/
def edbAnalyticsRecordWrite (a : Recorder) (partition keyspace : CString) (update : Bool)
    (latencyUs : Int64) : Recorder :=
  recordSlowLocked
    (findShard a partition keyspace fun s =>
      { s with
        writes := s.writes + 1
        updates := if update then s.updates + 1 else s.updates
        writeUs := s.writeUs + latencyUs.toUInt64 })
    (cstr "write") partition keyspace [] latencyUs

/-- `edb_analytics_record_delete`. -/
def edbAnalyticsRecordDelete (a : Recorder) (partition keyspace : CString) (latencyUs : Int64) :
    Recorder :=
  recordSlowLocked
    (findShard a partition keyspace fun s =>
      { s with deletes := s.deletes + 1, writeUs := s.writeUs + latencyUs.toUInt64 })
    (cstr "delete") partition keyspace [] latencyUs

/-- A comma after the keys that are there, if it fits. -/
def addComma (cap : Nat) (first : Bool) (out : CString) : CString :=
  if first = false ∧ out.length + 1 < cap then out ++ [44] else out

/-- The loop of `join_filter_keys`: a key that does not fit ends the text. -/
def joinFrom (cap : Nat) (first : Bool) (out : CString) : List CString → CString
  | [] => out
  | key :: keys =>
    if cap ≤ (addComma cap first out).length + key.length then addComma cap first out
    else joinFrom cap false (addComma cap first out ++ key) keys

/-- `join_filter_keys`. -/
def joinFilterKeys (keys : List CString) (cap : Nat) : CString :=
  joinFrom cap true [] (keys.insertionSort (· ≤ ·))

/-- `edb_analytics_record_query`. -/
def edbAnalyticsRecordQuery (a : Recorder) (partition keyspace : CString)
    (filterKeys : List CString) (latencyUs : Int64) : Recorder :=
  recordSlowLocked (recordReadLocked a partition keyspace latencyUs) (cstr "query") partition
    keyspace (joinFilterKeys filterKeys 256) latencyUs

/-- The operations that are counted. -/
inductive Measured where
  | read
  | write (update : Bool)
  | delete
  | query (filterKeys : List CString)
deriving DecidableEq

/-- An operation on a shard, and how long it took. -/
structure Sample where
  op : Measured
  partition : CString
  keyspace : CString
  latencyUs : Int64
deriving DecidableEq

/-- What the handlers of the data endpoints call. -/
def Recorder.record (a : Recorder) (r : Sample) : Recorder :=
  match r.op with
  | .read => edbAnalyticsRecordRead a r.partition r.keyspace r.latencyUs
  | .write update => edbAnalyticsRecordWrite a r.partition r.keyspace update r.latencyUs
  | .delete => edbAnalyticsRecordDelete a r.partition r.keyspace r.latencyUs
  | .query filterKeys => edbAnalyticsRecordQuery a r.partition r.keyspace filterKeys r.latencyUs

/-! ## Counters add up -/

/-- Counters are added; of two sizes the larger one counts. -/
def ShardStat.add (s t : ShardStat) : ShardStat where
  reads := s.reads + t.reads
  writes := s.writes + t.writes
  updates := s.updates + t.updates
  deletes := s.deletes + t.deletes
  readUs := s.readUs + t.readUs
  writeUs := s.writeUs + t.writeUs
  sizeBytes := max s.sizeBytes t.sizeBytes

/-- Counts and times are added; of two maxima the larger one counts. -/
def SlowStat.add (s t : SlowStat) : SlowStat where
  count := s.count + t.count
  totalUs := s.totalUs + t.totalUs
  maxUs := max s.maxUs t.maxUs

/-- Numbers of 64 bits, in order. -/
instance wordOrder : LinearOrder UInt64 where
  le_refl := UInt64.le_refl
  le_trans := fun _ _ _ => UInt64.le_trans
  le_antisymm := fun _ _ => UInt64.le_antisymm
  le_total := UInt64.le_total
  lt_iff_le_not_ge := fun a b => by
    rw [UInt64.lt_iff_toNat_lt, UInt64.le_iff_toNat_le, UInt64.le_iff_toNat_le]
    omega
  toDecidableLE := fun a b => inferInstanceAs (Decidable (a ≤ b))
  toDecidableLT := fun a b => inferInstanceAs (Decidable (a < b))
  toDecidableEq := inferInstance

theorem zero_max_word (a : UInt64) : max 0 a = a := max_eq_right (UInt64.le_iff_toNat_le.mpr
  (Nat.zero_le _))

/-- The larger one of two is kept. -/
theorem ite_word (a b : UInt64) : (if b > a then b else a) = max a b := by
  split
  · next h => exact (max_eq_right (le_of_lt h)).symm
  · next h => exact (max_eq_left (not_lt.mp h)).symm

instance : Add ShardStat := ⟨ShardStat.add⟩
instance : Zero ShardStat := ⟨{}⟩
instance : Add SlowStat := ⟨SlowStat.add⟩
instance : Zero SlowStat := ⟨{}⟩

theorem ShardStat.add_def (s t : ShardStat) : s + t = s.add t := rfl

theorem SlowStat.add_def (s t : SlowStat) : s + t = s.add t := rfl

@[simp] theorem ShardStat.zero_def : (0 : ShardStat) = {} := rfl

@[simp] theorem SlowStat.zero_def : (0 : SlowStat) = {} := rfl

theorem ShardStat.add_comm' (s t : ShardStat) : s + t = t + s := by
  simp only [ShardStat.add_def, ShardStat.add, max_comm s.sizeBytes, add_comm s.reads,
    add_comm s.writes, add_comm s.updates, add_comm s.deletes, add_comm s.readUs,
    add_comm s.writeUs]

theorem ShardStat.zero_add' (s : ShardStat) : 0 + s = s := by
  simp only [ShardStat.zero_def, ShardStat.add_def, ShardStat.add, zero_add, zero_max_word]

instance : AddCommMonoid ShardStat where
  add_assoc s t u := by
    simp only [ShardStat.add_def, ShardStat.add, add_assoc, max_assoc]
  add_comm := ShardStat.add_comm'
  zero_add := ShardStat.zero_add'
  add_zero s := (ShardStat.add_comm' s 0).trans (ShardStat.zero_add' s)
  nsmul := nsmulRec

theorem SlowStat.add_comm' (s t : SlowStat) : s + t = t + s := by
  simp only [SlowStat.add_def, SlowStat.add, max_comm s.maxUs, add_comm s.count,
    add_comm s.totalUs]

theorem SlowStat.zero_add' (s : SlowStat) : 0 + s = s := by
  simp only [SlowStat.zero_def, SlowStat.add_def, SlowStat.add, zero_add, zero_max_word]

instance : AddCommMonoid SlowStat where
  add_assoc s t u := by
    simp only [SlowStat.add_def, SlowStat.add, add_assoc, max_assoc]
  add_comm := SlowStat.add_comm'
  zero_add := SlowStat.zero_add'
  add_zero s := (SlowStat.add_comm' s 0).trans (SlowStat.zero_add' s)
  nsmul := nsmulRec

/-! ## What the tables hold -/

namespace Sample

/-- The shard the operation is on. -/
def shardName (r : Sample) : ShardName := (r.partition, r.keyspace)

/-- What the operation is counted under in `slow`. -/
def slowName (r : Sample) : SlowName :=
  match r.op with
  | .read => ⟨cstr "read", r.partition, r.keyspace, []⟩
  | .write _ => ⟨cstr "write", r.partition, r.keyspace, []⟩
  | .delete => ⟨cstr "delete", r.partition, r.keyspace, []⟩
  | .query filterKeys => ⟨cstr "query", r.partition, r.keyspace, joinFilterKeys filterKeys 256⟩

/-- What the operation adds to its shard. -/
def traffic (r : Sample) : ShardStat :=
  match r.op with
  | .read => { reads := 1, readUs := r.latencyUs.toUInt64 }
  | .write update =>
    { writes := 1, updates := if update then 1 else 0, writeUs := r.latencyUs.toUInt64 }
  | .delete => { deletes := 1, writeUs := r.latencyUs.toUInt64 }
  | .query _ => { reads := 1, readUs := r.latencyUs.toUInt64 }

/-- What the operation adds to its kind. -/
def slowness (r : Sample) : SlowStat where
  count := 1
  totalUs := r.latencyUs.toUInt64
  maxUs := r.latencyUs.toUInt64

end Sample

/-- The operations on a shard, added up. -/
def recordedShard (name : ShardName) (rs : List Sample) : ShardStat :=
  Tallies.total name (rs.map fun r => (cutShard r.shardName, r.traffic))

/-- The operations of a kind, added up. -/
def recordedSlow (name : SlowName) (rs : List Sample) : SlowStat :=
  Tallies.total name (rs.map fun r => (cutSlow r.slowName, r.slowness))

def ShardStat.sized (size : UInt64) (s : ShardStat) : ShardStat := { s with sizeBytes := size }

/-- The tables are those of these operations; sizes are measured later. -/
structure Recorder.Holds (a : Recorder) (rs : List Sample) : Prop where
  keptShards : Tallies.Kept cutShard a.shards
  keptSlow : Tallies.Kept cutSlow a.slow
  shardNames : ∀ name, name ∈ a.shards.map Prod.fst ↔ ∃ r ∈ rs, cutShard r.shardName = name
  slowNames : ∀ name, name ∈ a.slow.map Prod.fst ↔ ∃ r ∈ rs, cutSlow r.slowName = name
  shards : ∀ name, (Tallies.total name a.shards).sized 0 = recordedShard name rs
  slow : ∀ name, Tallies.total name a.slow = recordedSlow name rs

theorem cutShard_cutShard (name : ShardName) : cutShard (cutShard name) = cutShard name := by
  simp [cutShard, snprintf, List.take_take]

theorem cutSlow_cutSlow (name : SlowName) : cutSlow (cutSlow name) = cutSlow name := by
  simp [cutSlow, snprintf, List.take_take]

/-- An operation is added to the counters of its shard. -/
theorem shards_record (a : Recorder) (r : Sample) : ∃ f : ShardStat → ShardStat,
    (∀ c, f c = c + r.traffic) ∧
      (a.record r).shards = Tallies.bump cutShard 0 r.shardName f a.shards := by
  obtain ⟨op, partition, keyspace, latencyUs⟩ := r
  cases op with
  | read | delete | query filterKeys =>
    refine ⟨_, fun c => ?_, rfl⟩
    simp [ShardStat.add_def, ShardStat.add, Sample.traffic]
  | write update =>
    refine ⟨_, fun c => ?_, rfl⟩
    cases update <;> simp [ShardStat.add_def, ShardStat.add, Sample.traffic]

/-- An operation is added to the counters of its kind. -/
theorem slow_record (a : Recorder) (r : Sample) : ∃ f : SlowStat → SlowStat,
    (∀ c, f c = c + r.slowness) ∧
      (a.record r).slow = Tallies.bump cutSlow 0 r.slowName f a.slow := by
  obtain ⟨op, partition, keyspace, latencyUs⟩ := r
  cases op <;>
  · refine ⟨_, fun c => ?_, rfl⟩
    simp [SlowStat.add_def, SlowStat.add, Sample.slowness, ite_word]

namespace Recorder.Holds

variable {a : Recorder} {rs : List Sample}

theorem start : Recorder.Holds {} [] where
  keptShards := List.forall_mem_nil _
  keptSlow := List.forall_mem_nil _
  shardNames := by simp
  slowNames := by simp
  shards _ := rfl
  slow _ := rfl

theorem sized_add (s t : ShardStat) : (s + t).sized 0 = s.sized 0 + t.sized 0 := rfl

theorem sized_traffic (r : Sample) : r.traffic.sized 0 = r.traffic := by
  obtain ⟨op, partition, keyspace, latencyUs⟩ := r
  cases op <;> rfl

/-- **One operation** more. -/
theorem record (h : a.Holds rs) (r : Sample) : (a.record r).Holds (r :: rs) := by
  obtain ⟨f, hf, hshards⟩ := shards_record a r
  obtain ⟨g, hg, hslow⟩ := slow_record a r
  constructor
  · rw [hshards]
    exact Tallies.kept_bump cutShard_cutShard h.keptShards
  · rw [hslow]
    exact Tallies.kept_bump cutSlow_cutSlow h.keptSlow
  · intro name
    rw [hshards, Tallies.mem_keys_bump h.keptShards, h.shardNames, List.exists_mem_cons_iff]
    exact or_comm
  · intro name
    rw [hslow, Tallies.mem_keys_bump h.keptSlow, h.slowNames, List.exists_mem_cons_iff]
    exact or_comm
  · intro name
    rw [hshards, Tallies.total_bump hf h.keptShards, sized_add, h.shards, recordedShard,
      recordedShard, List.map_cons, Tallies.total_cons, add_comm]
    congr 1
    split
    · exact sized_traffic r
    · rfl
  · intro name
    rw [hslow, Tallies.total_bump hg h.keptSlow, h.slow, recordedSlow, recordedSlow,
      List.map_cons, Tallies.total_cons, add_comm]

end Recorder.Holds

/-! ## Snapshots -/

section Snapshots

variable {D : Type} [Doubles D]

/-- `cJSON_AddNumberToObject(o, name, (double)w)`. -/
def wordItem (w : UInt64) : Json D := .num (Doubles.ofInt64 w.toNat)

/-- The result of `edb_engine_shard_size`, where it is a size. -/
def sizeOf (bytes : Int) : UInt64 := if bytes > 0 then UInt64.ofNat bytes.toNat else 0

/-- The sizes that `snapshot_json` reads into the table. -/
def Recorder.measure (size : ShardName → Int) (a : Recorder) : Recorder :=
  { a with shards := a.shards.map fun e => (e.1, e.2.sized (sizeOf (size e.1))) }

/-- An element of `shards`. -/
def shardItem (e : ShardName × ShardStat) : Json D :=
  .obj [(cstr "partition", .str e.1.1), (cstr "keyspace", .str e.1.2),
    (cstr "reads", wordItem e.2.reads), (cstr "writes", wordItem e.2.writes),
    (cstr "updates", wordItem e.2.updates), (cstr "deletes", wordItem e.2.deletes),
    (cstr "read_us", wordItem e.2.readUs), (cstr "write_us", wordItem e.2.writeUs),
    (cstr "size_bytes", wordItem e.2.sizeBytes)]

/-- An element of `slow`. -/
def slowItem (e : SlowName × SlowStat) : Json D :=
  .obj [(cstr "kind", .str e.1.kind), (cstr "partition", .str e.1.partition),
    (cstr "keyspace", .str e.1.keyspace), (cstr "filter", .str e.1.filterKey),
    (cstr "count", wordItem e.2.count), (cstr "total_us", wordItem e.2.totalUs),
    (cstr "max_us", wordItem e.2.maxUs)]

/-- `api_analytics_cluster_metrics`. -/
def clusterMetrics (pending : UInt64) : Json D := .obj [(cstr "pending_changes", wordItem pending)]

/-- `snapshot_json`, the sizes being measured. -/
def snapshotJson (a : Recorder) (nodeId : CString) (now : Int) (cluster : Option (Json D)) :
    Json D :=
  .obj ([(cstr "node", .str nodeId), (cstr "ts", .num (Doubles.ofInt64 now)),
    (cstr "shards", .arr (a.shards.map shardItem)), (cstr "slow", .arr (a.slow.map slowItem))] ++
    ((cluster.filter Json.isObject).map fun c => (cstr "cluster", c)).toList)

/-! ## Reports -/

/-- What `edb_analytics_report` has added up. -/
structure Report where
  nodes : List CString := []
  shards : List (ShardName × ShardStat) := []
  slow : List (SlowName × SlowStat) := []
  pendingChanges : UInt64 := 0
deriving DecidableEq

/-- The items `cJSON_ArrayForEach` goes through. -/
def items : Option (Json D) → List (Json D)
  | some (.arr xs) => xs
  | some (.obj ms) => ms.map Prod.snd
  | _ => []

/-- `(uint64_t)cJSON_GetNumberValue(item)`, which is not defined where there is no such number. -/
def word : Option (Json D) → Option UInt64
  | some (.num d) => Doubles.toUInt64 d
  | _ => none

/-- The counters of an element of `shards`. -/
def readShard (s : Json D) : Option ShardStat := do
  let reads ← word (s.get (cstr "reads"))
  let writes ← word (s.get (cstr "writes"))
  let updates ← word (s.get (cstr "updates"))
  let deletes ← word (s.get (cstr "deletes"))
  let readUs ← word (s.get (cstr "read_us"))
  let writeUs ← word (s.get (cstr "write_us"))
  let sizeBytes ← word (s.get (cstr "size_bytes"))
  some { reads, writes, updates, deletes, readUs, writeUs, sizeBytes }

/-- The counters of an element of `slow`. -/
def readSlow (s : Json D) : Option SlowStat := do
  let count ← word (s.get (cstr "count"))
  let totalUs ← word (s.get (cstr "total_us"))
  let maxUs ← word (s.get (cstr "max_us"))
  some { count, totalUs, maxUs }

/-- Replicas may differ slightly: the largest copy is reported. -/
def ShardStat.absorb (read r : ShardStat) : ShardStat where
  reads := r.reads + read.reads
  writes := r.writes + read.writes
  updates := r.updates + read.updates
  deletes := r.deletes + read.deletes
  readUs := r.readUs + read.readUs
  writeUs := r.writeUs + read.writeUs
  sizeBytes := if read.sizeBytes > r.sizeBytes then read.sizeBytes else r.sizeBytes

def SlowStat.absorb (read r : SlowStat) : SlowStat where
  count := r.count + read.count
  totalUs := r.totalUs + read.totalUs
  maxUs := if read.maxUs > r.maxUs then read.maxUs else r.maxUs

/-- The loop over `shards`, with `agg_shard`. -/
def reportShard (r : Report) (s : Json D) : Option Report :=
  match s.getStr (cstr "partition"), s.getStr (cstr "keyspace") with
  | some partition, some keyspace => do
    let read ← readShard s
    some { r with shards := Tallies.bump cutShard {} (partition, keyspace) read.absorb r.shards }
  | _, _ => some r

/-- The loop over `slow`, with `agg_slow`. -/
def reportSlow (r : Report) (s : Json D) : Option Report :=
  match s.getStr (cstr "kind"), s.getStr (cstr "partition"), s.getStr (cstr "keyspace"),
    s.getStr (cstr "filter") with
  | some kind, some partition, some keyspace, some filter => do
    let read ← readSlow s
    some { r with
      slow := Tallies.bump cutSlow {} ⟨kind, partition, keyspace, filter⟩ read.absorb r.slow }
  | _, _, _, _ => some r

/-- The `pending_changes` of a snapshot with a `cluster`. -/
def reportCluster (r : Report) (snap : Json D) : Option Report :=
  match snap.get (cstr "cluster") with
  | some (.obj ms) => do
    let pending ← word ((Json.obj ms).get (cstr "pending_changes"))
    some { r with pendingChanges := r.pendingChanges + pending }
  | _ => some r

/-- The loop over the snapshots. -/
def reportSnapshot (r : Report) (snap : Json D) : Option Report :=
  if snap.isObject then do
    let r := { r with nodes := r.nodes ++ (snap.getStr (cstr "node")).toList }
    let r ← (items (snap.get (cstr "shards"))).foldlM reportShard r
    let r ← (items (snap.get (cstr "slow"))).foldlM reportSlow r
    reportCluster r snap
  else some r

def reportSnapshots (snapshots : List (Json D)) : Option Report :=
  snapshots.foldlM reportSnapshot {}

/-- The ten largest shards, by their size on disk. -/
def Report.largestShards (r : Report) : List (ShardName × ShardStat) :=
  (r.shards.insertionSort fun a b => b.2.sizeBytes ≤ a.2.sizeBytes).take 10

/-- The document of a report. -/
def Report.json (r : Report) : Json D :=
  .obj [(cstr "nodes", .arr (r.nodes.map .str)), (cstr "shards", .arr (r.shards.map shardItem)),
    (cstr "slow", .arr (r.slow.map slowItem)),
    (cstr "largest_shards", .arr (r.largestShards.map fun e =>
      .obj [(cstr "partition", .str e.1.1), (cstr "keyspace", .str e.1.2),
        (cstr "size_bytes", wordItem e.2.sizeBytes)])),
    (cstr "cluster", .obj [(cstr "pending_changes", wordItem r.pendingChanges)])]

/-- `edb_analytics_report`. -/
def edbAnalyticsReport (snapshots : List (Json D)) : Option (Json D) :=
  (reportSnapshots snapshots).map Report.json

/-! ### The snapshot of a node in a report -/

/-- A number that survives as a double. -/
def Exact (D : Type) [Doubles D] (w : UInt64) : Prop :=
  Doubles.toUInt64 (Doubles.ofInt64 w.toNat : D) = some w

instance (w : UInt64) : Decidable (Exact D w) :=
  inferInstanceAs (Decidable (Doubles.toUInt64 (Doubles.ofInt64 w.toNat : D) = some w))

/-- All numbers of a table survive. -/
structure Recorder.Exact (D : Type) [Doubles D] (a : Recorder) : Prop where
  shards : ∀ e ∈ a.shards, ∀ w ∈ [e.2.reads, e.2.writes, e.2.updates, e.2.deletes, e.2.readUs,
    e.2.writeUs, e.2.sizeBytes], EpsilonDB.Exact D w
  slow : ∀ e ∈ a.slow, ∀ w ∈ [e.2.count, e.2.totalUs, e.2.maxUs], EpsilonDB.Exact D w

instance (a : Recorder) : Decidable (a.Exact D) :=
  -- not by going through all the words there are
  have (ws : List UInt64) : Decidable (∀ w ∈ ws, EpsilonDB.Exact D w) := ws.decidableBAll _
  decidable_of_iff ((∀ e ∈ a.shards, ∀ w ∈ [e.2.reads, e.2.writes, e.2.updates, e.2.deletes,
      e.2.readUs, e.2.writeUs, e.2.sizeBytes], EpsilonDB.Exact D w) ∧
      ∀ e ∈ a.slow, ∀ w ∈ [e.2.count, e.2.totalUs, e.2.maxUs], EpsilonDB.Exact D w)
    ⟨fun h => ⟨h.1, h.2⟩, fun h => ⟨h.shards, h.slow⟩⟩

theorem word_wordItem {w : UInt64} (h : Exact D w) : word (some (wordItem w : Json D)) = some w := h

theorem absorb_shard (read r : ShardStat) : read.absorb r = r + read := by
  simp only [ShardStat.absorb, ShardStat.add_def, ShardStat.add, ite_word]

theorem absorb_slow (read r : SlowStat) : read.absorb r = r + read := by
  simp only [SlowStat.absorb, SlowStat.add_def, SlowStat.add, ite_word]

/-- An element is read as the entry it was made from. -/
theorem reportShard_shardItem (r : Report) {e : ShardName × ShardStat}
    (h : ∀ w ∈ [e.2.reads, e.2.writes, e.2.updates, e.2.deletes, e.2.readUs, e.2.writeUs,
      e.2.sizeBytes], Exact D w) :
    reportShard r (shardItem e : Json D) =
      some { r with shards := Tallies.bump cutShard 0 e.1 e.2.absorb r.shards } := by
  simp only [List.forall_mem_cons, List.not_mem_nil, false_imp_iff, implies_true, and_true] at h
  obtain ⟨hreads, hwrites, hupdates, hdeletes, hreadUs, hwriteUs, hsize⟩ := h
  have hread : readShard (shardItem e : Json D) = some e.2 := by
    show (do
      let reads ← word (some (wordItem e.2.reads : Json D))
      let writes ← word (some (wordItem e.2.writes : Json D))
      let updates ← word (some (wordItem e.2.updates : Json D))
      let deletes ← word (some (wordItem e.2.deletes : Json D))
      let readUs ← word (some (wordItem e.2.readUs : Json D))
      let writeUs ← word (some (wordItem e.2.writeUs : Json D))
      let sizeBytes ← word (some (wordItem e.2.sizeBytes : Json D))
      some (ShardStat.mk reads writes updates deletes readUs writeUs sizeBytes)) = some e.2
    rw [word_wordItem hreads, word_wordItem hwrites, word_wordItem hupdates,
      word_wordItem hdeletes, word_wordItem hreadUs, word_wordItem hwriteUs, word_wordItem hsize]
    rfl
  show (readShard (shardItem e : Json D)).bind (fun read =>
    some { r with shards := Tallies.bump cutShard {} e.1 read.absorb r.shards }) = _
  rw [hread]
  rfl

theorem reportSlow_slowItem (r : Report) {e : SlowName × SlowStat}
    (h : ∀ w ∈ [e.2.count, e.2.totalUs, e.2.maxUs], Exact D w) :
    reportSlow r (slowItem e : Json D) =
      some { r with slow := Tallies.bump cutSlow 0 e.1 e.2.absorb r.slow } := by
  simp only [List.forall_mem_cons, List.not_mem_nil, false_imp_iff, implies_true, and_true] at h
  obtain ⟨hcount, htotal, hmax⟩ := h
  have hread : readSlow (slowItem e : Json D) = some e.2 := by
    show (do
      let count ← word (some (wordItem e.2.count : Json D))
      let totalUs ← word (some (wordItem e.2.totalUs : Json D))
      let maxUs ← word (some (wordItem e.2.maxUs : Json D))
      some (SlowStat.mk count totalUs maxUs)) = some e.2
    rw [word_wordItem hcount, word_wordItem htotal, word_wordItem hmax]
    rfl
  show (readSlow (slowItem e : Json D)).bind (fun read =>
    some { r with slow := Tallies.bump cutSlow {} e.1 read.absorb r.slow }) = _
  rw [hread]
  rfl

theorem foldlM_shardItem {t : List (ShardName × ShardStat)}
    (h : ∀ e ∈ t, ∀ w ∈ [e.2.reads, e.2.writes, e.2.updates, e.2.deletes, e.2.readUs, e.2.writeUs,
      e.2.sizeBytes], Exact D w) (r : Report) :
    (t.map (shardItem (D := D))).foldlM reportShard r =
      some { r with
        shards := Tallies.tally cutShard 0 Prod.fst (fun e => e.2.absorb) t r.shards } := by
  induction t generalizing r with
  | nil => rfl
  | cons e t ih =>
    obtain ⟨he, ht⟩ := List.forall_mem_cons.mp h
    rw [List.map_cons, List.foldlM_cons, reportShard_shardItem r he]
    exact ih ht _

theorem foldlM_slowItem {t : List (SlowName × SlowStat)}
    (h : ∀ e ∈ t, ∀ w ∈ [e.2.count, e.2.totalUs, e.2.maxUs], Exact D w) (r : Report) :
    (t.map (slowItem (D := D))).foldlM reportSlow r =
      some { r with slow := Tallies.tally cutSlow 0 Prod.fst (fun e => e.2.absorb) t r.slow } := by
  induction t generalizing r with
  | nil => rfl
  | cons e t ih =>
    obtain ⟨he, ht⟩ := List.forall_mem_cons.mp h
    rw [List.map_cons, List.foldlM_cons, reportSlow_slowItem r he]
    exact ih ht _

/-- **A snapshot** in a report. -/
theorem reportSnapshot_snapshotJson {a : Recorder} (ha : a.Exact D) (nodeId : CString) (now : Int)
    {pending : UInt64} (hpending : Exact D pending) (r : Report) :
    reportSnapshot r (snapshotJson a nodeId now (some (clusterMetrics pending)) : Json D) =
      some {
        nodes := r.nodes ++ [nodeId]
        shards := Tallies.tally cutShard 0 Prod.fst (fun e => e.2.absorb) a.shards r.shards
        slow := Tallies.tally cutSlow 0 Prod.fst (fun e => e.2.absorb) a.slow r.slow
        pendingChanges := r.pendingChanges + pending } := by
  show ((a.shards.map (shardItem (D := D))).foldlM reportShard
    { r with nodes := r.nodes ++ [nodeId] }).bind (fun r =>
      ((a.slow.map (slowItem (D := D))).foldlM reportSlow r).bind fun r =>
        (word (some (wordItem pending : Json D))).bind fun pending =>
          some { r with pendingChanges := r.pendingChanges + pending }) = _
  rw [foldlM_shardItem ha.shards, Option.bind_some, foldlM_slowItem ha.slow, Option.bind_some,
    word_wordItem hpending]
  rfl

end Snapshots

/-! ## The filters of a query -/

/-- `collect_filter_keys`. -/
def collectFilterKeys {D : Type} (filters : Option (Json D)) (cap : Nat) : List CString :=
  match filters with
  | some (.arr fs) => (fs.filterMap fun f => f.getStr (cstr "key")).take cap
  | some (.obj ms) => ((Json.obj ms).getStr (cstr "key")).toList.take cap
  | _ => []

/-- Keys that a joined text of fewer than `cap` bytes keeps apart. -/
structure Separate (cap : Nat) (keys : List CString) : Prop where
  plain : ∀ key ∈ keys, 44 ∉ key
  nonempty : ∀ key ∈ keys, key ≠ []
  fits : (keys.map fun key => key.length + 1).sum ≤ cap

instance (cap : Nat) (keys : List CString) : Decidable (Separate cap keys) :=
  decidable_of_iff ((∀ key ∈ keys, 44 ∉ key) ∧ (∀ key ∈ keys, key ≠ []) ∧
      (keys.map fun key => key.length + 1).sum ≤ cap)
    ⟨fun h => ⟨h.1, h.2.1, h.2.2⟩, fun h => ⟨h.plain, h.nonempty, h.fits⟩⟩

section FilterKeys

variable {cap : Nat} {keys keys' : List CString} {out : CString}

theorem Separate.perm (h : Separate cap keys) (hp : keys'.Perm keys) : Separate cap keys' where
  plain key hkey := h.plain key (hp.subset hkey)
  nonempty key hkey := h.nonempty key (hp.subset hkey)
  fits := by
    rw [(hp.map _).sum_eq]
    exact h.fits

/-- The text after its first key. -/
theorem joinFrom_rest (h : out.length + (keys.map fun key => key.length + 1).sum < cap) :
    joinFrom cap false out keys = out ++ keys.flatMap (44 :: ·) := by
  induction keys generalizing out with
  | nil => exact (List.append_nil out).symm
  | cons key keys ih =>
    rw [List.map_cons, List.sum_cons] at h
    have hroom : ¬ cap ≤ (out ++ [44]).length + key.length := by
      rw [List.length_append, List.length_singleton]
      omega
    have hnext : (out ++ [44] ++ key).length + (keys.map fun key => key.length + 1).sum < cap := by
      rw [List.length_append, List.length_append, List.length_singleton]
      omega
    have hcomma : addComma cap false out = out ++ [44] := if_pos ⟨rfl, by omega⟩
    rw [joinFrom, hcomma, if_neg hroom, ih hnext]
    simp

theorem intercalate_cons (key : CString) (keys : List CString) :
    [44].intercalate (key :: keys) = key ++ keys.flatMap (44 :: ·) := by
  induction keys generalizing key with
  | nil => simp
  | cons key' keys ih =>
    rw [List.intercalate_cons_cons, ih]
    simp

/-- Keys that fit are joined by commas. -/
theorem joinFilterKeys_of_fits (h : (keys.map fun key => key.length + 1).sum ≤ cap) :
    joinFilterKeys keys cap = [44].intercalate (keys.insertionSort (· ≤ ·)) := by
  have hsum := ((List.perm_insertionSort (· ≤ ·) keys).map fun key => key.length + 1).sum_eq
  rw [← hsum] at h
  unfold joinFilterKeys
  cases hsorted : keys.insertionSort (· ≤ ·) with
  | nil => rfl
  | cons key rest =>
    rw [hsorted, List.map_cons, List.sum_cons] at h
    have hroom : ¬ cap ≤ (addComma cap true []).length + key.length := by
      simp only [addComma, Bool.true_eq_false, false_and, if_false, List.length_nil]
      omega
    rw [intercalate_cons, joinFrom, if_neg hroom]
    have hrest : joinFrom cap false key rest = key ++ rest.flatMap (44 :: ·) :=
      joinFrom_rest (by omega)
    exact hrest

/-- The order of the keys does not matter. -/
theorem joinFilterKeys_perm (h : keys.Perm keys') (cap : Nat) :
    joinFilterKeys keys cap = joinFilterKeys keys' cap := by
  have hsorted : keys.insertionSort (· ≤ ·) = keys'.insertionSort (· ≤ ·) := by
    refine List.Perm.eq_of_sortedLE List.sortedLE_insertionSort List.sortedLE_insertionSort ?_
    exact (List.perm_insertionSort _ _).trans (h.trans (List.perm_insertionSort _ _).symm)
  rw [joinFilterKeys, hsorted, joinFilterKeys]

/-- Keys without commas are the parts of their text. -/
theorem eq_of_intercalate_eq (h : Separate cap keys) (h' : Separate cap keys')
    (heq : [44].intercalate keys = [44].intercalate keys') : keys = keys' := by
  have hempty {l : List CString} (hl : ∀ key ∈ l, key ≠ [])
      (hnil : [44].intercalate l = []) : l = [] := by
    cases l with
    | nil => rfl
    | cons key rest =>
      rw [intercalate_cons, List.append_eq_nil_iff] at hnil
      exact absurd hnil.1 (hl key List.mem_cons_self)
  by_cases hk : keys = []
  · subst hk
    exact (hempty h'.nonempty heq.symm).symm
  · have hk' : keys' ≠ [] := by
      rintro rfl
      exact hk (hempty h.nonempty heq)
    have hparts := (Joined.intercalate_eq_iff hk hk').mp heq
    rwa [Joined.parts_of_plain h.plain, Joined.parts_of_plain h'.plain] at hparts

/-- **Separate keys** are joined to the same text in every order, and in no other case. -/
theorem joinFilterKeys_eq_iff (h : Separate cap keys) (h' : Separate cap keys') :
    joinFilterKeys keys cap = joinFilterKeys keys' cap ↔ keys.Perm keys' := by
  refine ⟨fun heq => ?_, fun hp => joinFilterKeys_perm hp cap⟩
  rw [joinFilterKeys_of_fits h.fits, joinFilterKeys_of_fits h'.fits] at heq
  have hp := List.perm_insertionSort (· ≤ ·) keys
  have hp' := List.perm_insertionSort (· ≤ ·) keys'
  have hsorted := eq_of_intercalate_eq (h.perm hp) (h'.perm hp') heq
  exact hp.symm.trans (hsorted ▸ hp')

example : joinFilterKeys [cstr "a", cstr "b"] 256 = joinFilterKeys [cstr "a,b"] 256 := by decide

theorem length_joinFrom_lt (first : Bool) (h : out.length < cap) :
    (joinFrom cap first out keys).length < cap := by
  induction keys generalizing first out with
  | nil => exact h
  | cons key keys ih =>
    have hcomma : (addComma cap first out).length < cap := by
      unfold addComma
      split
      · next hroom =>
        rw [List.length_append, List.length_singleton]
        exact hroom.2
      · exact h
    rw [joinFrom]
    split
    · exact hcomma
    · next hroom =>
      refine ih false ?_
      rw [List.length_append]
      omega

end FilterKeys

variable {D : Type}

/-- A query over these filters. -/
def querySample (partition keyspace : CString) (filters : Option (Json D)) (latencyUs : Int64) :
    Sample where
  op := .query (collectFilterKeys filters 64)
  partition := partition
  keyspace := keyspace
  latencyUs := latencyUs

/-- **Queries with the same filters** are counted as one, in whatever order a request lists its
filters; other queries on the shard are not. -/
theorem slowName_eq_iff {fs fs' : List (Json D)} {partition keyspace : CString} {t t' : Int64}
    (hfew : (fs.filterMap fun f => f.getStr (cstr "key")).length ≤ 64)
    (hfew' : (fs'.filterMap fun f => f.getStr (cstr "key")).length ≤ 64)
    (h : Separate 256 (fs.filterMap fun f => f.getStr (cstr "key")))
    (h' : Separate 256 (fs'.filterMap fun f => f.getStr (cstr "key"))) :
    cutSlow (querySample partition keyspace (some (.arr fs)) t).slowName =
        cutSlow (querySample partition keyspace (some (.arr fs')) t').slowName ↔
      (fs.filterMap fun f => f.getStr (cstr "key")).Perm
        (fs'.filterMap fun f => f.getStr (cstr "key")) := by
  rw [← joinFilterKeys_eq_iff h h']
  have hshort (keys : List CString) : snprintf 256 (joinFilterKeys keys 256) =
      joinFilterKeys keys 256 := snprintf_of_lt (length_joinFrom_lt true (by decide))
  simp only [querySample, Sample.slowName, cutSlow, collectFilterKeys, hshort,
    List.take_of_length_le hfew, List.take_of_length_le hfew', SlowName.mk.injEq, true_and]

/-- The filters of a request, in two orders. -/
theorem slowName_twoFilters :
    cutSlow (querySample [112] [107] (some (.arr [.obj [(cstr "key", .str (cstr "age"))],
        .obj [(cstr "key", .str (cstr "name"))]] : Json Int)) 5).slowName =
      cutSlow (querySample [112] [107] (some (.arr [.obj [(cstr "key", .str (cstr "name"))],
        .obj [(cstr "key", .str (cstr "age"))]] : Json Int)) 7).slowName :=
  (slowName_eq_iff (by decide) (by decide) (by decide) (by decide)).mpr (by decide)

end EpsilonDB
