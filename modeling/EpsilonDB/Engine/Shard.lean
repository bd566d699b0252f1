import EpsilonDB.Engine.CString
import Mathlib.Data.Int.ConditionallyCompleteOrder
import Mathlib.Data.List.AList
import Mathlib.Data.List.Sort
import Mathlib.Data.Prod.Lex
import Mathlib.Order.ConditionallyCompleteLattice.Basic
import Mathlib.Order.WithBot

/-!
# The shard store (`engine/shard.c`)

One SQLite table `Data(id, value, ttl, timestamp, origin)` keyed by `id`. A
nullable column is an `Option`; SQLite's statements are taken to succeed, and
timestamps to be exact where they travel as JSON numbers (below `2 ^ 53`).

- `Row`, `Shard`: a row, and the table as a duplicate-free association list.
- `edbShardReplicaPut` / `edbShardReplicaDelete`: the replicated writes, each
  refused when the stored version is newer (`storedVersionLocked`).
- `edbShardPut` / `edbShardDelete` / `edbShardCleanup`: the local writes.
- `edbShardGetTs`, `edbShardIds`, `collectValues`: the reads. A document is what
  `parse` makes of the stored text, the vendored JSON parser being a parameter.
-/

namespace EpsilonDB

/-- A row of `Data` without its key. -/
structure Row where
  value : Option CString
  ttl : Option Int
  timestamp : Option Int
  origin : Option CString
deriving DecidableEq

/-- The table: `id` is its primary key. -/
abbrev Shard := AList fun _ : CString => Row

/-! ## Writes -/

/-- The row `do_put_locked` binds: a negative expiry is stored as NULL. -/
def putRow (jsonValue : CString) (ttlAbsolute timestamp : Int) (origin : CString) : Row where
  value := some jsonValue
  ttl := if 0 ≤ ttlAbsolute then some ttlAbsolute else none
  timestamp := some timestamp
  origin := some origin

/-- The tombstone of `edb_shard_replica_delete`. -/
def deleteRow (timestamp : Int) (origin : CString) : Row where
  value := none
  ttl := some (timestamp - 5)
  timestamp := some timestamp
  origin := some origin

/-- `INSERT OR REPLACE INTO Data`. -/
def doPutLocked (sh : Shard) (id jsonValue : CString) (ttlAbsolute timestamp : Int)
    (origin : CString) : Shard :=
  sh.insert id (putRow jsonValue ttlAbsolute timestamp origin)

/-- The stored timestamp and origin of `id`, tombstones included; a row whose
timestamp is NULL counts as missing. The origin is copied into 64 bytes. -/
def storedVersionLocked (sh : Shard) (id : CString) : Option (Int × CString) :=
  match sh.lookup id with
  | none => none
  | some r => r.timestamp.map fun ts => (ts, snprintf 64 (r.origin.getD []))

/-- The guard of both replicated writes: the stored version is newer. -/
def storedNewer (stored : Option (Int × CString)) (timestamp : Int) (origin : CString) :
    Bool :=
  match stored with
  | none => false
  | some (storedTs, storedOrigin) =>
    decide (storedTs > timestamp) ||
      (decide (storedTs = timestamp) && decide (storedOrigin > origin))

/-- Apply a replicated write. A NULL origin of the C caller is `[]` here. -/
def edbShardReplicaPut (sh : Shard) (id jsonValue : CString) (ttlAbsolute timestamp : Int)
    (origin : CString) : Shard :=
  if storedNewer (storedVersionLocked sh id) timestamp origin then sh
  else doPutLocked sh id jsonValue ttlAbsolute timestamp origin

/-- Apply a replicated delete: a tombstone upsert. -/
def edbShardReplicaDelete (sh : Shard) (id : CString) (timestamp : Int)
    (origin : CString) : Shard :=
  if storedNewer (storedVersionLocked sh id) timestamp origin then sh
  else sh.insert id (deleteRow timestamp origin)

/-- A local put at clock `now`. -/
def edbShardPut (now : Int) (sh : Shard) (id jsonValue : CString) (ttlSeconds : Int) :
    Shard :=
  doPutLocked sh id jsonValue (if 0 ≤ ttlSeconds then now + ttlSeconds else -1) now []

/-- A local soft delete: an `UPDATE`, so a missing row stays missing. -/
def edbShardDelete (now : Int) (sh : Shard) (id : CString) : Shard :=
  match sh.lookup id with
  | none => sh
  | some r => sh.insert id { r with ttl := some (now - 5), timestamp := some now }

/-- `EDB_CLEANUP_GRACE_SECONDS`. -/
def cleanupGraceSeconds : Int := 7200

/-- Rows expired for longer than the grace window are removed. -/
def edbShardCleanup (now : Int) (sh : Shard) : Shard where
  entries := sh.entries.filter fun e =>
    !(e.2.ttl.any fun t => decide (t < now - cleanupGraceSeconds))
  nodupKeys := sh.nodupKeys.sublist List.filter_sublist

/-- A soft delete changes the record it names. -/
theorem lookup_edbShardDelete (now : Int) (sh : Shard) (id id' : CString) :
    (edbShardDelete now sh id).lookup id' =
      if id' = id then (sh.lookup id).map fun r =>
        { r with ttl := some (now - 5), timestamp := some now }
      else sh.lookup id' := by
  unfold edbShardDelete
  by_cases h : id' = id
  · subst h
    rw [if_pos rfl]
    cases hr : sh.lookup id' with
    | none => exact hr
    | some r => exact AList.lookup_insert _
  · rw [if_neg h]
    split
    · rfl
    · exact AList.lookup_insert_ne h

/-! ## Replicated changes -/

/-- What a replicated change does to its record. -/
inductive Op where
  | put (value : CString) (ttlAbsolute : Int)
  | delete
deriving DecidableEq

/-- A replicated change of one record of one shard. -/
structure Change where
  id : CString
  op : Op
  ts : Int
  origin : CString
deriving DecidableEq

/-- The row the change writes when it is not refused. -/
def Change.row (c : Change) : Row :=
  match c.op with
  | .put value ttlAbsolute => putRow value ttlAbsolute c.ts c.origin
  | .delete => deleteRow c.ts c.origin

/-- Dispatch of a change to the shard operation of its kind. -/
def applyChange (sh : Shard) (c : Change) : Shard :=
  match c.op with
  | .put value ttlAbsolute => edbShardReplicaPut sh c.id value ttlAbsolute c.ts c.origin
  | .delete => edbShardReplicaDelete sh c.id c.ts c.origin

/-- Changes applied in delivery order. -/
def applyAll (sh : Shard) (cs : List Change) : Shard := cs.foldl applyChange sh

theorem applyChange_eq (sh : Shard) (c : Change) :
    applyChange sh c =
      if storedNewer (storedVersionLocked sh c.id) c.ts c.origin then sh
      else sh.insert c.id c.row := by
  obtain ⟨id, op, ts, origin⟩ := c
  cases op <;> rfl

theorem Change.row_timestamp (c : Change) : c.row.timestamp = some c.ts := by
  obtain ⟨id, op, ts, origin⟩ := c
  cases op <;> rfl

theorem Change.row_origin (c : Change) : c.row.origin = some c.origin := by
  obtain ⟨id, op, ts, origin⟩ := c
  cases op <;> rfl

/-! ## Reads -/

section Reads

variable {V : Type} (parse : CString → Option V)

/-- `ttl IS NULL OR ttl >= now`. -/
def Row.live (now : Int) (r : Row) : Bool :=
  match r.ttl with
  | none => true
  | some t => decide (now ≤ t)

/-- The parsed document of a row: NULL, empty and malformed texts have none. -/
def Row.document (r : Row) : Option V :=
  match r.value with
  | none => none
  | some text => if text = [] then none else parse text

/-- The compiled filter conditions: SQLite evaluates them on the stored document,
and a NULL value satisfies none of them. -/
def Row.selected (filters : Option (V → Bool)) (r : Row) : Bool :=
  match filters with
  | none => true
  | some sat => (r.document parse).any sat

/-- The rows a live query with filters ranges over, as SQLite steps through the table: by rowid,
and a row that is put again gets a new one. -/
def liveRows (now : Int) (filters : Option (V → Bool)) (sh : Shard) :
    List (CString × Row) :=
  (sh.entries.reverse.map fun e => (e.1, e.2)).filter fun e =>
    e.2.live now && e.2.selected parse filters

/-- The live document of `id` with its timestamp (0 when the column is NULL). -/
def edbShardGetTs (now : Int) (sh : Shard) (id : CString) : Option (V × Int) :=
  match sh.lookup id with
  | none => none
  | some r =>
    if r.live now then (r.document parse).map fun v => (v, r.timestamp.getD 0) else none

/-- The timestamp as SQLite sorts it: NULL first. -/
def Row.sortKey (r : Row) : WithBot Int := r.timestamp

/-- `SELECT id ... ORDER BY timestamp ASC`. -/
def edbShardIds (now : Int) (filters : Option (V → Bool)) (sh : Shard) : List CString :=
  ((liveRows parse now filters sh).insertionSort fun a b => a.2.sortKey ≤ b.2.sortKey).map
    Prod.fst

/-- `collect_values` with `meta`: id, timestamp and document of the selected
rows; a row whose text does not parse is skipped. -/
def collectValues (now : Int) (filters : Option (V → Bool)) (sh : Shard) :
    List (CString × Int × V) :=
  (liveRows parse now filters sh).filterMap fun e =>
    (e.2.document parse).map fun v => (e.1, e.2.timestamp.getD 0, v)

/-- `edb_shard_all_ts`. -/
def edbShardAllTs (now : Int) (filters : Option (V → Bool)) (sh : Shard) :
    List (CString × Int × V) :=
  collectValues parse now filters sh

/-- `edb_shard_query_ts`. -/
def edbShardQueryTs (now : Int) (filters : Option (V → Bool)) (sh : Shard) :
    List (CString × Int × V) :=
  collectValues parse now filters sh

/-! ### The reads of one record -/

variable {parse}

/-- A record is read of its row alone. -/
theorem edbShardGetTs_congr (now : Int) {sh sh' : Shard} {id : CString}
    (h : sh.lookup id = sh'.lookup id) :
    edbShardGetTs parse now sh id = edbShardGetTs parse now sh' id := by
  rw [edbShardGetTs, edbShardGetTs, h]

/-- The entries of an id are its row. -/
theorem filter_entries (sh : Shard) (id : CString) :
    sh.entries.filter (fun e => decide (e.1 = id)) = (sh.lookup id).toList.map (Sigma.mk id) := by
  obtain ⟨entries, hnodup⟩ := sh
  show entries.filter _ = (List.dlookup id entries).toList.map (Sigma.mk id)
  induction entries with
  | nil => rfl
  | cons e entries ih =>
    obtain ⟨k, r⟩ := e
    obtain ⟨hk, hrest⟩ := List.nodupKeys_cons.mp hnodup
    by_cases hid : k = id
    · subst hid
      have hnone : List.dlookup k entries = none := List.dlookup_eq_none.mpr hk
      rw [List.filter_cons, if_pos (decide_eq_true rfl), ih hrest, hnone, List.dlookup_cons_eq]
      rfl
    · rw [List.filter_cons, if_neg (by simpa using hid), ih hrest,
        List.dlookup_cons_ne _ _ (Ne.symm hid)]

/-- The live selected row of an id. -/
theorem filter_liveRows (now : Int) (filters : Option (V → Bool)) (sh : Shard) (id : CString) :
    (liveRows parse now filters sh).filter (fun e => decide (e.1 = id)) =
      ((sh.lookup id).filter fun r => r.live now && r.selected parse filters).toList.map
        fun r => (id, r) := by
  rw [liveRows, List.filter_filter]
  have hswap : ((sh.entries.reverse.map fun e => (e.1, e.2)).filter fun e =>
      decide (e.1 = id) && (e.2.live now && e.2.selected parse filters)) =
      (((sh.entries.filter fun e => decide (e.1 = id)).reverse.map fun e => (e.1, e.2)).filter
        fun e => e.2.live now && e.2.selected parse filters) := by
    rw [← List.filter_reverse, List.filter_map, List.filter_map, List.filter_filter]
    refine congrArg _ (List.filter_congr fun e _ => ?_)
    rw [Function.comp_apply, Function.comp_apply, Bool.and_comm]
  rw [hswap, filter_entries]
  cases sh.lookup id with
  | none => rfl
  | some r =>
    cases hr : (r.live now && r.selected parse filters)
    · simp only [Option.toList_some, List.map_cons, List.map_nil,
        List.reverse_singleton, List.filter_cons, List.filter_nil, hr, Option.filter_some]
      rfl
    · simp only [Option.toList_some, List.map_cons, List.map_nil,
        List.reverse_singleton, List.filter_cons, List.filter_nil, hr, Option.filter_some]
      rfl

theorem mem_liveRows {now : Int} {filters : Option (V → Bool)} {sh : Shard} {id : CString}
    {r : Row} : (id, r) ∈ liveRows parse now filters sh ↔
      sh.lookup id = some r ∧ (r.live now && r.selected parse filters) = true := by
  have h : (id, r) ∈ (liveRows parse now filters sh).filter (fun e => decide (e.1 = id)) ↔
      (id, r) ∈ liveRows parse now filters sh := by simp
  rw [← h, filter_liveRows]
  simp only [List.mem_map, Option.mem_toList, Option.filter_eq_some_iff, Prod.mk.injEq,
    true_and, exists_eq_right]

theorem perm_edbShardIds (now : Int) (filters : Option (V → Bool)) (sh : Shard) :
    (edbShardIds parse now filters sh).Perm ((liveRows parse now filters sh).map Prod.fst) :=
  (List.perm_insertionSort _ _).map _

/-- Each id is listed once. -/
theorem nodup_edbShardIds (now : Int) (filters : Option (V → Bool)) (sh : Shard) :
    (edbShardIds parse now filters sh).Nodup := by
  have hkeys : (liveRows parse now filters sh).map Prod.fst |>.Nodup := by
    have hentries : ((sh.entries.reverse.map fun e => (e.1, e.2)).map Prod.fst).Nodup := by
      rw [List.map_map, List.map_reverse, List.nodup_reverse]
      exact sh.nodupKeys
    exact hentries.sublist (List.filter_sublist.map _)
  exact (perm_edbShardIds now filters sh).nodup_iff.mpr hkeys

theorem mem_edbShardIds {now : Int} {filters : Option (V → Bool)} {sh : Shard} {id : CString} :
    id ∈ edbShardIds parse now filters sh ↔
      ∃ r, sh.lookup id = some r ∧ (r.live now && r.selected parse filters) = true := by
  rw [(perm_edbShardIds now filters sh).mem_iff, List.mem_map]
  constructor
  · rintro ⟨⟨_, r⟩, hmem, rfl⟩
    exact ⟨r, mem_liveRows.mp hmem⟩
  · rintro ⟨r, h⟩
    exact ⟨(id, r), mem_liveRows.mpr h, rfl⟩

/-- The collected rows of an id: its live document, when the filters accept it. -/
theorem filter_collectValues (now : Int) (filters : Option (V → Bool)) (sh : Shard)
    (id : CString) :
    (collectValues parse now filters sh).filter (fun e => decide (e.1 = id)) =
      ((edbShardGetTs parse now sh id).filter fun d => filters.all fun sat => sat d.1).toList.map
        fun d => (id, d.2, d.1) := by
  have hswap : (collectValues parse now filters sh).filter (fun e => decide (e.1 = id)) =
      ((liveRows parse now filters sh).filter fun e => decide (e.1 = id)).filterMap fun e =>
        (e.2.document parse).map fun v => (e.1, e.2.timestamp.getD 0, v) := by
    rw [collectValues, List.filter_filterMap, List.filterMap_filter]
    refine List.filterMap_congr fun e _ => ?_
    by_cases he : e.1 = id
    · cases e.2.document parse <;> simp [he]
    · cases e.2.document parse <;> simp [he]
  rw [hswap, filter_liveRows, edbShardGetTs]
  cases sh.lookup id with
  | none => rfl
  | some r =>
    cases hlive : r.live now
    · simp [hlive]
    · cases hdoc : r.document parse with
      | none => cases filters <;> simp [hlive, hdoc, Row.selected]
      | some v =>
        cases filters with
        | none => simp [hlive, hdoc, Row.selected, Option.filter_some]
        | some sat =>
          cases hsat : sat v <;>
            simp [hlive, hdoc, Row.selected, Option.filter_some, hsat]

end Reads

end EpsilonDB
