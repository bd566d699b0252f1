import EpsilonDB.Engine.CString
import EpsilonDB.Lib.Counted
import EpsilonDB.Lib.Runs
import Mathlib.Logic.Function.Basic

/-!
# The handles of open shards (`engine/manager.c`)

A table keeps one handle for each open shard. Threads take references to the handles in it, and
give them back; a garbage collection takes a handle out of the table. All this happens in short
sections under the manager's lock, and a handle is opened before such a section and freed after
one.

- `Handle`, `Manager`: the handles, the table, and what the threads hold between two sections.
- `insertShard`, `shardRelease`, `edbShardGc`, `cleanupAllShards`, `maintainPartition`: the
  sections.
- `Manager.Label`, `Manager.step`: the steps of any number of threads.
- `Manager.object`: a handle as a counted object, which the table or the thread that has opened
  it owns. `moves_step`: a step only moves the objects.
- `Consistent`: the counts and marks of the code are what they stand for.
- `Lifecycle`, `handle_lifecycle`: what holds of the handles in every run.
-/

namespace EpsilonDB

/-- `edb_shard`: the key of a shard is a digest of its partition and keyspace. -/
structure Handle where
  key : CString
  refs : Nat := 0
  retired : Bool := false

/-- `edb_shard_manager`, and what the threads hold. -/
structure Manager where
  handle : Nat → Handle := fun _ => { key := [] }
  /-- how many handles were opened so far -/
  opened : Nat := 0
  /-- the links in all buckets -/
  table : List Nat := []
  /-- handles that a thread has opened and not inserted yet -/
  opening : List Nat := []
  /-- the references the threads have, one entry each -/
  users : List Nat := []
  /-- handles that a thread is about to free -/
  freeing : List Nat := []
  /-- one entry for each `edb_shard_free` that is done -/
  freed : List Nat := []
  /-- handles that were in the table at some time -/
  entered : List Nat := []
  /-- references that were ever given to a thread -/
  handedOut : List Nat := []

namespace Manager

/-- `find_locked`. The bucket of a key is found by the key. -/
def findLocked (m : Manager) (key : CString) : Option Nat :=
  m.table.find? fun i => (m.handle i).key = key

/-- Write to a handle. -/
def write (m : Manager) (i : Nat) (f : Handle → Handle) : Manager :=
  { m with handle := Function.update m.handle i (f (m.handle i)) }

/-- Take a reference: `refs++`. -/
def acquire (m : Manager) (i : Nat) : Manager :=
  { m.write i fun h => { h with refs := h.refs + 1 } with
    users := i :: m.users, handedOut := i :: m.handedOut }

/-- `edb_shard_open`. -/
def edbShardOpen (m : Manager) (key : CString) : Manager :=
  { m.write m.opened fun _ => { key } with
    opened := m.opened + 1, opening := m.opened :: m.opening }

/-- The first section of `shard_for`. -/
def lookup (m : Manager) (key : CString) : Manager :=
  match m.findLocked key with
  | some i => m.acquire i
  | none => m

/-- `insert_shard`; there may be no memory for the link. The caller drops a handle whose key is
there. -/
def insertShard (m : Manager) (i : Nat) (acquires noMemory : Bool) : Manager :=
  let dropped := { m with opening := m.opening.erase i, freeing := i :: m.freeing }
  match m.findLocked (m.handle i).key with
  | some existing => if acquires then dropped.acquire existing else dropped
  | none =>
    if noMemory then dropped
    else
      let linked := { m.write i fun h => { h with refs := 0 } with
        opening := m.opening.erase i, table := i :: m.table, entered := i :: m.entered }
      if acquires then linked.acquire i else linked

/-- `shard_release`. -/
def shardRelease (m : Manager) (i : Nat) : Manager :=
  let refs := if 0 < (m.handle i).refs then (m.handle i).refs - 1 else (m.handle i).refs
  let released := { m.write i fun h => { h with refs } with users := m.users.erase i }
  if (m.handle i).retired ∧ refs = 0 then { released with freeing := i :: m.freeing }
  else released

/-- The section of `edb_shard_gc`: the handle is unlinked and retired, and the collection keeps a
reference until the file is gone. -/
def edbShardGc (m : Manager) (key : CString) : Manager :=
  match m.findLocked key with
  | some i =>
    ({ m.write i fun h => { h with retired := true } with table := m.table.erase i }).acquire i
  | none => m

/-- Take a reference to each of these. -/
def acquireAll (m : Manager) (l : List Nat) : Manager := l.foldl acquire m

/-- The section of `cleanup_all_shards`; there may be no memory for its array. -/
def cleanupAllShards (m : Manager) (noMemory : Bool) : Manager :=
  if m.table ≠ [] ∧ noMemory then m else m.acquireAll m.table

/-- The section of `maintain_partition`, which takes the handles of a partition. A handle may
get its partition while they are counted, so these can be any. -/
def maintainPartition (m : Manager) (ofPartition : List Nat) : Manager :=
  m.acquireAll (m.table.filter (· ∈ ofPartition))

inductive Label where
  | lookup (key : CString)
  /-- `edb_shard_open` of `shard_for` or of `edb_engine_open` -/
  | openShard (key : CString)
  | insert (i : Nat) (acquires noMemory : Bool)
  | release (i : Nat)
  | gc (key : CString)
  | cleanup (noMemory : Bool)
  | maintain (ofPartition : List Nat)
  /-- `edb_shard_free`, after the section that has decided it -/
  | free (i : Nat)
deriving DecidableEq

/-- One step. A thread inserts what it has opened, gives back what it holds, and frees what it
is about to free. -/
def step (m : Manager) : Label → Option Manager
  | .lookup key => some (m.lookup key)
  | .openShard key => some (m.edbShardOpen key)
  | .insert i acquires noMemory =>
    if i ∈ m.opening then some (m.insertShard i acquires noMemory) else none
  | .release i => if i ∈ m.users then some (m.shardRelease i) else none
  | .gc key => some (m.edbShardGc key)
  | .cleanup noMemory => some (m.cleanupAllShards noMemory)
  | .maintain ofPartition => some (m.maintainPartition ofPartition)
  | .free i =>
    if i ∈ m.freeing then some { m with freeing := m.freeing.erase i, freed := i :: m.freed }
    else none

/-! ## What the marks stand for -/

/-- The counts and marks of the code are what they stand for. -/
structure Consistent (m : Manager) : Prop where
  keys : (m.table.map fun i => (m.handle i).key).Nodup
  refs : ∀ i, (m.handle i).refs = m.users.count i
  retired : ∀ i, (m.handle i).retired = true ↔ i ∈ m.entered ∧ i ∉ m.table
  table : ∀ i ∈ m.table, i ∈ m.entered
  users : ∀ i ∈ m.users, i ∈ m.entered
  handedOut : ∀ i ∈ m.handedOut, i ∈ m.entered
  opening : m.opening.Nodup ∧ ∀ i ∈ m.opening, i ∉ m.entered ∧ i < m.opened
  entered : ∀ i ∈ m.entered, i < m.opened
  freeing : ∀ i ∈ m.freeing ++ m.freed, i < m.opened

/-- A handle as a counted object. Its owner is the thread that has opened it, and then the
table. -/
def object (m : Manager) (i : Nat) : Counted.Obj where
  owned := decide (i ∈ m.opening ∨ i ∈ m.table)
  users := m.users.count i
  freeing := m.freeing.count i
  frees := m.freed.count i

theorem findLocked_spec {m : Manager} {key : CString} {i : Nat} (h : m.findLocked key = some i) :
    i ∈ m.table ∧ (m.handle i).key = key :=
  ⟨List.mem_of_find?_eq_some h, by simpa using List.find?_some h⟩

theorem findLocked_eq_none {m : Manager} {key : CString} (h : m.findLocked key = none) :
    key ∉ m.table.map fun i => (m.handle i).key := by
  intro hmem
  obtain ⟨i, hi, hkey⟩ := List.mem_map.mp hmem
  have hno := List.find?_eq_none.mp h i hi
  exact hno (decide_eq_true hkey)

/-! ## References -/

theorem write_handle (m : Manager) (i : Nat) (f : Handle → Handle) (j : Nat) :
    (m.write i f).handle j = if j = i then f (m.handle i) else m.handle j :=
  Function.update_apply _ _ _ _

section Acquire

variable (m : Manager)

@[simp] theorem acquire_table (i : Nat) : (m.acquire i).table = m.table := rfl
@[simp] theorem acquire_opening (i : Nat) : (m.acquire i).opening = m.opening := rfl
@[simp] theorem acquire_freeing (i : Nat) : (m.acquire i).freeing = m.freeing := rfl
@[simp] theorem acquire_freed (i : Nat) : (m.acquire i).freed = m.freed := rfl
@[simp] theorem acquire_entered (i : Nat) : (m.acquire i).entered = m.entered := rfl
@[simp] theorem acquire_opened (i : Nat) : (m.acquire i).opened = m.opened := rfl

theorem acquire_handle (i j : Nat) : (m.acquire i).handle j =
    if j = i then { m.handle i with refs := (m.handle i).refs + 1 } else m.handle j :=
  m.write_handle i (fun h => { h with refs := h.refs + 1 }) j

@[simp] theorem acquire_key (i j : Nat) : ((m.acquire i).handle j).key = (m.handle j).key := by
  rw [acquire_handle]
  split
  · rename_i h
    rw [h]
  · rfl

@[simp] theorem acquire_retired (i j : Nat) :
    ((m.acquire i).handle j).retired = (m.handle j).retired := by
  rw [acquire_handle]
  split
  · rename_i h
    rw [h]
  · rfl

theorem acquire_refs (i j : Nat) :
    ((m.acquire i).handle j).refs = (m.handle j).refs + if i = j then 1 else 0 := by
  rw [acquire_handle]
  by_cases h : j = i
  · subst h
    rw [if_pos rfl, if_pos rfl]
  · rw [if_neg h, if_neg (Ne.symm h)]
    rfl

@[simp] theorem acquireAll_table (l : List Nat) : (m.acquireAll l).table = m.table := by
  induction l generalizing m with
  | nil => rfl
  | cons i l ih => exact ih (m.acquire i)

@[simp] theorem acquireAll_opened (l : List Nat) : (m.acquireAll l).opened = m.opened := by
  induction l generalizing m with
  | nil => rfl
  | cons i l ih => exact ih (m.acquire i)

end Acquire

/-- A reference to a handle that is, or was, in the table. -/
theorem Consistent.acquire {m : Manager} (h : m.Consistent) {i : Nat} (hi : i ∈ m.entered) :
    (m.acquire i).Consistent where
  keys := by simpa using h.keys
  refs := by
    intro j
    rw [acquire_refs, h.refs j]
    show _ = (i :: m.users).count j
    rw [List.count_cons]
    simp [beq_iff_eq]
  retired := by simpa using h.retired
  table := h.table
  users := by
    intro j hj
    rcases List.mem_cons.mp hj with rfl | hj
    · exact hi
    · exact h.users j hj
  handedOut := by
    intro j hj
    rcases List.mem_cons.mp hj with rfl | hj
    · exact hi
    · exact h.handedOut j hj
  opening := h.opening
  entered := h.entered
  freeing := h.freeing

theorem Consistent.acquireAll {m : Manager} (h : m.Consistent) {l : List Nat}
    (hl : ∀ i ∈ l, i ∈ m.entered) : (m.acquireAll l).Consistent := by
  induction l generalizing m with
  | nil => exact h
  | cons i l ih =>
    exact ih (h.acquire (hl i List.mem_cons_self)) fun j hj => hl j (List.mem_cons_of_mem i hj)

/-! ## The sections -/

section Sections

variable {m : Manager}

/-- A write that leaves the key alone. -/
theorem write_key {i : Nat} {f : Handle → Handle} (hf : (f (m.handle i)).key = (m.handle i).key)
    (j : Nat) : ((m.write i f).handle j).key = (m.handle j).key := by
  rw [write_handle]
  split
  · rename_i h
    rw [h]
    exact hf
  · rfl

/-- A handle that was opened and not inserted has no user. -/
theorem Consistent.count_of_opening (h : m.Consistent) {i : Nat} (hi : i ∈ m.opening) :
    m.users.count i = 0 :=
  List.count_eq_zero.mpr fun hmem => (h.opening.2 i hi).1 (h.users i hmem)

theorem Consistent.nodup_table (h : m.Consistent) : m.table.Nodup :=
  List.Pairwise.of_map _ (fun _ _ hne heq => hne (congrArg (fun i => (m.handle i).key) heq)) h.keys

theorem edbShardOpen_handle (m : Manager) (key : CString) (j : Nat) :
    (m.edbShardOpen key).handle j = if j = m.opened then { key } else m.handle j :=
  m.write_handle m.opened (fun _ => { key }) j

theorem Consistent.edbShardOpen (h : m.Consistent) (key : CString) :
    (m.edbShardOpen key).Consistent := by
  have hfresh : m.opened ∉ m.entered := fun hmem => absurd (h.entered _ hmem) (lt_irrefl _)
  have hkept : ∀ j ∈ m.table, (m.edbShardOpen key).handle j = m.handle j := by
    intro j hj
    refine (m.edbShardOpen_handle key j).trans (if_neg ?_)
    rintro rfl
    exact hfresh (h.table _ hj)
  -- the new handle is known to nobody else
  refine ⟨?_, fun j => ?_, fun j => ?_, h.table, h.users, h.handedOut, ⟨?_, ?_⟩, ?_, ?_⟩
  · show (m.table.map fun i => ((m.edbShardOpen key).handle i).key).Nodup
    rw [List.map_congr_left fun j hj => congrArg Handle.key (hkept j hj)]
    exact h.keys
  · rw [edbShardOpen_handle]
    split
    · rename_i hj
      subst hj
      exact (List.count_eq_zero.mpr fun hmem => hfresh (h.users _ hmem)).symm
    · exact h.refs j
  · rw [edbShardOpen_handle]
    split
    · rename_i hj
      subst hj
      exact iff_of_false Bool.false_ne_true fun hentered => hfresh hentered.1
    · exact h.retired j
  · refine List.nodup_cons.mpr ⟨fun hmem => ?_, h.opening.1⟩
    exact absurd (h.opening.2 _ hmem).2 (lt_irrefl _)
  · intro j hj
    rcases List.mem_cons.mp hj with rfl | hj
    · exact ⟨hfresh, Nat.lt_succ_self _⟩
    · exact (h.opening.2 j hj).imp_right Nat.lt_succ_of_lt
  · exact fun j hj => Nat.lt_succ_of_lt (h.entered j hj)
  · exact fun j hj => Nat.lt_succ_of_lt (h.freeing j hj)

/-- The caller drops the handle it has opened. -/
theorem Consistent.dropped (h : m.Consistent) {i : Nat} (hi : i ∈ m.opening) :
    Consistent { m with opening := m.opening.erase i, freeing := i :: m.freeing } where
  keys := h.keys
  refs := h.refs
  retired := h.retired
  table := h.table
  users := h.users
  handedOut := h.handedOut
  opening := ⟨h.opening.1.erase i, fun j hj => h.opening.2 j (List.mem_of_mem_erase hj)⟩
  entered := h.entered
  freeing := by
    intro j hj
    rcases List.mem_cons.mp hj with rfl | hj
    · exact (h.opening.2 j hi).2
    · exact h.freeing j hj

/-- The table takes the handle. -/
theorem Consistent.linked (h : m.Consistent) {i : Nat} (hi : i ∈ m.opening)
    (hkey : m.findLocked (m.handle i).key = none) :
    Consistent { m.write i fun h => { h with refs := 0 } with
      opening := m.opening.erase i, table := i :: m.table, entered := i :: m.entered } := by
  obtain ⟨hnew, hbound⟩ := h.opening.2 i hi
  -- the handle goes from the opener to the table, with the same users
  refine ⟨?_, fun j => ?_, fun j => ?_, ?_, ?_, ?_, ⟨h.opening.1.erase i, ?_⟩, ?_, h.freeing⟩
  · have hkeys : ((i :: m.table).map fun j =>
        ((m.write i fun h => { h with refs := 0 }).handle j).key) =
        (i :: m.table).map fun j => (m.handle j).key :=
      List.map_congr_left fun j _ => write_key (m := m) rfl j
    show ((i :: m.table).map _).Nodup
    rw [hkeys, List.map_cons, List.nodup_cons]
    exact ⟨findLocked_eq_none hkey, h.keys⟩
  · dsimp only
    rw [write_handle]
    split
    · rename_i hj
      subst hj
      exact (h.count_of_opening hi).symm
    · exact h.refs j
  · dsimp only
    rw [write_handle]
    split
    · rename_i hj
      subst hj
      have hretired : (m.handle j).retired ≠ true := fun hmem => hnew ((h.retired j).mp hmem).1
      exact iff_of_false hretired fun hout => hout.2 List.mem_cons_self
    · rename_i hj
      rw [h.retired j, List.mem_cons, List.mem_cons]
      simp [hj]
  · intro j hj
    rcases List.mem_cons.mp hj with rfl | hj
    · exact List.mem_cons_self
    · exact List.mem_cons_of_mem _ (h.table j hj)
  · exact fun j hj => List.mem_cons_of_mem _ (h.users j hj)
  · exact fun j hj => List.mem_cons_of_mem _ (h.handedOut j hj)
  · intro j hj
    obtain ⟨hne, hj⟩ := (h.opening.1.mem_erase_iff).mp hj
    obtain ⟨hnew', hbound'⟩ := h.opening.2 j hj
    refine ⟨fun hmem => ?_, hbound'⟩
    rcases List.mem_cons.mp hmem with rfl | hmem
    · exact hne rfl
    · exact hnew' hmem
  · intro j hj
    rcases List.mem_cons.mp hj with rfl | hj
    · exact hbound
    · exact h.entered j hj

theorem Consistent.insertShard (h : m.Consistent) {i : Nat} (hi : i ∈ m.opening)
    (acquires noMemory : Bool) : (m.insertShard i acquires noMemory).Consistent := by
  have hdropped := h.dropped hi
  unfold Manager.insertShard
  dsimp only
  cases hkey : m.findLocked (m.handle i).key with
  | some existing =>
    dsimp only
    split
    · exact hdropped.acquire (h.table _ (findLocked_spec hkey).1)
    · exact hdropped
  | none =>
    dsimp only
    split
    · exact hdropped
    · split
      · exact (h.linked hi hkey).acquire List.mem_cons_self
      · exact h.linked hi hkey

theorem Consistent.shardRelease (h : m.Consistent) {i : Nat} (hi : i ∈ m.users) :
    (m.shardRelease i).Consistent := by
  have hcount : 0 < m.users.count i := List.count_pos_iff.mpr hi
  have hrefs : (if 0 < (m.handle i).refs then (m.handle i).refs - 1 else (m.handle i).refs) =
      m.users.count i - 1 := by
    rw [h.refs i, if_pos hcount]
  -- the count goes down with the user
  have hreleased : Consistent { m.write i fun h => { h with refs := m.users.count i - 1 } with
      users := m.users.erase i } := by
    refine ⟨?_, fun j => ?_, fun j => ?_, h.table, ?_, h.handedOut, h.opening, h.entered,
      h.freeing⟩
    · have hkeys : (m.table.map fun j =>
          ((m.write i fun h => { h with refs := m.users.count i - 1 }).handle j).key) =
          m.table.map fun j => (m.handle j).key :=
        List.map_congr_left fun j _ => write_key (m := m) rfl j
      show (m.table.map _).Nodup
      rw [hkeys]
      exact h.keys
    · dsimp only
      rw [write_handle]
      split
      · rename_i hj
        subst hj
        exact List.count_erase_self.symm
      · rename_i hj
        rw [List.count_erase_of_ne hj]
        exact h.refs j
    · dsimp only
      rw [write_handle]
      split
      · rename_i hj
        subst hj
        exact h.retired j
      · exact h.retired j
    · exact fun j hj => h.users j (List.mem_of_mem_erase hj)
  unfold Manager.shardRelease
  dsimp only
  rw [hrefs]
  -- the last user of a retired handle is to free it
  split
  · refine { hreleased with freeing := fun j hj => ?_ }
    rcases List.mem_cons.mp hj with rfl | hj
    · exact h.entered j (h.users j hi)
    · exact h.freeing j hj
  · exact hreleased

theorem Consistent.edbShardGc (h : m.Consistent) (key : CString) :
    (m.edbShardGc key).Consistent := by
  unfold Manager.edbShardGc
  cases hkey : m.findLocked key with
  | none => exact h
  | some i =>
    obtain ⟨hi, -⟩ := findLocked_spec hkey
    refine Consistent.acquire ?_ (h.table i hi)
    -- the table lets go and marks the handle in one step
    refine ⟨?_, fun j => ?_, fun j => ?_, ?_, h.users, h.handedOut, h.opening, h.entered,
      h.freeing⟩
    · have hkeys : ((m.table.erase i).map fun j =>
          ((m.write i fun h => { h with retired := true }).handle j).key) =
          (m.table.erase i).map fun j => (m.handle j).key :=
        List.map_congr_left fun j _ => write_key (m := m) rfl j
      show ((m.table.erase i).map _).Nodup
      rw [hkeys]
      exact h.keys.sublist (List.erase_sublist.map _)
    · -- the mark changes no count
      dsimp only
      rw [write_handle]
      split
      · rename_i hj
        subst hj
        exact h.refs j
      · exact h.refs j
    · dsimp only
      rw [write_handle, h.nodup_table.mem_erase_iff]
      split
      · rename_i hj
        subst hj
        exact iff_of_true rfl ⟨h.table j hi, fun hmem => hmem.1 rfl⟩
      · rename_i hj
        rw [h.retired j, not_and]
        exact and_congr_right' ⟨fun hout _ => hout, fun hout => hout hj⟩
    · exact fun j hj => h.table j (List.mem_of_mem_erase hj)

/-- **Every step** keeps the counts and marks. -/
theorem Consistent.step (h : m.Consistent) {l : Label} {m' : Manager}
    (hstep : m.step l = some m') : m'.Consistent := by
  cases l with
  | lookup key =>
    -- a hit is one more user of a handle in the table
    obtain rfl := Option.some.inj hstep
    unfold Manager.lookup
    cases hkey : m.findLocked key with
    | none => exact h
    | some i => exact h.acquire (h.table i (findLocked_spec hkey).1)
  | openShard key =>
    obtain rfl := Option.some.inj hstep
    exact h.edbShardOpen key
  | insert i acquires noMemory =>
    obtain ⟨hi, heq⟩ := Option.ite_none_right_eq_some.mp hstep
    obtain rfl := Option.some.inj heq
    exact h.insertShard hi acquires noMemory
  | release i =>
    obtain ⟨hi, heq⟩ := Option.ite_none_right_eq_some.mp hstep
    obtain rfl := Option.some.inj heq
    exact h.shardRelease hi
  | gc key =>
    obtain rfl := Option.some.inj hstep
    exact h.edbShardGc key
  | cleanup noMemory =>
    -- a tick takes a reference of all handles, or of none where memory is short
    obtain rfl := Option.some.inj hstep
    unfold Manager.cleanupAllShards
    split
    · exact h
    · exact h.acquireAll h.table
  | maintain ofPartition =>
    obtain rfl := Option.some.inj hstep
    exact h.acquireAll fun i hi => h.table i (List.mem_of_mem_filter hi)
  | free i =>
    -- the handle leaves the list of those that are to be freed
    obtain ⟨hi, heq⟩ := Option.ite_none_right_eq_some.mp hstep
    obtain rfl := Option.some.inj heq
    refine { h with freeing := fun j hj => ?_ }
    rcases List.mem_append.mp hj with hj | hj
    · exact h.freeing j (List.mem_append_left _ (List.mem_of_mem_erase hj))
    · rcases List.mem_cons.mp hj with rfl | hj
      · exact h.freeing j (List.mem_append_left _ hi)
      · exact h.freeing j (List.mem_append_right _ hj)

/-! ## The objects -/

theorem object_eq {j : Nat} {o : Counted.Obj}
    (howned : (j ∈ m.opening ∨ j ∈ m.table) ↔ o.owned = true) (husers : m.users.count j = o.users)
    (hfreeing : m.freeing.count j = o.freeing) (hfrees : m.freed.count j = o.frees) :
    m.object j = o := by
  have howner : decide (j ∈ m.opening ∨ j ∈ m.table) = o.owned :=
    Bool.eq_iff_iff.mpr (decide_eq_true_iff.trans howned)
  obtain ⟨owned, users, freeing, frees⟩ := o
  unfold object
  rw [howner, husers, hfreeing, hfrees]

theorem owned_iff {j : Nat} : (m.object j).owned = true ↔ j ∈ m.opening ∨ j ∈ m.table :=
  decide_eq_true_iff

/-- A reference to a handle in the table is lent. -/
theorem moves_acquire {i : Nat} (hi : i ∈ m.table) (j : Nat) :
    Counted.Moves (m.object j) ((m.acquire i).object j) := by
  by_cases hj : j = i
  · subst hj
    have hlent : (m.acquire j).object j =
        { m.object j with users := (m.object j).users + 1 } :=
      object_eq owned_iff.symm List.count_cons_self rfl rfl
    rw [hlent]
    exact .single (.lend (owned_iff.mpr (Or.inr hi)))
  · have hkept : (m.acquire i).object j = m.object j :=
      object_eq owned_iff.symm (List.count_cons_of_ne (Ne.symm hj)) rfl rfl
    rw [hkept]

theorem moves_acquireAll {l : List Nat} (hl : ∀ i ∈ l, i ∈ m.table) (j : Nat) :
    Counted.Moves (m.object j) ((m.acquireAll l).object j) := by
  induction l generalizing m with
  | nil => exact .refl
  | cons i l ih =>
    exact (moves_acquire (hl i List.mem_cons_self) j).trans
      (ih fun k hk => hl k (List.mem_cons_of_mem i hk))

/-- The thread that has opened a handle lets go of it. -/
theorem moves_dropped (h : m.Consistent) {i : Nat} (hi : i ∈ m.opening) (j : Nat) :
    Counted.Moves (m.object j)
      (object { m with opening := m.opening.erase i, freeing := i :: m.freeing } j) := by
  by_cases hj : j = i
  · subst hj
    have hout : j ∉ m.table := fun hmem => (h.opening.2 j hi).1 (h.table j hmem)
    have hgone : object { m with opening := m.opening.erase j, freeing := j :: m.freeing } j =
        (m.object j).disown := by
      refine object_eq (iff_of_false ?_ Bool.false_ne_true) rfl ?_ rfl
      · exact fun hmem => hmem.elim h.opening.1.not_mem_erase hout
      · exact List.count_cons_self.trans (if_pos (h.count_of_opening hi)).symm
    rw [hgone]
    exact .single (.disown (owned_iff.mpr (Or.inl hi)))
  · have hkept : object { m with opening := m.opening.erase i, freeing := i :: m.freeing } j =
        m.object j := by
      refine object_eq ?_ rfl (List.count_cons_of_ne (Ne.symm hj)) rfl
      exact (or_congr_left (List.mem_erase_of_ne hj)).trans owned_iff.symm
    rw [hkept]

/-- The table owns the handle then. -/
theorem object_linked (h : m.Consistent) {i : Nat} (hi : i ∈ m.opening) (f : Handle → Handle)
    (entered : List Nat) (j : Nat) :
    object { m.write i f with
      opening := m.opening.erase i, table := i :: m.table, entered := entered } j = m.object j := by
  refine object_eq ?_ rfl rfl rfl
  rw [owned_iff, h.opening.1.mem_erase_iff, List.mem_cons]
  by_cases hj : j = i
  · subst hj
    simp [hi]
  · simp [hj]

theorem moves_insertShard (h : m.Consistent) {i : Nat} (hi : i ∈ m.opening)
    (acquires noMemory : Bool) (j : Nat) :
    Counted.Moves (m.object j) ((m.insertShard i acquires noMemory).object j) := by
  have hdropped := moves_dropped h hi j
  unfold Manager.insertShard
  dsimp only
  cases hkey : m.findLocked (m.handle i).key with
  | some existing =>
    dsimp only
    split
    · refine hdropped.trans (moves_acquire ?_ j)
      exact (findLocked_spec hkey).1
    · exact hdropped
  | none =>
    dsimp only
    split
    · exact hdropped
    · have hlinked := object_linked h hi (fun h => { h with refs := 0 }) (i :: m.entered) j
      split
      · rw [← hlinked]
        exact moves_acquire List.mem_cons_self j
      · rw [hlinked]

/-- A user gives a handle back. The code frees it when it is retired and nobody else has it. -/
theorem moves_shardRelease (h : m.Consistent) {i : Nat} (hi : i ∈ m.users) (j : Nat) :
    Counted.Moves (m.object j) ((m.shardRelease i).object j) := by
  have hcount : 0 < m.users.count i := List.count_pos_iff.mpr hi
  have hrefs : (if 0 < (m.handle i).refs then (m.handle i).refs - 1 else (m.handle i).refs) =
      m.users.count i - 1 := by
    rw [h.refs i, if_pos hcount]
  have hentered := h.users i hi
  have hnotOpening : i ∉ m.opening := fun hmem => (h.opening.2 i hmem).1 hentered
  -- the code's test is that of a counted object
  have hlast : (m.handle i).retired = true ∧ m.users.count i - 1 = 0 ↔
      (m.object i).owned = false ∧ (m.object i).users - 1 = 0 := by
    refine and_congr_left fun _ => ?_
    show _ ↔ decide (i ∈ m.opening ∨ i ∈ m.table) = false
    rw [h.retired i, decide_eq_false_iff_not, not_or]
    exact ⟨fun hout => ⟨hnotOpening, hout.2⟩, fun hout => ⟨hentered, hout.2⟩⟩
  unfold Manager.shardRelease
  dsimp only
  rw [hrefs]
  by_cases hj : j = i
  · subst hj
    refine Relation.ReflTransGen.single ?_
    have hmove := Counted.Move.giveBack (o := m.object j) hcount
    unfold Counted.Obj.giveBack at hmove
    by_cases hfrees : (m.handle j).retired = true ∧ m.users.count j - 1 = 0
    · rw [if_pos (hlast.mp hfrees)] at hmove
      rw [if_pos hfrees]
      unfold object at hmove ⊢
      dsimp only at hmove ⊢
      rw [List.count_erase_self, List.count_cons_self]
      exact hmove
    · rw [if_neg fun hno => hfrees (hlast.mpr hno)] at hmove
      rw [if_neg hfrees]
      unfold object at hmove ⊢
      dsimp only at hmove ⊢
      rw [List.count_erase_self]
      exact hmove
  · have hkept : ∀ c : Prop, ∀ [Decidable c], object (if c then
        { m.write i fun h => { h with refs := m.users.count i - 1 } with
          users := m.users.erase i, freeing := i :: m.freeing }
        else { m.write i fun h => { h with refs := m.users.count i - 1 } with
          users := m.users.erase i }) j = m.object j := by
      intro c _
      split
      · unfold object
        dsimp only
        rw [List.count_erase_of_ne hj, List.count_cons_of_ne (Ne.symm hj)]
        rfl
      · unfold object
        dsimp only
        rw [List.count_erase_of_ne hj]
        rfl
    rw [hkept]

/-- A collection takes a reference of its own before the table lets go. -/
theorem moves_edbShardGc (h : m.Consistent) (key : CString) (j : Nat) :
    Counted.Moves (m.object j) ((m.edbShardGc key).object j) := by
  unfold Manager.edbShardGc
  cases hkey : m.findLocked key with
  | none => exact .refl
  | some i =>
    obtain ⟨hi, -⟩ := findLocked_spec hkey
    dsimp only
    by_cases hj : j = i
    · subst hj
      have hnotOpening : j ∉ m.opening := fun hmem => (h.opening.2 j hmem).1 (h.table j hi)
      -- the reference that keeps the handle alive is taken first
      have hlent : Counted.Move (m.object j) { m.object j with users := (m.object j).users + 1 } :=
        .lend (owned_iff.mpr (Or.inr hi))
      refine (Relation.ReflTransGen.single hlent).tail ?_
      have hgone : object (Manager.acquire { m.write j fun h => { h with retired := true } with
          table := m.table.erase j } j) j =
          Counted.Obj.disown { m.object j with users := (m.object j).users + 1 } := by
        refine object_eq (iff_of_false ?_ Bool.false_ne_true) List.count_cons_self ?_ rfl
        · exact fun hmem => hmem.elim hnotOpening h.nodup_table.not_mem_erase
        · show _ = if m.users.count j + 1 = 0 then m.freeing.count j + 1 else m.freeing.count j
          rw [if_neg (Nat.succ_ne_zero _)]
          rfl
      rw [hgone]
      exact .disown (owned_iff.mpr (Or.inr hi))
    · -- another handle is what it was
      have hkept : object (Manager.acquire { m.write i fun h => { h with retired := true } with
          table := m.table.erase i } i) j = m.object j := by
        refine object_eq ?_ (List.count_cons_of_ne (Ne.symm hj)) rfl rfl
        rw [owned_iff]
        exact or_congr_right (List.mem_erase_of_ne hj)
      rw [hkept]

/-- Only `edb_shard_open` makes a handle. -/
theorem opened_step {l : Label} {m' : Manager} (hstep : m.step l = some m') :
    m'.opened = m.opened ∨ ∃ key, m' = m.edbShardOpen key := by
  cases l with
  | lookup key =>
    -- the other sections take, drop or look at handles that are there
    obtain rfl := Option.some.inj hstep
    left
    unfold Manager.lookup
    split <;> rfl
  | openShard key => exact Or.inr ⟨key, (Option.some.inj hstep).symm⟩
  | insert i acquires noMemory =>
    obtain ⟨-, heq⟩ := Option.ite_none_right_eq_some.mp hstep
    obtain rfl := Option.some.inj heq
    left
    unfold Manager.insertShard
    dsimp only
    split
    · split <;> rfl
    · split
      · rfl
      · split <;> rfl
  | release i =>
    obtain ⟨-, heq⟩ := Option.ite_none_right_eq_some.mp hstep
    obtain rfl := Option.some.inj heq
    left
    unfold Manager.shardRelease
    dsimp only
    rw [apply_ite Manager.opened]
    exact ite_self _
  | gc key =>
    obtain rfl := Option.some.inj hstep
    left
    unfold Manager.edbShardGc
    split <;> rfl
  | cleanup noMemory =>
    obtain rfl := Option.some.inj hstep
    left
    unfold Manager.cleanupAllShards
    split
    · rfl
    · exact acquireAll_opened ..
  | maintain ofPartition =>
    obtain rfl := Option.some.inj hstep
    exact Or.inl (acquireAll_opened ..)
  | free i =>
    obtain ⟨-, heq⟩ := Option.ite_none_right_eq_some.mp hstep
    obtain rfl := Option.some.inj heq
    exact Or.inl rfl

/-- The handle that is opened is a new object. -/
theorem object_opened (h : m.Consistent) (key : CString) :
    (m.edbShardOpen key).object m.opened = Counted.born := by
  have hunused : m.opened ∉ m.users := fun hmem =>
    absurd (h.entered _ (h.users _ hmem)) (lt_irrefl _)
  have hunfreed : ∀ l : List Nat, (∀ i ∈ l, i ∈ m.freeing ++ m.freed) → l.count m.opened = 0 :=
    fun l hl => List.count_eq_zero.mpr fun hmem => absurd (h.freeing _ (hl _ hmem)) (lt_irrefl _)
  exact object_eq (iff_of_true (Or.inl List.mem_cons_self) rfl)
    (List.count_eq_zero.mpr hunused) (hunfreed _ fun _ => List.mem_append_left _)
    (hunfreed _ fun _ => List.mem_append_right _)

/-- **Every step moves the objects** there are. -/
theorem moves_step (h : m.Consistent) {l : Label} {m' : Manager} (hstep : m.step l = some m')
    {j : Nat} (hj : j < m.opened) : Counted.Moves (m.object j) (m'.object j) := by
  cases l with
  | lookup key =>
    obtain rfl := Option.some.inj hstep
    unfold Manager.lookup
    cases hkey : m.findLocked key with
    | none => exact .refl
    | some i => exact moves_acquire (findLocked_spec hkey).1 j
  | openShard key =>
    obtain rfl := Option.some.inj hstep
    have hkept : (m.edbShardOpen key).object j = m.object j := by
      refine object_eq ?_ rfl rfl rfl
      rw [owned_iff]
      exact or_congr_left (List.mem_cons.trans (or_iff_right hj.ne))
    rw [hkept]
  | insert i acquires noMemory =>
    obtain ⟨hi, heq⟩ := Option.ite_none_right_eq_some.mp hstep
    obtain rfl := Option.some.inj heq
    exact moves_insertShard h hi acquires noMemory j
  | release i =>
    obtain ⟨hi, heq⟩ := Option.ite_none_right_eq_some.mp hstep
    obtain rfl := Option.some.inj heq
    exact moves_shardRelease h hi j
  | gc key =>
    obtain rfl := Option.some.inj hstep
    exact moves_edbShardGc h key j
  | cleanup noMemory =>
    obtain rfl := Option.some.inj hstep
    unfold Manager.cleanupAllShards
    split
    · exact .refl
    · exact moves_acquireAll (fun i hi => hi) j
  | maintain ofPartition =>
    obtain rfl := Option.some.inj hstep
    exact moves_acquireAll (fun i hi => List.mem_of_mem_filter hi) j
  | free i =>
    obtain ⟨hi, heq⟩ := Option.ite_none_right_eq_some.mp hstep
    obtain rfl := Option.some.inj heq
    -- what is freed was waiting to be
    by_cases heq : j = i
    · subst heq
      have hfreed : object { m with freeing := m.freeing.erase j, freed := j :: m.freed } j =
          { m.object j with
            freeing := (m.object j).freeing - 1, frees := (m.object j).frees + 1 } :=
        object_eq owned_iff.symm rfl List.count_erase_self List.count_cons_self
      rw [hfreed]
      exact .single (.free (List.count_pos_iff.mpr hi))
    · have hkept : object { m with freeing := m.freeing.erase i, freed := i :: m.freed } j =
          m.object j :=
        object_eq owned_iff.symm rfl (List.count_erase_of_ne heq)
          (List.count_cons_of_ne (Ne.symm heq))
      rw [hkept]

end Sections

/-! ## The runs -/

/-- What every step keeps: the marks, and that the objects are safe. -/
structure Sound (m : Manager) : Prop where
  consistent : m.Consistent
  safe : ∀ i < m.opened, Counted.Safe (m.object i)

/-- What holds of the handles. -/
structure Lifecycle (m : Manager) : Prop where
  /-- the table has one handle for a key -/
  oneHandle : (m.table.map fun i => (m.handle i).key).Nodup
  /-- a handle that entered the table is there until it is retired -/
  untilRetired : ∀ i ∈ m.entered, i ∈ m.table ↔ (m.handle i).retired = false
  /-- a handle counts its users -/
  refs : ∀ i, (m.handle i).refs = m.users.count i
  freedOnce : ∀ i, m.freed.count i ≤ 1
  /-- a handle that is freed, or about to be, has no user, and is not in the table -/
  freedLast : ∀ i ∈ m.freeing ++ m.freed, i ∉ m.users ∧ i ∉ m.table
  /-- of the handles that entered the table, only retired ones are freed -/
  freedRetired : ∀ i ∈ m.freeing ++ m.freed, i ∈ m.entered → (m.handle i).retired = true
  /-- a retired handle without users is freed, as soon as its last user has done so -/
  retiredFreed : ∀ i, (m.handle i).retired = true → i ∉ m.users → i ∉ m.freeing → i ∈ m.freed
  /-- a handle that never entered the table was never handed out -/
  duplicateKept : ∀ i ∉ m.entered, i ∉ m.handedOut
  /-- and is freed, unless its thread has yet to insert it, or to free it -/
  duplicateFreed : ∀ i < m.opened, i ∉ m.entered → i ∉ m.opening → i ∉ m.freeing → i ∈ m.freed

/-- A manager without handles. -/
theorem sound_empty : Sound {} where
  consistent := by
    refine ⟨List.nodup_nil, fun _ => rfl, fun _ => iff_of_false Bool.false_ne_true ?_, nofun,
      nofun, nofun, ⟨List.nodup_nil, nofun⟩, nofun, nofun⟩
    exact fun hentered => List.not_mem_nil hentered.1
  safe := nofun

theorem Sound.step {m m' : Manager} {l : Label} (h : m.Sound) (hstep : m.step l = some m') :
    m'.Sound where
  consistent := h.consistent.step hstep
  safe := by
    intro i hi
    by_cases hold : i < m.opened
    · exact Counted.safe_moves (h.safe i hold) (moves_step h.consistent hstep hold)
    · -- it was opened in this step
      rcases opened_step hstep with heq | ⟨key, rfl⟩
      · omega
      · have hlt : i < m.opened + 1 := hi
        obtain rfl : i = m.opened := by omega
        rw [object_opened h.consistent]
        exact Counted.safe_born

theorem Sound.toLifecycle {m : Manager} (h : m.Sound) : m.Lifecycle := by
  have hcons := h.consistent
  have hcount : ∀ (l : List Nat) (i : Nat), i ∉ l → l.count i = 0 := fun l i hi =>
    List.count_eq_zero.mpr hi
  -- nobody has a handle that is freed, or about to be
  have hgone : ∀ i ∈ m.freeing ++ m.freed, i ∉ m.users ∧ i ∉ m.table := by
    intro i hi
    have hsafe := h.safe i (hcons.freeing i hi)
    have hfree : ¬ ((m.object i).freeing = 0 ∧ (m.object i).frees = 0) := by
      rintro ⟨hfreeing, hfrees⟩
      rcases List.mem_append.mp hi with hi | hi
      · exact absurd hfreeing (List.count_pos_iff.mpr hi).ne'
      · exact absurd hfrees (List.count_pos_iff.mpr hi).ne'
    exact ⟨fun hmem => hfree (hsafe.used (List.count_pos_iff.mpr hmem)),
      fun hmem => hfree (hsafe.owned (owned_iff.mpr (Or.inr hmem)))⟩
  -- and one that nobody has is
  have hdone : ∀ i < m.opened, i ∉ m.opening → i ∉ m.table → i ∉ m.users → i ∉ m.freeing →
      i ∈ m.freed := by
    intro i hi hopening htable husers hfreeing
    have hunowned : (m.object i).owned = false :=
      Bool.eq_false_iff.mpr fun howned => (owned_iff.mp howned).elim hopening htable
    have honce : m.freeing.count i + m.freed.count i = 1 :=
      (h.safe i hi).done hunowned (hcount _ i husers)
    rw [hcount _ i hfreeing, Nat.zero_add] at honce
    exact List.count_pos_iff.mp (honce ▸ Nat.one_pos)
  refine ⟨hcons.keys, fun i hi => ?_, hcons.refs, fun i => ?_, hgone, fun i hi hentered => ?_,
    fun i hretired husers hfreeing => ?_, fun i hi hout => hi (hcons.handedOut i hout),
    fun i hi hnew hopening hfreeing => ?_⟩
  · rw [Bool.eq_false_iff, Ne, hcons.retired i]
    exact ⟨fun hmem hout => hout.2 hmem, fun hno => by_contra fun hout => hno ⟨hi, hout⟩⟩
  · by_cases hi : i < m.opened
    · exact (h.safe i hi).frees_le
    · have hnever : i ∉ m.freed := fun hmem =>
        hi (hcons.freeing i (List.mem_append_right _ hmem))
      exact (hcount _ i hnever).trans_le (Nat.zero_le 1)
  · exact (hcons.retired i).mpr ⟨hentered, (hgone i hi).2⟩
  · obtain ⟨hentered, hout⟩ := (hcons.retired i).mp hretired
    exact hdone i (hcons.entered i hentered) (fun hmem => (hcons.opening.2 i hmem).1 hentered) hout
      husers hfreeing
  · exact hdone i hi hopening (fun hmem => hnew (hcons.table i hmem))
      (fun hmem => hnew (hcons.users i hmem)) hfreeing

/-- **The life of a shard handle**: in every order of the steps of any number of threads, each
state has all this. -/
theorem handle_lifecycle (ls : List Label) : Runs.Throughout step Lifecycle {} ls :=
  Runs.throughout_mono (fun _ h => h.toLifecycle)
    (Runs.throughout_of_inv (fun _ _ _ h hstep => h.step hstep) sound_empty ls)

end Manager

end EpsilonDB
