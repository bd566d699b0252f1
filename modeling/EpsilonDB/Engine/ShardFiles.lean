import EpsilonDB.Engine.Manager
import EpsilonDB.Engine.Shard

/-!
# The files behind the handles (`engine/manager.c`, `engine/shard.c`)

A shard is a file in the data directory, and a handle is a connection to a file. The connection
stays with the file it has opened, also when that file is unlinked or another one is renamed over
its path.

SQLite keeps a rollback journal beside a file only while it writes to it, so the file is all there
is between two writes, and the unlinking of sidecars does nothing.

- `Directory`: the files there are when an engine is opened.
- `Store`: a manager, the files, and the file of each handle.
- `openFile`, `edbShardOpen`, `unlink`, `rename`, `put`, `cleanup`, `restart`: what is done to
  them.
- `Store.Attached`: the file of a handle is the one at its path.
- `Store.engine`: the steps of the manager, of which only `edb_shard_open` concerns files.
- `Manager.Carries`: what a step of the manager does to the handles in its lists.
- `Store.Homed`: a file only ever belongs to one shard.
-/

namespace EpsilonDB

/-- The shard files, by what is at the path of each key. -/
structure Directory where
  file : CString → Option Nat
  /-- how many files were made so far -/
  made : Nat
  rows : Nat → Shard
  file_lt : ∀ key f, file key = some f → f < made
  file_inj : ∀ key key' f, file key = some f → file key' = some f → key = key'

/-- A directory without shards. -/
def Directory.empty : Directory := ⟨fun _ => none, 0, fun _ => ∅, nofun, nofun⟩

/-- An engine and its files. -/
structure Store where
  manager : Manager := {}
  file : CString → Option Nat
  made : Nat
  rows : Nat → Shard
  /-- the file a handle has open: `sh->db` -/
  db : Nat → Nat := fun _ => 0

/-- An engine that was just started. -/
def Directory.store (d : Directory) : Store where
  file := d.file
  made := d.made
  rows := d.rows

namespace Store

/-- The key of a handle. -/
def key (s : Store) (i : Nat) : CString := (s.manager.handle i).key

/-- `sqlite3_open_v2`, which creates a file that is not there. -/
def openFile (s : Store) (key : CString) : Store × Nat :=
  match s.file key with
  | some f => (s, f)
  | none =>
    ({ s with
        file := Function.update s.file key (some s.made)
        made := s.made + 1
        rows := Function.update s.rows s.made ∅ }, s.made)

/-- `edb_shard_open` of `shard_for`. -/
def edbShardOpen (s : Store) (key : CString) : Store :=
  let opened := s.openFile key
  { opened.1 with
    manager := s.manager.edbShardOpen key
    db := Function.update s.db s.manager.opened opened.2 }

/-- `unlink` of a shard file. -/
def unlink (s : Store) (key : CString) : Store :=
  { s with file := Function.update s.file key none }

/-- `rename` of a new file with these rows to the path of a shard. -/
def rename (s : Store) (key : CString) (rows : Shard) : Store :=
  { s with
    file := Function.update s.file key (some s.made)
    made := s.made + 1
    rows := Function.update s.rows s.made rows }

/-- The file of a handle is the one at its path. -/
def Attached (s : Store) (i : Nat) : Prop := s.file (s.key i) = some (s.db i)

instance (s : Store) (i : Nat) : Decidable (s.Attached i) :=
  inferInstanceAs (Decidable (_ = _))

/-- `edb_shard_put` through a handle, when it succeeds. SQLite refuses to write to a file that was
moved or unlinked, when it notices. -/
def put (s : Store) (i : Nat) (now : Int) (id jsonValue : CString) (ttlSeconds : Int)
    (notices : Bool) : Option Store :=
  if ¬ s.Attached i ∧ notices then none
  else
    some { s with
      rows := Function.update s.rows (s.db i)
        (edbShardPut now (s.rows (s.db i)) id jsonValue ttlSeconds) }

/-- `edb_shard_cleanup` through a handle. -/
def cleanup (s : Store) (i : Nat) (now : Int) : Store :=
  { s with rows := Function.update s.rows (s.db i) (edbShardCleanup now (s.rows (s.db i))) }

/-- The rows of a shard after a restart. -/
def restart (s : Store) (key : CString) : Shard :=
  match s.file key with
  | some f => s.rows f
  | none => ∅

/-- The steps of the manager. -/
def engine (s : Store) (l : Manager.Label) : Option Store :=
  match l with
  | .openShard key => some (s.edbShardOpen key)
  | l => (s.manager.step l).map fun m => { s with manager := m }

end Store

/-! ## What a step of the manager does -/

namespace Manager

/-- From `m` to `m'` handles enter the table from those that were opened, they keep their keys,
and what was in the table is marked so. -/
structure Carries (m m' : Manager) : Prop where
  table : ∀ i ∈ m'.table, i ∈ m.table ∨ i ∈ m.opening
  opening : ∀ i ∈ m'.opening, i ∈ m.opening
  key : ∀ i, (m'.handle i).key = (m.handle i).key
  entered : ∀ i ∈ m.entered, i ∈ m'.entered
  opened : m'.opened = m.opened

namespace Carries

variable {m m' m'' : Manager}

theorem refl (m : Manager) : m.Carries m :=
  ⟨fun _ => Or.inl, fun _ => id, fun _ => rfl, fun _ => id, rfl⟩

theorem acquire (h : m.Carries m') (i : Nat) : m.Carries (m'.acquire i) where
  table := h.table
  opening := h.opening
  key := fun j => (acquire_key m' i j).trans (h.key j)
  entered := h.entered
  opened := h.opened

theorem acquireAll (h : m.Carries m') (l : List Nat) : m.Carries (m'.acquireAll l) := by
  induction l generalizing m' with
  | nil => exact h
  | cons i l ih => exact ih (h.acquire i)

end Carries

theorem carries_insertShard (m : Manager) (i : Nat) (hi : i ∈ m.opening)
    (acquires noMemory : Bool) : m.Carries (m.insertShard i acquires noMemory) := by
  have hdropped : m.Carries { m with opening := m.opening.erase i, freeing := i :: m.freeing } :=
    ⟨fun _ => Or.inl, fun _ => List.mem_of_mem_erase, fun _ => rfl, fun _ => id, rfl⟩
  have hlinked : m.Carries { m.write i fun h => { h with refs := 0 } with
      opening := m.opening.erase i, table := i :: m.table, entered := i :: m.entered } := by
    refine ⟨fun j hj => ?_, fun _ => List.mem_of_mem_erase,
      write_key (m := m) (i := i) (f := fun h => { h with refs := 0 }) rfl,
      fun j hj => List.mem_cons_of_mem i hj, rfl⟩
    rcases List.mem_cons.mp hj with rfl | hj
    · exact Or.inr hi
    · exact Or.inl hj
  unfold Manager.insertShard
  dsimp only
  split
  · split
    · exact hdropped.acquire _
    · exact hdropped
  · split
    · exact hdropped
    · split
      · exact hlinked.acquire i
      · exact hlinked

/-- **Every step** but an opening carries the handles. -/
theorem carries_step {m m' : Manager} {l : Label} (hstep : m.step l = some m')
    (hl : ∀ key, l ≠ .openShard key) : m.Carries m' := by
  cases l with
  | lookup key =>
    obtain rfl := Option.some.inj hstep
    unfold Manager.lookup
    split
    · exact (Carries.refl m).acquire _
    · exact Carries.refl m
  | openShard key => exact absurd rfl (hl key)
  | insert i acquires noMemory =>
    obtain ⟨hi, heq⟩ := Option.ite_none_right_eq_some.mp hstep
    obtain rfl := Option.some.inj heq
    exact carries_insertShard m i hi acquires noMemory
  | release i =>
    obtain ⟨-, heq⟩ := Option.ite_none_right_eq_some.mp hstep
    obtain rfl := Option.some.inj heq
    -- whatever the count becomes, the handle keeps its key and its place
    have hreleased : ∀ refs, m.Carries { m.write i fun h => { h with refs } with
        users := m.users.erase i } := fun refs =>
      ⟨fun _ => Or.inl, fun _ => id,
        write_key (m := m) (i := i) (f := fun h => { h with refs }) rfl, fun _ => id, rfl⟩
    unfold Manager.shardRelease
    dsimp only
    generalize (if 0 < (m.handle i).refs then (m.handle i).refs - 1 else (m.handle i).refs) = refs
    split
    · exact { hreleased refs with }
    · exact hreleased refs
  | gc key =>
    obtain rfl := Option.some.inj hstep
    unfold Manager.edbShardGc
    split
    · rename_i i hi
      -- a retired handle leaves the table and stays entered
      have hretired : m.Carries { m.write i fun h => { h with retired := true } with
          table := m.table.erase i } :=
        ⟨fun j hj => Or.inl (List.mem_of_mem_erase hj), fun _ => id,
          write_key (m := m) (i := i) (f := fun h => { h with retired := true }) rfl, fun _ => id,
          rfl⟩
      exact hretired.acquire i
    · exact Carries.refl m
  | cleanup noMemory =>
    obtain rfl := Option.some.inj hstep
    unfold Manager.cleanupAllShards
    split
    · exact Carries.refl m
    · exact (Carries.refl m).acquireAll _
  | maintain ofPartition =>
    obtain rfl := Option.some.inj hstep
    exact (Carries.refl m).acquireAll _
  | free i =>
    obtain ⟨-, heq⟩ := Option.ite_none_right_eq_some.mp hstep
    obtain rfl := Option.some.inj heq
    exact ⟨fun _ => Or.inl, fun _ => id, fun _ => rfl, fun _ => id, rfl⟩

/-- A handle stays in the table until a collection takes it. -/
theorem mem_table_step {m m' : Manager} {l : Label} (hstep : m.step l = some m') {j : Nat}
    (hj : j ∈ m.table) (hl : ∀ key, l = .gc key → (m.handle j).key ≠ key) : j ∈ m'.table := by
  cases l with
  | lookup key =>
    obtain rfl := Option.some.inj hstep
    unfold Manager.lookup
    split <;> exact hj
  | openShard key =>
    obtain rfl := Option.some.inj hstep
    exact hj
  | insert i acquires noMemory =>
    obtain ⟨-, heq⟩ := Option.ite_none_right_eq_some.mp hstep
    obtain rfl := Option.some.inj heq
    unfold Manager.insertShard
    dsimp only
    split
    · split <;> exact hj
    · split
      · exact hj
      · split <;> exact List.mem_cons_of_mem i hj
  | release i =>
    obtain ⟨-, heq⟩ := Option.ite_none_right_eq_some.mp hstep
    obtain rfl := Option.some.inj heq
    unfold Manager.shardRelease
    dsimp only
    rw [apply_ite Manager.table]
    exact (ite_self m.table).symm ▸ hj
  | gc key =>
    obtain rfl := Option.some.inj hstep
    unfold Manager.edbShardGc
    split
    · rename_i i hi
      -- only the handle of the key that is collected goes
      refine (List.mem_erase_of_ne ?_).mpr hj
      rintro rfl
      exact hl key rfl (findLocked_spec hi).2
    · exact hj
  | cleanup noMemory =>
    obtain rfl := Option.some.inj hstep
    unfold Manager.cleanupAllShards
    split
    · exact hj
    · rw [acquireAll_table]
      exact hj
  | maintain ofPartition =>
    obtain rfl := Option.some.inj hstep
    exact (acquireAll_table m _).symm ▸ hj
  | free i =>
    obtain ⟨-, heq⟩ := Option.ite_none_right_eq_some.mp hstep
    obtain rfl := Option.some.inj heq
    exact hj

end Manager

namespace Store

variable {s s' : Store}

theorem engine_of_ne {l : Manager.Label} (hl : ∀ key, l ≠ .openShard key) :
    s.engine l = (s.manager.step l).map fun m => { s with manager := m } := by
  cases l with
  | openShard key => exact absurd rfl (hl key)
  | lookup _ | insert _ _ _ | release _ | gc _ | cleanup _ | maintain _ | free _ => rfl

/-- Only `edb_shard_open` concerns files. -/
theorem engine_cases {l : Manager.Label} (h : s.engine l = some s') :
    (∃ key, l = .openShard key ∧ s' = s.edbShardOpen key) ∨
      ((∀ key, l ≠ .openShard key) ∧ s.manager.step l = some s'.manager ∧
        s' = { s with manager := s'.manager }) := by
  by_cases hl : ∃ key, l = .openShard key
  · obtain ⟨key, rfl⟩ := hl
    exact Or.inl ⟨key, rfl, (Option.some.inj h).symm⟩
  · right
    have hne : ∀ key, l ≠ .openShard key := fun key heq => hl ⟨key, heq⟩
    rw [engine_of_ne hne] at h
    obtain ⟨m, hm, rfl⟩ := Option.map_eq_some_iff.mp h
    exact ⟨hne, hm, rfl⟩

/-- The manager takes its own step. -/
theorem manager_engine {l : Manager.Label} (h : s.engine l = some s') :
    s.manager.step l = some s'.manager := by
  rcases engine_cases h with ⟨key, rfl, rfl⟩ | ⟨-, hstep, -⟩
  · rfl
  · exact hstep

/-- Opening gives the file at the path, and keeps the files there are. -/
theorem openFile_spec (s : Store) (key : CString) :
    (s.openFile key).1.file key = some (s.openFile key).2 ∧
      ∀ key' f, s.file key' = some f → (s.openFile key).1.file key' = some f := by
  unfold openFile
  split
  · rename_i f hf
    exact ⟨hf, fun _ _ => id⟩
  · rename_i hnone
    refine ⟨Function.update_self .., fun key' f hf => ?_⟩
    have hne : key' ≠ key := by
      rintro rfl
      rw [hnone] at hf
      cases hf
    exact (Function.update_of_ne hne ..).trans hf

/-- The files there were are as before. -/
theorem openFile_rows (s : Store) (key : CString) {f : Nat} (hf : f < s.made) :
    (s.openFile key).1.rows f = s.rows f := by
  unfold openFile
  split
  · rfl
  · exact Function.update_of_ne hf.ne ..

theorem openFile_manager (s : Store) (key : CString) :
    (s.openFile key).1.manager = s.manager := by
  unfold openFile
  split <;> rfl

theorem openFile_db (s : Store) (key : CString) : (s.openFile key).1.db = s.db := by
  unfold openFile
  split <;> rfl

theorem key_edbShardOpen (s : Store) (key : CString) {i : Nat} (hi : i < s.manager.opened) :
    (s.edbShardOpen key).key i = s.key i :=
  (congrArg Handle.key (Manager.edbShardOpen_handle s.manager key i)).trans
    (congrArg Handle.key (if_neg hi.ne))

theorem db_edbShardOpen (s : Store) (key : CString) : (s.edbShardOpen key).db =
    Function.update s.db s.manager.opened (s.openFile key).2 := rfl

theorem key_opened (s : Store) (key : CString) :
    (s.edbShardOpen key).key s.manager.opened = key :=
  (congrArg Handle.key (Manager.edbShardOpen_handle s.manager key _)).trans
    (congrArg Handle.key (if_pos rfl))

/-- A handle that was just opened is attached, and the others stay so. -/
theorem attached_edbShardOpen (key : CString) :
    (s.edbShardOpen key).Attached s.manager.opened ∧
      ∀ i < s.manager.opened, s.Attached i → (s.edbShardOpen key).Attached i := by
  obtain ⟨hopened, hkept⟩ := s.openFile_spec key
  unfold Attached
  constructor
  · rw [key_opened, db_edbShardOpen, Function.update_self]
    exact hopened
  · intro i hi hattached
    rw [key_edbShardOpen s key hi, db_edbShardOpen, Function.update_of_ne hi.ne]
    exact hkept _ _ hattached

/-- A put through an attached handle can be read after a restart. -/
theorem restart_put {i : Nat} (h : s.Attached i) {now : Int} {id jsonValue : CString}
    {ttlSeconds : Int} {notices : Bool}
    (hput : s.put i now id jsonValue ttlSeconds notices = some s') :
    s'.restart (s.key i) = edbShardPut now (s.restart (s.key i)) id jsonValue ttlSeconds := by
  unfold put at hput
  rw [if_neg fun hno => hno.1 h] at hput
  obtain rfl := Option.some.inj hput
  unfold restart
  unfold Attached at h
  dsimp only
  rw [h]
  exact Function.update_self ..

/-! ## Whose file it is -/

/-- A file is only ever at the path of one shard, and only handles of that shard have it open. -/
structure Homed (s : Store) (home : Nat → CString) : Prop where
  file : ∀ key f, s.file key = some f → home f = key ∧ f < s.made
  db : ∀ i < s.manager.opened, home (s.db i) = s.key i ∧ s.db i < s.made

theorem exists_homed (d : Directory) : ∃ home, d.store.Homed home := by
  classical
  refine ⟨fun f => if h : ∃ key, d.file key = some f then h.choose else [],
    fun key f hf => ⟨?_, d.file_lt key f hf⟩, nofun⟩
  have hsome : ∃ key, d.file key = some f := ⟨key, hf⟩
  rw [dif_pos hsome]
  exact d.file_inj _ _ f hsome.choose_spec hf

namespace Homed

variable {home : Nat → CString}

/-- The files there are stay where they belong. -/
theorem update_home (s : Store) (home : Nat → CString) (key : CString) :
    ∀ f < s.made, Function.update home s.made key f = home f := fun _ hf =>
  Function.update_of_ne hf.ne ..

theorem openFile (h : s.Homed home) (key : CString) : ∃ home' : Nat → CString,
    (∀ f < s.made, home' f = home f) ∧
      (∀ key' f, (s.openFile key).1.file key' = some f →
        home' f = key' ∧ f < (s.openFile key).1.made) ∧
      s.made ≤ (s.openFile key).1.made := by
  unfold Store.openFile
  split
  · exact ⟨home, fun _ _ => rfl, h.file, le_rfl⟩
  · refine ⟨Function.update home s.made key, update_home s home key, fun key' f hf => ?_,
      Nat.le_succ _⟩
    dsimp only at hf ⊢
    by_cases hkey : key' = key
    · subst hkey
      rw [Function.update_self] at hf
      obtain rfl := Option.some.inj hf
      exact ⟨Function.update_self .., Nat.lt_succ_self _⟩
    · rw [Function.update_of_ne hkey] at hf
      obtain ⟨hhome, hlt⟩ := h.file key' f hf
      exact ⟨(update_home s home key f hlt).trans hhome, Nat.lt_succ_of_lt hlt⟩

theorem edbShardOpen (h : s.Homed home) (key : CString) :
    ∃ home', (s.edbShardOpen key).Homed home' := by
  obtain ⟨home', hkept, hfile, hmade⟩ := h.openFile key
  refine ⟨home', hfile, fun i hi => ?_⟩
  rw [db_edbShardOpen]
  by_cases hlt : i < s.manager.opened
  · obtain ⟨hhome, hold⟩ := h.db i hlt
    rw [Function.update_of_ne hlt.ne, key_edbShardOpen s key hlt, hkept _ hold]
    exact ⟨hhome, hold.trans_le hmade⟩
  · have hsucc : i < s.manager.opened + 1 := hi
    obtain rfl : i = s.manager.opened := by omega
    have hattached := (attached_edbShardOpen (s := s) key).1
    unfold Attached at hattached
    rw [db_edbShardOpen] at hattached
    exact hfile _ _ hattached

theorem engine (h : s.Homed home) {l : Manager.Label} (hstep : s.engine l = some s') :
    ∃ home', s'.Homed home' := by
  rcases engine_cases hstep with ⟨key, rfl, rfl⟩ | ⟨hne, hmanager, heq⟩
  · exact h.edbShardOpen key
  · have hcarries := Manager.carries_step hmanager hne
    rw [heq]
    refine ⟨home, h.file, fun i hi => ?_⟩
    have hlt : i < s.manager.opened := hcarries.opened ▸ hi
    exact ⟨(h.db i hlt).1.trans (hcarries.key i).symm, (h.db i hlt).2⟩

theorem rename (h : s.Homed home) (key : CString) (rows : Shard) :
    (s.rename key rows).Homed (Function.update home s.made key) := by
  refine ⟨fun key' f hf => ?_, fun i hi => ?_⟩
  · by_cases hkey : key' = key
    · subst hkey
      have hfile : Function.update s.file key' (some s.made) key' = some f := hf
      rw [Function.update_self] at hfile
      obtain rfl := Option.some.inj hfile
      exact ⟨Function.update_self .., Nat.lt_succ_self _⟩
    · have hfile : Function.update s.file key (some s.made) key' = some f := hf
      rw [Function.update_of_ne hkey] at hfile
      obtain ⟨hhome, hlt⟩ := h.file key' f hfile
      exact ⟨(update_home s home key f hlt).trans hhome, Nat.lt_succ_of_lt hlt⟩
  · obtain ⟨hhome, hlt⟩ := h.db i hi
    exact ⟨(update_home s home key _ hlt).trans hhome, Nat.lt_succ_of_lt hlt⟩

theorem unlink (h : s.Homed home) (key : CString) : (s.unlink key).Homed home := by
  refine ⟨fun key' f hf => ?_, h.db⟩
  by_cases hkey : key' = key
  · subst hkey
    have hfile : Function.update s.file key' none key' = some f := hf
    rw [Function.update_self] at hfile
    cases hfile
  · exact h.file key' f ((Function.update_of_ne hkey ..).symm.trans hf)

end Homed

end Store

end EpsilonDB
