import EpsilonDB.Engine.ShardFiles
import EpsilonDB.Engine.Tombstones

/-!
# Restoring shards (`api/epsilon_api_cluster.c`)

An admin locks a node, wipes its shards, uploads the files of a backup chunk by chunk and unlocks
it. The lock turns clients and replicated changes away; the QUERY requests of peers and the
maintenance of the engine go on. The last chunk renames the uploaded file over the shard, without
a word to the engine.

What SQLite finds in a file is a parameter: the rows of an intact database, or nothing. Operations
on files are taken to succeed.

- `Restoring`: an engine, the lock, what is left of a wipe, and the uploads.
- `handleRestoreWipe`, `pwrite`, `handleRestoreShardUpload`: the handlers.
- `Restoring.Label`, `Restoring.step`: their steps, and those of the engine.
- `Shows`: whoever asks the engine for the shard reads the uploaded rows.
- `LetThrough`: a step that leaves the shard to its readers.
- `shows_restored_iff`: when a restored shard shows the uploaded rows to every later reader.
- `query_after_wipe`: a run where it does not.
-/

namespace EpsilonDB

/-- A node that is restored. -/
structure Restoring where
  store : Store
  /-- `g_restore_locked` -/
  locked : Bool := false
  /-- shards that are yet to be wiped -/
  wiping : List CString := []
  /-- shards that were taken out of the table and whose file is yet to be unlinked -/
  removing : List CString := []
  /-- the `.rtmp` file of each shard -/
  rtmp : CString → Option (List UInt8) := fun _ => none

namespace Restoring

/-- `valid_shard_key`. -/
def validShardKey (key : CString) : Bool :=
  decide (key.length = 32) && key.all fun c => decide ((48 ≤ c ∧ c ≤ 57) ∨ (97 ≤ c ∧ c ≤ 102))

/-- `pwrite`: a gap before the offset is filled with zeros. -/
def pwrite (file : List UInt8) (offset : Nat) (body : List UInt8) : List UInt8 :=
  if body = [] then file
  else
    file.take offset ++ List.replicate (offset - file.length) 0 ++ body ++
      file.drop (offset + body.length)

/-- What the `.rtmp` file holds after a chunk: the first one truncates it. -/
def written (s : Restoring) (key : CString) (offset : Int) (body : List UInt8) : List UInt8 :=
  pwrite (if offset = 0 then [] else (s.rtmp key).getD []) offset.toNat body

section Handlers

variable (isSystemKey : CString → Bool) (decode : List UInt8 → Option Shard)

/-- `handle_restore_wipe`, with the keys that are found in the directory. -/
def handleRestoreWipe (s : Restoring) (keys : List CString) : Restoring × Nat :=
  if s.locked then
    ({ s with wiping := (keys.filter fun key => !isSystemKey key) ++ s.wiping }, 200)
  else (s, 409)

/-- `handle_restore_shard_upload`, and the status it answers with. -/
def handleRestoreShardUpload (s : Restoring) (key : CString) (offset : Int) (body : List UInt8)
    (final : Bool) : Restoring × Nat :=
  if s.locked = false then (s, 409)
  else if validShardKey key = false then (s, 400)
  else if isSystemKey key then (s, 400)
  else
    if offset < 0 then
      -- the file is there, but nothing can be written at this offset
      ({ s with rtmp := Function.update s.rtmp key (some ((s.rtmp key).getD [])) }, 500)
    else if final then
      match decode (s.written key offset body) with
      | none => ({ s with rtmp := Function.update s.rtmp key none }, 400)
      | some rows =>
        ({ s with
            store := s.store.rename key rows
            rtmp := Function.update s.rtmp key none }, 200)
    else
      ({ s with rtmp := Function.update s.rtmp key (some (s.written key offset body)) }, 200)

/-- What happens to the node. A catch-up that replaces a shard's file and has the engine look at it
again (`edb_shard_invalidate`) is no step. -/
inductive Label where
  | lock
  | unlock
  /-- `handle_restore_wipe` -/
  | wipe (keys : List CString)
  /-- the section of its `edb_shard_gc` of a key -/
  | wipeKey (key : CString)
  /-- the section of an `edb_shard_gc` of `edb_cluster_gc_redundant` -/
  | gc (key : CString)
  /-- the rest of an `edb_shard_gc` -/
  | unlink (key : CString)
  | upload (key : CString) (offset : Int) (body : List UInt8) (final : Bool)
  /-- a section of an operation of the engine, such as the reads for a peer -/
  | engine (l : Manager.Label)
  | put (i : Nat) (now : Int) (id jsonValue : CString) (ttlSeconds : Int) (notices : Bool)
  | cleanup (i : Nat) (now : Int)

/-- The section of `edb_shard_gc`. -/
def edbShardGc (s : Restoring) (key : CString) : Restoring :=
  { s with
    store := { s.store with manager := s.store.manager.edbShardGc key }
    removing := key :: s.removing }

/-- One step. -/
def step (s : Restoring) : Label → Option Restoring
  | .lock => some { s with locked := true }
  | .unlock => some { s with locked := false }
  | .wipe keys => some (s.handleRestoreWipe isSystemKey keys).1
  | .wipeKey key =>
    if key ∈ s.wiping then some { s.edbShardGc key with wiping := s.wiping.erase key } else none
  | .gc key => some (s.edbShardGc key)
  | .unlink key =>
    if key ∈ s.removing then
      some { s with store := s.store.unlink key, removing := s.removing.erase key }
    else none
  | .upload key offset body final =>
    some (s.handleRestoreShardUpload isSystemKey decode key offset body final).1
  | .engine (.gc _) => none
  | .engine l => (s.store.engine l).map fun t => { s with store := t }
  | .put i now id jsonValue ttlSeconds notices =>
    if i ∈ s.store.manager.users then
      some { s with
        store := (s.store.put i now id jsonValue ttlSeconds notices).getD s.store }
    else none
  | .cleanup i now =>
    if i ∈ s.store.manager.users then some { s with store := s.store.cleanup i now } else none

end Handlers

/-! ## What is uploaded -/

theorem pwrite_length (file body : List UInt8) : pwrite file file.length body = file ++ body := by
  unfold pwrite
  split
  · rename_i hnil
    rw [hnil, List.append_nil]
  · rw [List.take_length, Nat.sub_self, List.replicate_zero, List.append_nil,
      List.drop_eq_nil_of_le (Nat.le_add_right ..), List.append_nil]

/-- The rows, less what cleanups have removed of the expired ones. -/
def Swept (rows rows' : Shard) : Prop :=
  ∃ clocks : List Int, rows' = clocks.foldl (fun sh now => edbShardCleanup now sh) rows

theorem Swept.refl (rows : Shard) : Swept rows rows := ⟨[], rfl⟩

theorem Swept.cleanup {rows rows' : Shard} (h : Swept rows rows') (now : Int) :
    Swept rows (edbShardCleanup now rows') := by
  obtain ⟨clocks, rfl⟩ := h
  exact ⟨clocks ++ [now], by rw [List.foldl_append]; rfl⟩

/-- A row that never expires stays. -/
theorem Swept.lookup {rows rows' : Shard} (h : Swept rows rows') {id : CString} {r : Row}
    (hr : rows.lookup id = some r) (httl : r.ttl = none) : rows'.lookup id = some r := by
  obtain ⟨clocks, rfl⟩ := h
  induction clocks generalizing rows with
  | nil => exact hr
  | cons now clocks ih =>
    refine ih ?_
    have hkept : r.purged now = false := by
      unfold Row.purged
      rw [httl]
      rfl
    rw [lookup_edbShardCleanup, hr, Option.filter_some, hkept]
    rfl

/-- The handle that `shard_for` finds in the table reads these rows. -/
def Shows (s : Restoring) (key : CString) (rows : Shard) : Prop :=
  ∀ i ∈ s.store.manager.table, s.store.key i = key → Swept rows (s.store.rows (s.store.db i))

/-- The shard is neither written, removed nor uploaded again in this step. -/
def LetThrough (key : CString) (s : Restoring) : Label → Prop
  | .wipeKey key' | .gc key' | .unlink key' | .upload key' _ _ _ => key' ≠ key
  | .put i _ _ _ _ _ => s.store.key i ≠ key
  | _ => True

/-- A cached handle reads these rows already; if there is none, so does every handle that is
opened and not inserted yet. -/
def Unread (s : Restoring) (key : CString) (rows : Shard) : Prop :=
  s.Shows key rows ∧
    ((∃ j ∈ s.store.manager.table, s.store.key j = key) ∨
      ∀ i ∈ s.store.manager.opening, s.store.key i = key →
        Swept rows (s.store.rows (s.store.db i)))

/-- An engine that was just started. -/
def started (d : Directory) : Restoring := { store := d.store }

/-! ## The steps -/

section Steps

variable {isSystemKey : CString → Bool} {decode : List UInt8 → Option Shard} {s s' : Restoring}

/-- A final chunk is answered 200 when the file was renamed. -/
theorem final_eq {key : CString} {offset : Int} {body : List UInt8} {rows : Shard}
    (hfinal : s.handleRestoreShardUpload isSystemKey decode key offset body true = (s', 200))
    (hrows : decode (s.written key offset body) = some rows) :
    s' = { s with
      store := s.store.rename key rows, rtmp := Function.update s.rtmp key none } := by
  unfold handleRestoreShardUpload at hfinal
  split at hfinal
  · cases hfinal
  split at hfinal
  · cases hfinal
  split at hfinal
  · cases hfinal
  split at hfinal
  · cases hfinal
  rw [if_pos rfl, hrows] at hfinal
  exact (Prod.mk.inj hfinal).1.symm

variable (isSystemKey decode) in
/-- An upload renames one file, or none. -/
theorem upload_store (s : Restoring) (key : CString) (offset : Int) (body : List UInt8)
    (final : Bool) :
    (s.handleRestoreShardUpload isSystemKey decode key offset body final).1.store = s.store ∨
      ∃ rows, (s.handleRestoreShardUpload isSystemKey decode key offset body final).1.store =
        s.store.rename key rows := by
  unfold handleRestoreShardUpload
  split
  · exact Or.inl rfl
  split
  · exact Or.inl rfl
  split
  · exact Or.inl rfl
  split
  · exact Or.inl rfl
  split
  · cases decode (s.written key offset body) with
    | none => exact Or.inl rfl
    | some rows => exact Or.inr ⟨rows, rfl⟩
  · exact Or.inl rfl

theorem wipe_store (s : Restoring) (keys : List CString) :
    (s.handleRestoreWipe isSystemKey keys).1.store = s.store := by
  unfold handleRestoreWipe
  split <;> rfl

/-- An operation of the engine takes its section. -/
theorem engine_of_step {l : Manager.Label}
    (hstep : s.step isSystemKey decode (.engine l) = some s') :
    (∀ key, l ≠ .gc key) ∧ ∃ t, s.store.engine l = some t ∧ s' = { s with store := t } := by
  have hmap : ∀ o : Option Store, o.map (fun t => { s with store := t }) = some s' →
      ∃ t, o = some t ∧ s' = { s with store := t } := by
    intro o ho
    obtain ⟨t, ht, heq⟩ := Option.map_eq_some_iff.mp ho
    exact ⟨t, ht, heq.symm⟩
  cases l with
  | gc key => cases hstep
  | lookup key => exact ⟨nofun, hmap (s.store.engine (.lookup key)) hstep⟩
  | openShard key => exact ⟨nofun, hmap (s.store.engine (.openShard key)) hstep⟩
  | insert i acquires noMemory =>
    exact ⟨nofun, hmap (s.store.engine (.insert i acquires noMemory)) hstep⟩
  | release i => exact ⟨nofun, hmap (s.store.engine (.release i)) hstep⟩
  | cleanup noMemory => exact ⟨nofun, hmap (s.store.engine (.cleanup noMemory)) hstep⟩
  | maintain ofPartition => exact ⟨nofun, hmap (s.store.engine (.maintain ofPartition)) hstep⟩
  | free i => exact ⟨nofun, hmap (s.store.engine (.free i)) hstep⟩

/-- What holds in every state. -/
structure Sane (s : Store) : Prop where
  consistent : s.manager.Consistent
  homed : ∃ home, s.Homed home

theorem sane_started (d : Directory) : Sane (started d).store where
  consistent := Manager.sound_empty.consistent
  homed := Store.exists_homed d

theorem Sane.engine {s t : Store} (h : Sane s) {l : Manager.Label} (hstep : s.engine l = some t) :
    Sane t where
  consistent := h.consistent.step (Store.manager_engine hstep)
  homed := by
    obtain ⟨home, hhomed⟩ := h.homed
    exact hhomed.engine hstep

/-- Writing to a file changes nothing but its rows. -/
theorem Sane.rows {s : Store} (h : Sane s) (rows : Nat → Shard) :
    Sane { s with rows := rows } where
  consistent := h.consistent
  homed := by
    obtain ⟨home, hhomed⟩ := h.homed
    exact ⟨home, hhomed.file, hhomed.db⟩

theorem Sane.rename {s : Store} (h : Sane s) (key : CString) (rows : Shard) :
    Sane (s.rename key rows) where
  consistent := h.consistent
  homed := by
    obtain ⟨home, hhomed⟩ := h.homed
    exact ⟨_, hhomed.rename key rows⟩

theorem Sane.unlink {s : Store} (h : Sane s) (key : CString) : Sane (s.unlink key) where
  consistent := h.consistent
  homed := by
    obtain ⟨home, hhomed⟩ := h.homed
    exact ⟨home, hhomed.unlink key⟩

theorem Sane.put {s : Store} (h : Sane s) (i : Nat) (now : Int) (id jsonValue : CString)
    (ttlSeconds : Int) (notices : Bool) :
    Sane ((s.put i now id jsonValue ttlSeconds notices).getD s) := by
  unfold Store.put
  split
  · exact h
  · exact h.rows _

theorem Sane.step {l : Label} (h : Sane s.store)
    (hstep : s.step isSystemKey decode l = some s') : Sane s'.store := by
  -- a collection of the restore is one of the engine
  have hgc : ∀ key, Sane (s.edbShardGc key).store := fun key => by
    have hengine : s.store.engine (.gc key) = some (s.edbShardGc key).store := rfl
    exact h.engine hengine
  cases l with
  | lock | unlock =>
    obtain rfl := Option.some.inj hstep
    exact h
  | wipe keys =>
    obtain rfl := Option.some.inj hstep
    rw [wipe_store]
    exact h
  | wipeKey key =>
    obtain ⟨-, heq⟩ := Option.ite_none_right_eq_some.mp hstep
    obtain rfl := Option.some.inj heq
    exact hgc key
  | gc key =>
    obtain rfl := Option.some.inj hstep
    exact hgc key
  | unlink key =>
    obtain ⟨-, heq⟩ := Option.ite_none_right_eq_some.mp hstep
    obtain rfl := Option.some.inj heq
    exact h.unlink key
  | upload key offset body final =>
    obtain rfl := Option.some.inj hstep
    rcases s.upload_store isSystemKey decode key offset body final with heq | ⟨rows, heq⟩
    · rw [heq]
      exact h
    · rw [heq]
      exact h.rename key rows
  | engine l =>
    obtain ⟨-, t, ht, rfl⟩ := engine_of_step hstep
    exact h.engine ht
  | put i now id jsonValue ttlSeconds notices =>
    obtain ⟨-, heq⟩ := Option.ite_none_right_eq_some.mp hstep
    obtain rfl := Option.some.inj heq
    exact h.put ..
  | cleanup i now =>
    obtain ⟨-, heq⟩ := Option.ite_none_right_eq_some.mp hstep
    obtain rfl := Option.some.inj heq
    exact h.rows _

theorem Sane.run {ls : List Label} (h : Sane s.store)
    (hrun : Runs.run (Restoring.step isSystemKey decode) s ls = some s') : Sane s'.store :=
  Runs.of_throughout (P := fun s => Sane s.store)
    (Runs.throughout_of_inv (fun _ _ _ h hstep => Sane.step h hstep) h ls) hrun

/-! ## After the final chunk -/

/-- What the steps that leave a shard to its readers keep: its file has the uploaded rows, and
nobody is about to show others. -/
structure Restored (key : CString) (rows : Shard) (s : Restoring) : Prop where
  sane : Sane s.store
  file : ∃ f, s.store.file key = some f ∧ Swept rows (s.store.rows f)
  unread : s.Unread key rows

variable {key : CString} {rows : Shard}

/-- Handles that are opened from now on read the file of the shard. -/
theorem Restored.edbShardOpen (h : Restored key rows s) (key' : CString) :
    Restored key rows { s with store := s.store.edbShardOpen key' } := by
  obtain ⟨home, hhomed⟩ := h.sane.homed
  obtain ⟨f, hf, hrows⟩ := h.file
  have hentered : ∀ i ∈ s.store.manager.table, i < s.store.manager.opened := fun i hi =>
    h.sane.consistent.entered i (h.sane.consistent.table i hi)
  -- the handles there were read what they read before
  have hold : ∀ i < s.store.manager.opened,
      (s.store.edbShardOpen key').rows ((s.store.edbShardOpen key').db i) =
        s.store.rows (s.store.db i) := by
    intro i hi
    rw [Store.db_edbShardOpen, Function.update_of_ne hi.ne]
    exact s.store.openFile_rows key' (hhomed.db i hi).2
  have hsane : Sane (s.store.edbShardOpen key') := by
    have hengine : s.store.engine (.openShard key') = some (s.store.edbShardOpen key') := rfl
    exact h.sane.engine hengine
  refine ⟨hsane, ⟨f, (s.store.openFile_spec key').2 key f hf, ?_⟩, fun i hi hkey => ?_, ?_⟩
  · rw [show (s.store.edbShardOpen key').rows f = s.store.rows f from
      s.store.openFile_rows key' (hhomed.file key f hf).2]
    exact hrows
  · dsimp only at hkey ⊢
    rw [Store.key_edbShardOpen _ _ (hentered i hi)] at hkey
    rw [hold i (hentered i hi)]
    exact h.unread.1 i hi hkey
  · rcases h.unread.2 with ⟨j, hj, hkey⟩ | hopening
    · exact Or.inl ⟨j, hj, (Store.key_edbShardOpen _ _ (hentered j hj)).trans hkey⟩
    · refine Or.inr fun i hi hkey => ?_
      dsimp only at hkey ⊢
      rcases List.mem_cons.mp hi with rfl | hi
      · rw [Store.key_opened] at hkey
        subst hkey
        have hopened : (s.store.openFile key').2 = f := by
          have hspec := (s.store.openFile_spec key').1
          rw [(s.store.openFile_spec key').2 key' f hf] at hspec
          exact (Option.some.inj hspec).symm
        rw [Store.db_edbShardOpen, Function.update_self, hopened]
        rw [show (s.store.edbShardOpen key').rows f = s.store.rows f from
          s.store.openFile_rows key' (hhomed.file key' f hf).2]
        exact hrows
      · have hlt := (h.sane.consistent.opening.2 i hi).2
        rw [Store.key_edbShardOpen _ _ hlt] at hkey
        rw [hold i hlt]
        exact hopening i hi hkey

/-- A handle that is inserted shows the rows of the file, or is dropped. -/
theorem Restored.carries (h : Restored key rows s) {l : Manager.Label} {m : Manager}
    (hstep : s.store.manager.step l = some m) (hopen : ∀ key, l ≠ .openShard key)
    (hgc : l ≠ .gc key) {t : Restoring} (ht : t.store = { s.store with manager := m }) :
    Restored key rows t := by
  have hcarries := Manager.carries_step hstep hopen
  have hcons : m.Consistent := h.sane.consistent.step hstep
  obtain ⟨home, hhomed⟩ := h.sane.homed
  have hstays : ∀ j ∈ s.store.manager.table, s.store.key j = key → j ∈ m.table := by
    intro j hj hkey
    refine Manager.mem_table_step hstep hj fun key' heq hkey' => ?_
    obtain rfl : key' = key := hkey'.symm.trans hkey
    exact hgc heq
  have hkey : ∀ i, t.store.key i = s.store.key i := by
    intro i
    rw [ht]
    exact hcarries.key i
  -- sane, with the file, and every handle of the shard that is entered or on its way shows it
  refine ⟨?_, ?_, fun i hi hikey => ?_, ?_⟩
  · rw [ht]
    refine ⟨hcons, home, hhomed.file, fun i hi => ?_⟩
    have hlt : i < s.store.manager.opened := hcarries.opened ▸ hi
    exact ⟨(hhomed.db i hlt).1.trans (hcarries.key i).symm, (hhomed.db i hlt).2⟩
  · rw [ht]
    exact h.file
  · rw [hkey] at hikey
    rw [ht] at hi ⊢
    rcases hcarries.table i hi with hold | hopened
    · exact h.unread.1 i hold hikey
    · rcases h.unread.2 with ⟨j, hj, hjkey⟩ | hopening
      · -- the shard has a handle, so this one is not inserted
        have heq : j = i := List.inj_on_of_nodup_map hcons.keys (hstays j hj hjkey) hi
          ((hcarries.key j).trans (hjkey.trans (hikey.symm.trans (hcarries.key i).symm)))
        subst heq
        exact h.unread.1 j hj hjkey
      · exact hopening i hopened hikey
  · rcases h.unread.2 with ⟨j, hj, hjkey⟩ | hopening
    · refine Or.inl ⟨j, ?_, (hkey j).trans hjkey⟩
      rw [ht]
      exact hstays j hj hjkey
    · refine Or.inr fun i hi hikey => ?_
      rw [hkey] at hikey
      rw [ht] at hi ⊢
      exact hopening i (hcarries.opening i hi) hikey

/-- Other shards have other files. -/
theorem Restored.writes (h : Restored key rows s) (rows' : Nat → Shard)
    (hrows : ∀ f, Swept rows (s.store.rows f) →
      (s.store.file key = some f ∨ ∃ i < s.store.manager.opened, s.store.key i = key ∧
        s.store.db i = f) → Swept rows (rows' f)) :
    Restored key rows { s with store := { s.store with rows := rows' } } := by
  have hentered : ∀ i ∈ s.store.manager.table, i < s.store.manager.opened := fun i hi =>
    h.sane.consistent.entered i (h.sane.consistent.table i hi)
  obtain ⟨f, hf, hswept⟩ := h.file
  refine ⟨h.sane.rows rows', ⟨f, hf, hrows f hswept (Or.inl hf)⟩, fun i hi hkey => ?_, ?_⟩
  · exact hrows _ (h.unread.1 i hi hkey) (Or.inr ⟨i, hentered i hi, hkey, rfl⟩)
  · refine h.unread.2.imp_right fun hopening i hi hkey => ?_
    exact hrows _ (hopening i hi hkey)
      (Or.inr ⟨i, (h.sane.consistent.opening.2 i hi).2, hkey, rfl⟩)

theorem Restored.unlink (h : Restored key rows s) {key' : CString} (hne : key' ≠ key)
    {t : Restoring} (ht : t.store = s.store.unlink key') : Restored key rows t := by
  obtain ⟨f, hf, hswept⟩ := h.file
  have hfile : t.store.file key = some f := by
    rw [ht]
    exact (Function.update_of_ne hne.symm ..).trans hf
  refine ⟨ht ▸ h.sane.unlink key', ⟨f, hfile, ?_⟩, ?_⟩
  · rw [ht]
    exact hswept
  · unfold Unread Shows
    rw [ht]
    exact h.unread

theorem Restored.rename (h : Restored key rows s) {key' : CString} (hne : key' ≠ key)
    {rows' : Shard} {t : Restoring} (ht : t.store = s.store.rename key' rows') :
    Restored key rows t := by
  obtain ⟨home, hhomed⟩ := h.sane.homed
  obtain ⟨f, hf, hswept⟩ := h.file
  have hwritten := h.writes (Function.update s.store.rows s.store.made rows') fun g hg hold => by
    have hlt : g < s.store.made := by
      rcases hold with hfile | ⟨i, hi, -, rfl⟩
      · exact (hhomed.file key g hfile).2
      · exact (hhomed.db i hi).2
    rw [Function.update_of_ne hlt.ne]
    exact hg
  refine ⟨ht ▸ h.sane.rename key' rows', ⟨f, ?_, ?_⟩, ?_⟩
  · rw [ht]
    exact (Function.update_of_ne hne.symm ..).trans hf
  · rw [ht]
    show Swept rows (Function.update s.store.rows s.store.made rows' f)
    rw [Function.update_of_ne (hhomed.file key f hf).2.ne]
    exact hswept
  · unfold Unread Shows
    rw [ht]
    exact hwritten.unread

/-- **Every step** that leaves the shard to its readers keeps it restored. -/
theorem Restored.step {l : Label} (h : Restored key rows s) (hl : LetThrough key s l)
    (hstep : s.step isSystemKey decode l = some s') : Restored key rows s' := by
  -- steps that leave the store alone, and closings of another shard's handle
  have hsame : ∀ {t : Restoring}, t.store = s.store → Restored key rows t := by
    intro t ht
    exact ⟨ht ▸ h.sane, ht ▸ h.file, by unfold Unread Shows; rw [ht]; exact h.unread⟩
  have hgc : ∀ {key' : CString} {t : Restoring}, key' ≠ key →
      t.store = { s.store with manager := s.store.manager.edbShardGc key' } →
      Restored key rows t := by
    intro key' t hne ht
    have hsection : s.store.manager.step (.gc key') = some (s.store.manager.edbShardGc key') := rfl
    refine h.carries hsection nofun (fun heq => ?_) ht
    exact hne (Manager.Label.gc.inj heq)
  cases l with
  | lock | unlock =>
    obtain rfl := Option.some.inj hstep
    exact hsame rfl
  | wipe keys =>
    obtain rfl := Option.some.inj hstep
    exact hsame (s.wipe_store keys)
  | wipeKey key' =>
    obtain ⟨-, heq⟩ := Option.ite_none_right_eq_some.mp hstep
    obtain rfl := Option.some.inj heq
    exact hgc hl rfl
  | gc key' =>
    obtain rfl := Option.some.inj hstep
    exact hgc hl rfl
  | unlink key' =>
    obtain ⟨-, heq⟩ := Option.ite_none_right_eq_some.mp hstep
    obtain rfl := Option.some.inj heq
    exact h.unlink hl rfl
  | upload key' offset body final =>
    -- until the last chunk nothing but the upload changes
    obtain rfl := Option.some.inj hstep
    rcases s.upload_store isSystemKey decode key' offset body final with heq | ⟨rows', heq⟩
    · exact hsame heq
    · exact h.rename hl heq
  | engine l =>
    -- an open finds the file that is there; the other sections touch no file
    obtain ⟨hne, t, ht, rfl⟩ := engine_of_step hstep
    rcases Store.engine_cases ht with ⟨key', rfl, rfl⟩ | ⟨hopen, hmanager, heq⟩
    · exact h.edbShardOpen key'
    · exact h.carries hmanager hopen (hne key) heq
  | put i now id jsonValue ttlSeconds notices =>
    obtain ⟨hi, heq⟩ := Option.ite_none_right_eq_some.mp hstep
    obtain rfl := Option.some.inj heq
    have hkey : s.store.key i ≠ key := hl
    unfold Store.put
    split
    · exact hsame rfl
    · -- the file that is written belongs to another shard
      obtain ⟨home, hhomed⟩ := h.sane.homed
      have hopened : i < s.store.manager.opened :=
        h.sane.consistent.entered i (h.sane.consistent.users i hi)
      refine h.writes _ fun f hf hold => ?_
      have hne : f ≠ s.store.db i := by
        rintro rfl
        refine hkey ((hhomed.db i hopened).1.symm.trans ?_)
        rcases hold with hfile | ⟨j, hj, hjkey, hdb⟩
        · exact (hhomed.file key _ hfile).1
        · exact hdb ▸ (hhomed.db j hj).1.trans hjkey
      rw [Function.update_of_ne hne]
      exact hf
  | cleanup i now =>
    -- a cleanup of the shard itself leaves swept rows
    obtain ⟨-, heq⟩ := Option.ite_none_right_eq_some.mp hstep
    obtain rfl := Option.some.inj heq
    refine h.writes _ fun f hf _ => ?_
    by_cases hfile : f = s.store.db i
    · subst hfile
      rw [Function.update_self]
      exact hf.cleanup now
    · rw [Function.update_of_ne hfile]
      exact hf

/-- The handles there were read what they read before the file was renamed. -/
theorem unread_rename (h : Sane s.store) {t : Restoring} (ht : t.store = s.store.rename key rows) :
    t.Unread key rows ↔ s.Unread key rows := by
  obtain ⟨home, hhomed⟩ := h.homed
  have hold : ∀ i < s.store.manager.opened,
      Function.update s.store.rows s.store.made rows (s.store.db i) =
        s.store.rows (s.store.db i) := fun i hi => Function.update_of_ne (hhomed.db i hi).2.ne ..
  have htable : ∀ i ∈ s.store.manager.table, i < s.store.manager.opened := fun i hi =>
    h.consistent.entered i (h.consistent.table i hi)
  have hopening : ∀ i ∈ s.store.manager.opening, i < s.store.manager.opened := fun i hi =>
    (h.consistent.opening.2 i hi).2
  unfold Unread Shows
  rw [ht]
  refine and_congr ?_ (or_congr_right ?_)
  · refine forall_congr' fun i => forall_congr' fun hi => forall_congr' fun _ => ?_
    show Swept rows (Function.update s.store.rows s.store.made rows (s.store.db i)) ↔ _
    rw [hold i (htable i hi)]
  · refine forall_congr' fun i => forall_congr' fun hi => forall_congr' fun _ => ?_
    show Swept rows (Function.update s.store.rows s.store.made rows (s.store.db i)) ↔ _
    rw [hold i (hopening i hi)]

variable (isSystemKey decode) in
/-- Without a handle of its shard in the table, a handle that is inserted is one that is found. -/
theorem shows_inserted {i : Nat} (hi : i ∈ s.store.manager.opening) (hkey : s.store.key i = key)
    (hnone : ∀ j ∈ s.store.manager.table, s.store.key j ≠ key)
    (hshows : ∀ t, s.step isSystemKey decode (.engine (.insert i true false)) = some t →
      t.Shows key rows) : Swept rows (s.store.rows (s.store.db i)) := by
  have hfound : s.store.manager.findLocked (s.store.manager.handle i).key = none := by
    cases hfound : s.store.manager.findLocked (s.store.manager.handle i).key with
    | none => rfl
    | some j =>
      obtain ⟨hj, hjkey⟩ := Manager.findLocked_spec hfound
      exact absurd (hjkey.trans hkey) (hnone j hj)
  have hmanager : s.store.manager.step (.insert i true false) =
      some (s.store.manager.insertShard i true false) := if_pos hi
  have htable : i ∈ (s.store.manager.insertShard i true false).table := by
    unfold Manager.insertShard
    rw [hfound]
    exact List.mem_cons_self
  have hstep : s.step isSystemKey decode (.engine (.insert i true false)) =
      some { s with store :=
        { s.store with manager := s.store.manager.insertShard i true false } } := by
    show (s.store.engine (.insert i true false)).map _ = _
    rw [Store.engine_of_ne (l := .insert i true false) nofun, hmanager]
    rfl
  refine hshows _ hstep i htable ?_
  exact ((Manager.carries_step hmanager nofun).key i).trans hkey

/-- **Restored content is visible**: after a final chunk that is answered 200 everyone who asks the
engine for the shard reads the uploaded rows, in every order of the steps that leave the shard to
its readers, exactly when no other handle of the shard was cached before, or about to be. -/
theorem shows_restored_iff (d : Directory) {ls : List Label}
    (hrun : Runs.run (Restoring.step isSystemKey decode) (started d) ls = some s)
    {offset : Int} {body : List UInt8} (hrows : decode (s.written key offset body) = some rows)
    (hfinal : s.handleRestoreShardUpload isSystemKey decode key offset body true = (s', 200)) :
    (∀ later, Runs.Along (Restoring.step isSystemKey decode) (LetThrough key) s' later →
        Runs.Throughout (Restoring.step isSystemKey decode) (Shows · key rows) s' later) ↔
      s.Unread key rows := by
  have hsane : Sane s.store := Sane.run (sane_started d) hrun
  have hs' := final_eq hfinal hrows
  have hstore : s'.store = s.store.rename key rows := by rw [hs']
  rw [← unread_rename hsane hstore]
  constructor
  · intro hshows
    refine ⟨hshows [] trivial, ?_⟩
    by_cases hcached : ∃ j ∈ s'.store.manager.table, s'.store.key j = key
    · exact Or.inl hcached
    · -- a handle that was opened before is inserted in one more step
      refine Or.inr fun i hi hkey => ?_
      refine shows_inserted isSystemKey decode hi hkey
        (fun j hj hjkey => hcached ⟨j, hj, hjkey⟩) fun t ht => ?_
      have hthroughout := hshows [.engine (.insert i true false)] ⟨trivial, by rw [ht]; trivial⟩
      exact Runs.of_throughout (P := (Shows · key rows)) hthroughout (Runs.run_cons [] ht)
  · intro hunread later halong
    have hrestored : Restored key rows s' := by
      refine ⟨hstore ▸ hsane.rename key rows, ⟨s.store.made, ?_, ?_⟩, hunread⟩
      · rw [hstore]
        exact Function.update_self ..
      · rw [hstore]
        show Swept rows (Function.update s.store.rows s.store.made rows s.store.made)
        rw [Function.update_self]
        exact Swept.refl rows
    exact Runs.throughout_mono (fun _ h => h.unread.1)
      (Runs.throughout_of_along (fun _ _ _ h hl hstep => h.step hl hstep) hrestored halong)

end Steps

/-! ## Two restores -/

/-- Some key. -/
def sampleKey : CString := List.replicate 32 48

/-- What a file of a backup stands for here, with one row. -/
def sampleFile : List UInt8 := cstr "SQLite format 3"

def sampleRows : Shard := edbShardPut 100 ∅ (cstr "a") (cstr "1") (-1)

/-- SQLite takes an empty file for an empty database. -/
def sampleDecode (file : List UInt8) : Option Shard :=
  if file = [] then some ∅ else if file = sampleFile then some sampleRows else none

/-- A shard that is cached is wiped. -/
def wiped : List Label :=
  [.engine (.openShard sampleKey), .engine (.insert 0 true false), .engine (.release 0), .lock,
    .wipe [sampleKey], .wipeKey sampleKey, .unlink sampleKey, .engine (.release 0),
    .engine (.free 0)]

/-- A peer asks for a record of the shard. -/
def query : List Label :=
  [.engine (.lookup sampleKey), .engine (.openShard sampleKey), .engine (.insert 1 true false),
    .engine (.release 1)]

/-- It does so before the final chunk. -/
def queried : List Label := wiped ++ query

/-- The node after these steps. -/
def after (ls : List Label) : Restoring :=
  (Runs.run (step (fun _ => false) sampleDecode) (started .empty) ls).getD (started .empty)

/-- The final chunk, which is the only one. -/
def finalChunk (s : Restoring) : Restoring × Nat :=
  s.handleRestoreShardUpload (fun _ => false) sampleDecode sampleKey 0 sampleFile true

/-- Nobody asks for the shard between the wipe and the final chunk, and a peer does then. -/
theorem shows_restored_wiped :
    (after wiped).Unread sampleKey sampleRows ∧
      Runs.Along (step (fun _ => false) sampleDecode) (LetThrough sampleKey)
        (finalChunk (after wiped)).1 query ∧
      Runs.Throughout (step (fun _ => false) sampleDecode) (Shows · sampleKey sampleRows)
        (finalChunk (after wiped)).1 query := by
  have htable : (after wiped).store.manager.table = [] := by decide
  have hopening : (after wiped).store.manager.opening = [] := by decide
  have hunread : (after wiped).Unread sampleKey sampleRows := by
    unfold Unread Shows
    rw [htable, hopening]
    exact ⟨nofun, Or.inr nofun⟩
  have hrun : Runs.run (step (fun _ => false) sampleDecode) (started .empty) wiped =
      some (after wiped) := rfl
  have hrows : sampleDecode ((after wiped).written sampleKey 0 sampleFile) = some sampleRows := rfl
  have hfinal : (after wiped).handleRestoreShardUpload (fun _ => false) sampleDecode sampleKey 0
      sampleFile true = ((finalChunk (after wiped)).1, 200) := rfl
  have hlater : Runs.Along (step (fun _ => false) sampleDecode) (LetThrough sampleKey)
      (finalChunk (after wiped)).1 query :=
    ⟨trivial, trivial, trivial, trivial, trivial⟩
  exact ⟨hunread, hlater, (shows_restored_iff .empty hrun hrows hfinal).mpr hunread query hlater⟩

/-- The handle that a peer's read has left in the table shows an empty shard to everyone. -/
theorem query_after_wipe :
    (Runs.run (step (fun _ => false) sampleDecode) (started .empty) queried).isSome = true ∧
      (finalChunk (after queried)).2 = 200 ∧
      ¬ ∀ later, Runs.Along (step (fun _ => false) sampleDecode) (LetThrough sampleKey)
          (finalChunk (after queried)).1 later →
        Runs.Throughout (step (fun _ => false) sampleDecode) (Shows · sampleKey sampleRows)
          (finalChunk (after queried)).1 later := by
  refine ⟨by decide, by decide, fun h => ?_⟩
  have hshows : (finalChunk (after queried)).1.Shows sampleKey sampleRows := h [] trivial
  have hswept := hshows 1 (by decide) (by decide)
  have hread := @Swept.lookup _ _ hswept (cstr "a") _ rfl rfl
  revert hread
  decide

end Restoring

end EpsilonDB
