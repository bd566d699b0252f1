import EpsilonDB.Engine.ShardFiles

/-!
# Removing and replacing shard files (`engine/manager.c`, `socket/epsilon_snap.c`)

`edb_shard_gc` takes the handle out of the table and unlinks the file after that. A snapshot is
renamed over a file, and `edb_shard_invalidate` then gives the cached handle a connection to the
new one. A thread that has opened a file in the meantime, and inserts its handle later, is not seen
by either.

- `Removal`, `Invalidation`, `Replacements`: the removals and replacements in progress.
- `Replacements.Label`, `Replacements.step`: their steps, and those of the engine's operations.
- `Quiet`: nothing is in progress for a shard.
- `Kept`: the handles in the table refer to the files at their paths, and what is put can be read
  after a restart.
- `Undisturbed`: the steps that find no handle between opening and inserting.
- `along_undisturbed_kept`: in the runs of such steps everything is kept.
- `opened_before`: runs where it is not.
-/

namespace EpsilonDB

/-- An `edb_shard_gc` after its section. It holds the lock of the handle it has taken out of the
table, if any, while it unlinks the file and until it returns. -/
structure Removal where
  key : CString
  handle : Option Nat
  unlinked : Bool
deriving DecidableEq

/-- How far an `edb_shard_invalidate` is. The file is missing when it cannot be opened. -/
inductive InvalidationStage where
  | found
  | opened (fresh : Option Nat)
deriving DecidableEq

/-- An `edb_shard_invalidate` that has looked for a handle, whose lock it holds. -/
structure Invalidation where
  key : CString
  handle : Option Nat
  stage : InvalidationStage
deriving DecidableEq

/-- An engine whose files are removed and replaced. -/
structure Replacements where
  store : Store
  removing : List Removal := []
  /-- shards whose file was renamed over, and that are to be invalidated -/
  replacing : List CString := []
  invalidating : List Invalidation := []

namespace Replacements

/-- Someone has the lock of a handle: `sh->lock`. -/
def Locked (s : Replacements) (i : Nat) : Prop :=
  (∃ r ∈ s.removing, r.handle = some i ∧ r.unlinked = true) ∨
    ∃ v ∈ s.invalidating, v.handle = some i

instance (s : Replacements) (i : Nat) : Decidable (s.Locked i) :=
  inferInstanceAs (Decidable (_ ∨ _))

/-- What the section of `edb_shard_gc` leaves to do. -/
def removals (s : Replacements) : Manager.Label → List Removal
  | .gc key => [⟨key, s.store.manager.findLocked key, false⟩]
  | _ => []

inductive Label where
  /-- a section of the engine -/
  | engine (l : Manager.Label)
  /-- `edb_shard_gc` locks its handle and unlinks the file -/
  | unlink (r : Removal)
  /-- `edb_shard_gc` unlocks it and returns -/
  | removed (r : Removal)
  /-- the `rename` of `snap_fetch` -/
  | fetch (key : CString) (rows : Shard)
  /-- the section of `edb_shard_invalidate` -/
  | invalidate (key : CString)
  /-- `edb_shard_open` of `edb_shard_invalidate`, which can fail -/
  | reopen (v : Invalidation) (fails : Bool)
  /-- the end of `edb_shard_invalidate`, after `PRAGMA integrity_check` -/
  | invalidated (v : Invalidation) (ok : Bool)
  /-- `edb_shard_put` -/
  | put (i : Nat) (now : Int) (id jsonValue : CString) (ttlSeconds : Int) (notices : Bool)

/-- The connection of the handle is swapped when the new one is sound. -/
def swap (s : Store) (v : Invalidation) (ok : Bool) : Store :=
  match v.handle, v.stage with
  | some i, .opened (some f) => if ok then { s with db := Function.update s.db i f } else s
  | _, _ => s

/-- One step. -/
def step (s : Replacements) : Label → Option Replacements
  | .engine l =>
    (s.store.engine l).map fun t => { s with store := t, removing := s.removals l ++ s.removing }
  | .unlink r =>
    if r ∈ s.removing ∧ r.unlinked = false ∧ ∀ i ∈ r.handle, ¬ s.Locked i then
      some { s with
        store := s.store.unlink r.key
        removing := { r with unlinked := true } :: s.removing.erase r }
    else none
  | .removed r =>
    if r ∈ s.removing ∧ r.unlinked = true then some { s with removing := s.removing.erase r }
    else none
  | .fetch key rows =>
    some { s with store := s.store.rename key rows, replacing := key :: s.replacing }
  | .invalidate key =>
    if key ∈ s.replacing ∧ ∀ i ∈ s.store.manager.findLocked key, ¬ s.Locked i then
      some { s with
        replacing := s.replacing.erase key
        invalidating := ⟨key, s.store.manager.findLocked key, .found⟩ :: s.invalidating }
    else none
  | .reopen v fails =>
    if v ∈ s.invalidating ∧ v.stage = .found then
      let fresh := s.store.openFile v.key
      if fails then
        some { s with
          invalidating := { v with stage := .opened none } :: s.invalidating.erase v }
      else
        some { s with
          store := fresh.1
          invalidating := { v with stage := .opened (some fresh.2) } :: s.invalidating.erase v }
    else none
  | .invalidated v ok =>
    if v ∈ s.invalidating ∧ v.stage ≠ .found then
      some { s with store := swap s.store v ok, invalidating := s.invalidating.erase v }
    else none
  | .put i now id jsonValue ttlSeconds notices =>
    if i ∈ s.store.manager.users ∧ ¬ s.Locked i then
      some { s with
        store := (s.store.put i now id jsonValue ttlSeconds notices).getD s.store }
    else none

/-- The shard is neither being removed nor replaced. -/
def Quiet (s : Replacements) (key : CString) : Prop :=
  (∀ r ∈ s.removing, r.key ≠ key) ∧ key ∉ s.replacing ∧ ∀ v ∈ s.invalidating, v.key ≠ key

instance (s : Replacements) (key : CString) : Decidable (s.Quiet key) :=
  inferInstanceAs (Decidable (_ ∧ _ ∧ _))

/-- What the code is to keep. -/
structure Kept (s : Replacements) : Prop where
  /-- a handle in the table refers to the file at the path of its shard -/
  attached : ∀ i ∈ s.store.manager.table, s.Quiet (s.store.key i) → s.store.Attached i
  /-- and what is put through it can be read after a restart -/
  durable : ∀ i ∈ s.store.manager.table, s.Quiet (s.store.key i) →
    ∀ now id jsonValue ttlSeconds notices t,
      s.store.put i now id jsonValue ttlSeconds notices = some t →
      t.restart (s.store.key i) =
        edbShardPut now (s.store.restart (s.store.key i)) id jsonValue ttlSeconds

/-- No handle of a shard is cached, or opened and not inserted yet, when its file is unlinked; none
is opened and not inserted when another file is renamed over it; and when a handle is cached the
new file opens and is sound. -/
def Undisturbed (s : Replacements) : Label → Prop
  | .unlink r => ∀ i ∈ s.store.manager.table ++ s.store.manager.opening, s.store.key i ≠ r.key
  | .fetch key _ => ∀ i ∈ s.store.manager.opening, s.store.key i ≠ key
  | .invalidated v ok =>
    ∀ i ∈ s.store.manager.table, v.handle = some i → ok = true ∧ v.stage ≠ .opened none
  | _ => True

instance : ∀ (s : Replacements) (l : Label), Decidable (s.Undisturbed l)
  | s, .unlink r => inferInstanceAs (Decidable
      (∀ i ∈ s.store.manager.table ++ s.store.manager.opening, s.store.key i ≠ r.key))
  | s, .fetch key _ =>
    inferInstanceAs (Decidable (∀ i ∈ s.store.manager.opening, s.store.key i ≠ key))
  | s, .invalidated v ok => inferInstanceAs (Decidable
      (∀ i ∈ s.store.manager.table, v.handle = some i → ok = true ∧ v.stage ≠ .opened none))
  | _, .engine _ | _, .removed _ | _, .invalidate _ | _, .reopen _ _ | _, .put _ _ _ _ _ _ =>
    isTrue trivial

/-- What a run of such steps keeps. -/
structure Tracked (s : Replacements) : Prop where
  consistent : s.store.manager.Consistent
  opening : ∀ i ∈ s.store.manager.opening, s.store.Attached i
  /-- a cached handle that is not attached will get another connection -/
  table : ∀ i ∈ s.store.manager.table, s.store.Attached i ∨ s.store.key i ∈ s.replacing ∨
    ∃ v ∈ s.invalidating, v.handle = some i
  handle : ∀ v ∈ s.invalidating, ∀ i, v.handle = some i →
    i ∈ s.store.manager.entered ∧ s.store.key i = v.key
  /-- and that is a connection to the file at the path, or will be replaced itself -/
  fresh : ∀ v ∈ s.invalidating, ∀ i ∈ s.store.manager.table, v.handle = some i →
    ∀ f, v.stage = .opened (some f) → s.store.file v.key = some f ∨ v.key ∈ s.replacing

variable {s s' : Replacements}

theorem Tracked.kept (h : s.Tracked) : s.Kept := by
  have hattached : ∀ i ∈ s.store.manager.table, s.Quiet (s.store.key i) → s.store.Attached i := by
    intro i hi hquiet
    rcases h.table i hi with hattached | hreplacing | ⟨v, hv, hhandle⟩
    · exact hattached
    · exact absurd hreplacing hquiet.2.1
    · exact absurd (h.handle v hv i hhandle).2.symm (hquiet.2.2 v hv)
  exact ⟨hattached, fun i hi hquiet _ _ _ _ _ t hput =>
    Store.restart_put (hattached i hi hquiet) hput⟩

/-! ## The steps of the engine -/

theorem Tracked.edbShardOpen (h : s.Tracked) (key : CString) :
    Tracked { s with store := s.store.edbShardOpen key } := by
  obtain ⟨hnew, hkept⟩ := Store.attached_edbShardOpen (s := s.store) key
  have hentered : ∀ i ∈ s.store.manager.entered, i < s.store.manager.opened := h.consistent.entered
  refine ⟨h.consistent.edbShardOpen key, fun i hi => ?_, fun i hi => ?_, fun v hv i hhandle => ?_,
    fun v hv i hi hhandle f hstage => ?_⟩
  · rcases List.mem_cons.mp hi with rfl | hi
    · exact hnew
    · exact hkept i (h.consistent.opening.2 i hi).2 (h.opening i hi)
  · have hlt := hentered i (h.consistent.table i hi)
    refine (h.table i hi).imp (hkept i hlt) (Or.imp_left fun hreplacing => ?_)
    rw [Store.key_edbShardOpen _ _ hlt]
    exact hreplacing
  · obtain ⟨hmem, hkey⟩ := h.handle v hv i hhandle
    exact ⟨hmem, (Store.key_edbShardOpen _ _ (hentered i hmem)).trans hkey⟩
  · exact (h.fresh v hv i hi hhandle f hstage).imp_left ((s.store.openFile_spec key).2 _ _)

theorem Tracked.carries (h : s.Tracked) {m : Manager} (hm : s.store.manager.Carries m)
    (hcons : m.Consistent) (removing : List Removal) :
    Tracked { s with store := { s.store with manager := m }, removing := removing } := by
  have hkey : ∀ i, Store.key { s.store with manager := m } i = s.store.key i := hm.key
  have hattached : ∀ i, s.store.Attached i → Store.Attached { s.store with manager := m } i := by
    intro i hi
    unfold Store.Attached
    rw [hkey]
    exact hi
  refine ⟨hcons, fun i hi => hattached i (h.opening i (hm.opening i hi)), fun i hi => ?_,
    fun v hv i hhandle => ?_, fun v hv i hi hhandle f hstage => ?_⟩
  · dsimp only
    rw [hkey]
    rcases hm.table i hi with hold | hopened
    · exact (h.table i hold).imp_left (hattached i)
    · exact Or.inl (hattached i (h.opening i hopened))
  · obtain ⟨hmem, hold⟩ := h.handle v hv i hhandle
    exact ⟨hm.entered i hmem, (hkey i).trans hold⟩
  · rcases hm.table i hi with hold | hopened
    · exact h.fresh v hv i hold hhandle f hstage
    · -- a handle that was opened just now was not in the table before
      exact absurd (h.handle v hv i hhandle).1 (h.consistent.opening.2 i hopened).1

theorem Tracked.engine (h : s.Tracked) {l : Manager.Label} {t : Store}
    (hstep : s.store.engine l = some t) :
    Tracked { s with store := t, removing := s.removals l ++ s.removing } := by
  rcases Store.engine_cases hstep with ⟨key, rfl, rfl⟩ | ⟨hne, hmanager, heq⟩
  · exact h.edbShardOpen key
  · rw [heq]
    exact h.carries (Manager.carries_step hmanager hne) (h.consistent.step hmanager) _

/-! ## The steps of removals and replacements -/

/-- Nobody has a connection to the file that is unlinked. -/
theorem Tracked.unlink (h : s.Tracked) {r : Removal} (removing : List Removal)
    (hfree : ∀ i ∈ s.store.manager.table ++ s.store.manager.opening, s.store.key i ≠ r.key) :
    Tracked { s with store := s.store.unlink r.key, removing := removing } := by
  have hfile : ∀ key, key ≠ r.key → (s.store.unlink r.key).file key = s.store.file key :=
    fun key hne => Function.update_of_ne hne ..
  have hattached : ∀ i ∈ s.store.manager.table ++ s.store.manager.opening, s.store.Attached i →
      (s.store.unlink r.key).Attached i := fun i hi hold => (hfile _ (hfree i hi)).trans hold
  refine ⟨h.consistent, fun i hi => ?_, fun i hi => ?_, h.handle, fun v hv i hi hhandle f hstage => ?_⟩
  · exact hattached i (List.mem_append_right _ hi) (h.opening i hi)
  · exact (h.table i hi).imp_left (hattached i (List.mem_append_left _ hi))
  · have hne := hfree i (List.mem_append_left _ hi)
    rw [(h.handle v hv i hhandle).2] at hne
    exact (h.fresh v hv i hi hhandle f hstage).imp_left (hfile _ hne).trans

/-- A cached handle is not attached any more, but the replacement will see to it. -/
theorem Tracked.fetch (h : s.Tracked) {key : CString} (rows : Shard)
    (hfree : ∀ i ∈ s.store.manager.opening, s.store.key i ≠ key) :
    Tracked { s with
      store := s.store.rename key rows, replacing := key :: s.replacing } := by
  have hfile : ∀ key', key' ≠ key → (s.store.rename key rows).file key' = s.store.file key' :=
    fun key' hne => Function.update_of_ne hne ..
  refine ⟨h.consistent, fun i hi => (hfile _ (hfree i hi)).trans (h.opening i hi), fun i hi => ?_,
    h.handle, fun v hv i hi hhandle f hstage => ?_⟩
  · by_cases hkey : s.store.key i = key
    · exact Or.inr (Or.inl (hkey ▸ List.mem_cons_self))
    · exact (h.table i hi).imp (hfile _ hkey).trans (Or.imp_left (List.mem_cons_of_mem key))
  · by_cases hkey : v.key = key
    · exact Or.inr (hkey ▸ List.mem_cons_self)
    · exact (h.fresh v hv i hi hhandle f hstage).imp (hfile _ hkey).trans (List.mem_cons_of_mem key)

/-- The table has one handle for a key, which is the one that is found. -/
theorem Tracked.findLocked (h : s.Tracked) {i : Nat} (hi : i ∈ s.store.manager.table) :
    s.store.manager.findLocked (s.store.key i) = some i := by
  cases hfound : s.store.manager.findLocked (s.store.key i) with
  | none => exact absurd (List.mem_map_of_mem hi) (Manager.findLocked_eq_none hfound)
  | some j =>
    obtain ⟨hj, hkey⟩ := Manager.findLocked_spec hfound
    exact congrArg some (List.inj_on_of_nodup_map h.consistent.keys hj hi hkey)

theorem Tracked.invalidate (h : s.Tracked) {key : CString}
    (hfree : ∀ i ∈ s.store.manager.findLocked key, ¬ s.Locked i) :
    Tracked { s with
      replacing := s.replacing.erase key
      invalidating := ⟨key, s.store.manager.findLocked key, .found⟩ :: s.invalidating } := by
  refine ⟨h.consistent, h.opening, fun i hi => ?_, fun v hv i hhandle => ?_,
    fun v hv i hi hhandle f hstage => ?_⟩
  · by_cases hkey : s.store.key i = key
    · exact Or.inr (Or.inr ⟨_, List.mem_cons_self, hkey ▸ h.findLocked hi⟩)
    · refine (h.table i hi).imp_right (Or.imp ?_ ?_)
      · exact (List.mem_erase_of_ne hkey).mpr
      · exact fun ⟨v, hv, hhandle⟩ => ⟨v, List.mem_cons_of_mem _ hv, hhandle⟩
  · rcases List.mem_cons.mp hv with rfl | hv
    · obtain ⟨hmem, hkey⟩ := Manager.findLocked_spec hhandle
      exact ⟨h.consistent.table i hmem, hkey⟩
    · exact h.handle v hv i hhandle
  · rcases List.mem_cons.mp hv with rfl | hv
    · cases hstage
    · refine (h.fresh v hv i hi hhandle f hstage).imp_right fun hreplacing => ?_
      refine (List.mem_erase_of_ne ?_).mpr hreplacing
      -- a handle of this key that is waited for would be locked
      intro hkey
      have hfound := h.findLocked hi
      rw [(h.handle v hv i hhandle).2, hkey] at hfound
      exact hfree i hfound (Or.inr ⟨v, hv, hhandle⟩)

/-- The other invalidations are as they were. -/
theorem mem_of_reopened {v w : Invalidation} {stage : InvalidationStage}
    (hw : w ∈ { v with stage := stage } :: s.invalidating.erase v) (hv : v ∈ s.invalidating) :
    ∃ w' ∈ s.invalidating, w'.key = w.key ∧ w'.handle = w.handle := by
  rcases List.mem_cons.mp hw with rfl | hw
  · exact ⟨v, hv, rfl, rfl⟩
  · exact ⟨w, List.mem_of_mem_erase hw, rfl, rfl⟩

/-- The invalidation that opens its file goes on. -/
theorem Tracked.reopen (h : s.Tracked) {v : Invalidation} (hv : v ∈ s.invalidating)
    {t : Store} {fresh : Option Nat} (ht : t.manager = s.store.manager ∧ t.db = s.store.db)
    (hfile : ∀ key f, s.store.file key = some f → t.file key = some f)
    (hfresh : ∀ f, fresh = some f → t.file v.key = some f) :
    Tracked { s with
      store := t
      invalidating := { v with stage := .opened fresh } :: s.invalidating.erase v } := by
  obtain ⟨manager, file, made, rows, db⟩ := t
  obtain ⟨rfl, rfl⟩ := ht
  refine ⟨h.consistent, fun i hi => hfile _ _ (h.opening i hi), fun i hi => ?_,
    fun w hw i hhandle => ?_, fun w hw i hi hhandle f hstage => ?_⟩
  · refine (h.table i hi).imp (hfile _ _) (Or.imp_right ?_)
    rintro ⟨w, hw, hhandle⟩
    by_cases heq : w = v
    · subst heq
      exact ⟨_, List.mem_cons_self, hhandle⟩
    · exact ⟨w, List.mem_cons_of_mem _ ((List.mem_erase_of_ne heq).mpr hw), hhandle⟩
  · obtain ⟨w', hw', hkey, heq⟩ := mem_of_reopened hw hv
    rw [← hkey]
    exact h.handle w' hw' i (heq.trans hhandle)
  · rcases List.mem_cons.mp hw with rfl | hw
    · exact Or.inl (hfresh f (InvalidationStage.opened.inj hstage))
    · exact (h.fresh w (List.mem_of_mem_erase hw) i hi hhandle f hstage).imp_left (hfile _ _)

theorem swap_manager (s : Store) (v : Invalidation) (ok : Bool) :
    (swap s v ok).manager = s.manager := by
  unfold swap
  split
  · split <;> rfl
  · rfl

theorem swap_file (s : Store) (v : Invalidation) (ok : Bool) : (swap s v ok).file = s.file := by
  unfold swap
  split
  · split <;> rfl
  · rfl

theorem swap_key (s : Store) (v : Invalidation) (ok : Bool) (i : Nat) :
    (swap s v ok).key i = s.key i := by
  unfold Store.key
  rw [swap_manager]

theorem db_swap (s : Store) {v : Invalidation} {i f : Nat} (hhandle : v.handle = some i)
    (hstage : v.stage = .opened (some f)) : (swap s v true).db i = f := by
  unfold swap
  rw [hhandle, hstage]
  exact Function.update_self ..

/-- The swap is about one handle. -/
theorem db_swap_of_ne (s : Store) {v : Invalidation} (ok : Bool) {i : Nat}
    (hne : v.handle ≠ some i) : (swap s v ok).db i = s.db i := by
  unfold swap
  split
  · rename_i j f hhandle _
    split
    · refine Function.update_of_ne ?_ ..
      rintro rfl
      exact hne hhandle
    · rfl
  · rfl

theorem attached_swap_of_ne (s : Store) {v : Invalidation} (ok : Bool) {i : Nat}
    (hne : v.handle ≠ some i) : (swap s v ok).Attached i ↔ s.Attached i := by
  unfold Store.Attached
  rw [swap_key, swap_file, db_swap_of_ne s ok hne]

/-- A handle that is swapped is attached, or its file is replaced again. -/
theorem Tracked.attached_swap (h : s.Tracked) {v : Invalidation} (hv : v ∈ s.invalidating)
    {i f : Nat} (hi : i ∈ s.store.manager.table) (hhandle : v.handle = some i)
    (hstage : v.stage = .opened (some f)) :
    (swap s.store v true).Attached i ∨ s.store.key i ∈ s.replacing := by
  have hkey := (h.handle v hv i hhandle).2
  rcases h.fresh v hv i hi hhandle f hstage with hfile | hreplacing
  · left
    unfold Store.Attached
    rw [swap_key, swap_file, hkey, hfile, db_swap _ hhandle hstage]
  · exact Or.inr (hkey ▸ hreplacing)

theorem Tracked.invalidated (h : s.Tracked) {v : Invalidation} {ok : Bool}
    (hv : v ∈ s.invalidating) (hstage : v.stage ≠ .found)
    (hsound : ∀ i ∈ s.store.manager.table, v.handle = some i →
      ok = true ∧ v.stage ≠ .opened none) :
    Tracked { s with
      store := swap s.store v ok, invalidating := s.invalidating.erase v } := by
  refine ⟨?_, fun i hi => ?_, fun i hi => ?_, fun w hw i hhandle => ?_,
    fun w hw i hi hhandle f hopened => ?_⟩
  · dsimp only
    rw [swap_manager]
    exact h.consistent
  · dsimp only at hi
    rw [swap_manager] at hi
    refine (attached_swap_of_ne s.store ok fun hhandle => ?_).mpr (h.opening i hi)
    exact (h.consistent.opening.2 i hi).1 (h.handle v hv i hhandle).1
  · dsimp only at hi ⊢
    rw [swap_manager] at hi
    rw [swap_key]
    by_cases hhandle : v.handle = some i
    · obtain ⟨rfl, hopened⟩ := hsound i hi hhandle
      cases hfresh : v.stage with
      | found => exact absurd hfresh hstage
      | opened fresh =>
        cases fresh with
        | none => exact absurd hfresh hopened
        | some f => exact (h.attached_swap hv hi hhandle hfresh).imp_right Or.inl
    · refine (h.table i hi).imp (attached_swap_of_ne s.store ok hhandle).mpr (Or.imp_right ?_)
      rintro ⟨w, hw, hwhandle⟩
      -- another invalidation has the handle, so it goes on
      have hne : w ≠ v := by
        rintro rfl
        exact hhandle hwhandle
      exact ⟨w, (List.mem_erase_of_ne hne).mpr hw, hwhandle⟩
  · dsimp only
    rw [swap_manager, swap_key]
    exact h.handle w (List.mem_of_mem_erase hw) i hhandle
  · dsimp only at hi ⊢
    rw [swap_manager] at hi
    rw [swap_file]
    exact h.fresh w (List.mem_of_mem_erase hw) i hi hhandle f hopened

/-- **Every step** that is undisturbed keeps the handles tracked. -/
theorem Tracked.step {l : Label} (h : s.Tracked) (hl : s.Undisturbed l)
    (hstep : s.step l = some s') : s'.Tracked := by
  cases l with
  | engine l =>
    obtain ⟨t, ht, rfl⟩ := Option.map_eq_some_iff.mp hstep
    exact h.engine ht
  | unlink r =>
    -- a file is only removed where nobody writes it any more
    obtain ⟨-, heq⟩ := Option.ite_none_right_eq_some.mp hstep
    obtain rfl := Option.some.inj heq
    exact h.unlink _ hl
  | removed r =>
    obtain ⟨-, heq⟩ := Option.ite_none_right_eq_some.mp hstep
    obtain rfl := Option.some.inj heq
    exact { h with }
  | fetch key rows =>
    obtain rfl := Option.some.inj hstep
    exact h.fetch rows hl
  | invalidate key =>
    obtain ⟨⟨-, hfree⟩, heq⟩ := Option.ite_none_right_eq_some.mp hstep
    obtain rfl := Option.some.inj heq
    exact h.invalidate hfree
  | reopen v fails =>
    -- where the open fails the handle has no file, else it has the one under the name
    obtain ⟨⟨hv, -⟩, heq⟩ := Option.ite_none_right_eq_some.mp hstep
    split at heq
    · obtain rfl := Option.some.inj heq
      exact h.reopen hv ⟨rfl, rfl⟩ (fun _ _ => id) nofun
    · obtain rfl := Option.some.inj heq
      obtain ⟨hopened, hkept⟩ := s.store.openFile_spec v.key
      refine h.reopen hv ⟨?_, ?_⟩ hkept fun f hf => hopened.trans hf
      · exact s.store.openFile_manager v.key
      · exact s.store.openFile_db v.key
  | invalidated v ok =>
    obtain ⟨⟨hv, hstage⟩, heq⟩ := Option.ite_none_right_eq_some.mp hstep
    obtain rfl := Option.some.inj heq
    exact h.invalidated hv hstage hl
  | put i now id jsonValue ttlSeconds notices =>
    obtain ⟨-, heq⟩ := Option.ite_none_right_eq_some.mp hstep
    obtain rfl := Option.some.inj heq
    unfold Store.put
    split
    · exact { h with }
    · exact { h with }

/-- An engine that was just started. -/
def started (d : Directory) : Replacements := { store := d.store }

theorem tracked_started (d : Directory) : (started d).Tracked where
  consistent := Manager.sound_empty.consistent
  opening := nofun
  table := nofun
  handle := nofun
  fresh := nofun

/-- **No write to a detached shard file**: in a run whose steps are undisturbed every handle in the
table refers to the file at the path of its shard, once no removal and no replacement of the shard
is in progress, and what is put through it can be read after a restart. -/
theorem along_undisturbed_kept (d : Directory) (ls : List Label)
    (h : Runs.Along step Undisturbed (started d) ls) :
    Runs.Throughout step Kept (started d) ls :=
  Runs.throughout_mono (fun _ htracked => htracked.kept)
    (Runs.throughout_of_along (fun _ _ _ htracked hl hstep => htracked.step hl hstep)
      (tracked_started d) h)

/-- Some key. -/
def someKey : CString := List.replicate 32 48

/-- A shard is written, replaced by a snapshot and removed. -/
def writtenReplacedRemoved : List Label :=
  [.engine (.openShard someKey), .engine (.insert 0 true false),
    .put 0 100 (cstr "a") (cstr "1") (-1) true, .engine (.release 0),
    .fetch someKey ∅, .invalidate someKey, .reopen ⟨someKey, some 0, .found⟩ false,
    .invalidated ⟨someKey, some 0, .opened (some 1)⟩ true,
    .engine (.gc someKey), .unlink ⟨someKey, some 0, false⟩, .removed ⟨someKey, some 0, true⟩,
    .engine (.release 0), .engine (.free 0)]

/-- One thread at a time. -/
theorem along_undisturbed_kept_sequential :
    (Runs.run step (started .empty) writtenReplacedRemoved).isSome = true ∧
      Runs.Throughout step Kept (started .empty) writtenReplacedRemoved :=
  ⟨by decide, along_undisturbed_kept .empty writtenReplacedRemoved (by decide)⟩

/-- A thread opens a shard, the shard is removed, and the thread inserts its handle. -/
def openedBeforeRemoval : List Label :=
  [.engine (.lookup someKey), .engine (.openShard someKey), .engine (.gc someKey),
    .unlink ⟨someKey, none, false⟩, .removed ⟨someKey, none, true⟩, .engine (.insert 0 true false)]

/-- A thread opens a shard, a snapshot replaces it, and the thread inserts its handle. -/
def openedBeforeReplacement : List Label :=
  [.engine (.lookup someKey), .engine (.openShard someKey), .fetch someKey ∅, .invalidate someKey,
    .reopen ⟨someKey, none, .found⟩ false, .invalidated ⟨someKey, none, .opened (some 1)⟩ true,
    .engine (.insert 0 true false)]

/-- The handle that is cached in the end refers to the file that was removed, or replaced. -/
theorem opened_before :
    ¬ Runs.Throughout step Kept (started .empty) openedBeforeRemoval ∧
      ¬ Runs.Throughout step Kept (started .empty) openedBeforeReplacement := by
  constructor
  · intro h
    have hattached := Runs.throughout_mono (fun _ hkept => hkept.attached) h
    revert hattached
    decide
  · intro h
    have hattached := Runs.throughout_mono (fun _ hkept => hkept.attached) h
    revert hattached
    decide

end Replacements

end EpsilonDB
