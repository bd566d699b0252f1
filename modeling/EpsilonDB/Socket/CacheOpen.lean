import EpsilonDB.Lib.Runs
import EpsilonDB.Socket.Repl

/-!
# Opening the change cache (`cache_open` in `socket/epsilon_repl_cache.c`)

Every start runs the same statements on `changes.sqlite`: they copy `PendingChanges`
into a fresh table of the current layout and put that one in its place. Each statement
is a transaction of its own, so a crash leaves the file as some prefix of them made it.

- `CacheTable`, `CacheFile`: the tables of the file.
- `SqlStatement.exec`, `cacheOpenStatements`: what `cache_open` executes.
- `interruptedOpen_pending`: what a crash leaves of the pending changes. The other table
  never matters, since the next open drops it.
- `recovered_iff`: an open after any crashes has every pending change exactly when no
  crash came between the last `DROP` and the `RENAME`, and no two of the changes differ
  in their payload alone.

A table of an older layout has the five columns the copy selects.
-/

namespace EpsilonDB

/-! ## Tables -/

/-- Two changes under one change id of one target. -/
def PendingRow.SameId (c d : PendingRow) : Prop := c.target = d.target ∧ c.cid = d.cid

instance (c d : PendingRow) : Decidable (c.SameId d) :=
  inferInstanceAs (Decidable (_ ∧ _))

theorem PendingRow.SameId.symm {c d : PendingRow} (h : c.SameId d) : d.SameId c :=
  ⟨h.1.symm, h.2.symm⟩

/-- No two of the changes differ in their payload alone. -/
def Unambiguous (rows : List PendingRow) : Prop :=
  ∀ c ∈ rows, ∀ d ∈ rows, c.SameId d → c = d

/-- A row of `PendingChanges` as it is stored. -/
structure CacheRow where
  seq : Int
  change : PendingRow
  created : Int
deriving DecidableEq

/-- Two rows that `UNIQUE(target, cid)` does not let stand side by side. -/
def CacheRow.SameId (r s : CacheRow) : Prop := r.change.SameId s.change

instance (r s : CacheRow) : Decidable (r.SameId s) :=
  inferInstanceAs (Decidable (r.change.SameId s.change))

instance : Std.Symm fun r s : CacheRow => ¬ r.SameId s where
  symm _ _ h hid := h hid.symm

/-- The row breaks `PRIMARY KEY(seq)` or `UNIQUE(target, cid)` next to another one. -/
def CacheRow.Clashes (r s : CacheRow) : Prop := r.seq = s.seq ∨ r.SameId s

instance (r s : CacheRow) : Decidable (r.Clashes s) :=
  inferInstanceAs (Decidable (_ ∨ _))

/-- The layout of the `CREATE TABLE` statements, or one that a file had before. -/
inductive CacheLayout where
  | current
  | old
deriving DecidableEq

/-- A table of the file, its rows by `seq`. Only the current layout is known to have
`UNIQUE(target, cid)`. -/
structure CacheTable where
  layout : CacheLayout
  rows : List CacheRow
  sorted : rows.Pairwise (fun r s => r.seq < s.seq)
  unique : layout = .current → rows.Pairwise (fun r s => ¬ r.SameId s)

namespace CacheTable

/-- What `CREATE TABLE` makes. -/
def empty : CacheTable := ⟨.current, [], List.Pairwise.nil, fun _ => List.Pairwise.nil⟩

/-- The pending changes of a table, oldest first. -/
def pending (t : CacheTable) : List PendingRow := t.rows.map CacheRow.change

/-- The rows with one more in the place of its `seq`. -/
def rowsWith (t : CacheTable) (r : CacheRow) : List CacheRow :=
  t.rows.filter (fun s => s.seq < r.seq) ++ r :: t.rows.filter (fun s => r.seq < s.seq)

theorem rowsWith_perm (t : CacheTable) (r : CacheRow)
    (h : ∀ s ∈ t.rows, ¬ r.Clashes s) : (t.rowsWith r).Perm (r :: t.rows) := by
  have hright : t.rows.filter (fun s => r.seq < s.seq) =
      t.rows.filter (fun s => !decide (s.seq < r.seq)) := by
    refine List.filter_congr fun s hs => ?_
    have hne : r.seq ≠ s.seq := fun heq => h s hs (Or.inl heq)
    rw [Bool.eq_iff_iff]
    simp only [decide_eq_true_eq, Bool.not_eq_true', decide_eq_false_iff_not]
    omega
  refine List.perm_middle.trans (List.Perm.cons r ?_)
  rw [hright]
  exact List.filter_append_perm _ t.rows

/-- `INSERT OR IGNORE` of one row, under the constraints of the current layout. -/
def insertOrIgnore (t : CacheTable) (r : CacheRow) : CacheTable :=
  if h : ∀ s ∈ t.rows, ¬ r.Clashes s then
    { layout := t.layout
      rows := t.rowsWith r
      sorted := by
        have hleft := t.sorted.sublist (List.filter_sublist (p := fun s => decide (s.seq < r.seq)))
        have hright :=
          t.sorted.sublist (List.filter_sublist (p := fun s => decide (r.seq < s.seq)))
        refine List.pairwise_append.mpr ⟨hleft, List.pairwise_cons.mpr ⟨fun s hs => ?_, hright⟩,
          fun a ha b hb => ?_⟩
        · exact of_decide_eq_true (List.mem_filter.mp hs).2
        · have hlow : a.seq < r.seq := of_decide_eq_true (List.mem_filter.mp ha).2
          rcases List.mem_cons.mp hb with rfl | hb
          · exact hlow
          · exact hlow.trans (of_decide_eq_true (List.mem_filter.mp hb).2)
      unique := by
        intro hcurrent
        refine ((t.rowsWith_perm r h).pairwise_iff fun hab hba => hab hba.symm).mpr
          (List.pairwise_cons.mpr ⟨fun s hs hid => ?_, t.unique hcurrent⟩)
        exact h s hs (Or.inr hid) }
  else t

theorem mem_insertOrIgnore {t : CacheTable} {r s : CacheRow}
    (h : s ∈ (t.insertOrIgnore r).rows) : s = r ∨ s ∈ t.rows := by
  unfold insertOrIgnore at h
  split at h
  · next hclash => exact List.mem_cons.mp ((t.rowsWith_perm r hclash).mem_iff.mp h)
  · exact Or.inr h

theorem insertOrIgnore_keeps {t : CacheTable} {s : CacheRow} (r : CacheRow) (h : s ∈ t.rows) :
    s ∈ (t.insertOrIgnore r).rows := by
  unfold insertOrIgnore
  split
  · next hclash => exact (t.rowsWith_perm r hclash).mem_iff.mpr (List.mem_cons_of_mem r h)
  · exact h

/-- A row whose `seq` is free is inserted unless its change id is there already. -/
theorem insertOrIgnore_sameId {t : CacheTable} {r : CacheRow}
    (h : ∀ s ∈ t.rows, s.seq ≠ r.seq) :
    ∃ s ∈ (t.insertOrIgnore r).rows, r.SameId s := by
  unfold insertOrIgnore
  split
  · next hclash =>
    exact ⟨r, (t.rowsWith_perm r hclash).mem_iff.mpr List.mem_cons_self, rfl, rfl⟩
  · next hclash =>
    simp only [not_forall, not_not] at hclash
    obtain ⟨s, hs, hclash⟩ := hclash
    exact ⟨s, hs, hclash.resolve_left fun heq => h s hs heq.symm⟩

@[simp] theorem insertOrIgnore_layout (t : CacheTable) (r : CacheRow) :
    (t.insertOrIgnore r).layout = t.layout := by
  unfold insertOrIgnore
  split <;> rfl

/-- `INSERT OR IGNORE INTO ... SELECT ... FROM`. -/
def copyInto (t : CacheTable) (rows : List CacheRow) : CacheTable :=
  rows.foldl insertOrIgnore t

theorem copyInto_layout (t : CacheTable) (rows : List CacheRow) :
    (t.copyInto rows).layout = t.layout := by
  induction rows generalizing t with
  | nil => rfl
  | cons r rows ih => exact (ih (t.insertOrIgnore r)).trans (t.insertOrIgnore_layout r)

theorem mem_copyInto {t : CacheTable} {rows : List CacheRow} {s : CacheRow}
    (h : s ∈ (t.copyInto rows).rows) : s ∈ rows ∨ s ∈ t.rows := by
  induction rows generalizing t with
  | nil => exact Or.inr h
  | cons r rows ih =>
    rcases ih h with hs | hs
    · exact Or.inl (List.mem_cons_of_mem r hs)
    · rcases mem_insertOrIgnore hs with rfl | hs
      · exact Or.inl List.mem_cons_self
      · exact Or.inr hs

theorem copyInto_keeps {t : CacheTable} {s : CacheRow} (rows : List CacheRow)
    (h : s ∈ t.rows) : s ∈ (t.copyInto rows).rows := by
  induction rows generalizing t with
  | nil => exact h
  | cons r rows ih => exact ih (insertOrIgnore_keeps r h)

/-- Every copied row leaves a row of its change id. -/
theorem copyInto_sameId {t : CacheTable} {rows : List CacheRow} {r : CacheRow}
    (hsorted : rows.Pairwise (fun r s => r.seq < s.seq))
    (hfree : ∀ s ∈ t.rows, ∀ r ∈ rows, s.seq ≠ r.seq) (hr : r ∈ rows) :
    ∃ s ∈ (t.copyInto rows).rows, r.SameId s := by
  induction rows generalizing t with
  | nil => cases hr
  | cons a rows ih =>
    obtain ⟨hfirst, hrest⟩ := List.pairwise_cons.mp hsorted
    rcases List.mem_cons.mp hr with rfl | hr
    · obtain ⟨s, hs, hid⟩ :=
        insertOrIgnore_sameId fun s hs => hfree s hs r List.mem_cons_self
      exact ⟨s, copyInto_keeps rows hs, hid⟩
    · refine ih hrest (fun s hs b hb => ?_) hr
      rcases mem_insertOrIgnore hs with rfl | hs
      · exact (hfirst b hb).ne
      · exact hfree s hs b (List.mem_cons_of_mem a hb)

/-- What the migration makes of a table. -/
def migrate (t : CacheTable) : CacheTable := empty.copyInto t.rows

theorem migrate_layout (t : CacheTable) : t.migrate.layout = .current :=
  copyInto_layout empty t.rows

theorem mem_pending_of_migrate {t : CacheTable} {c : PendingRow} (h : c ∈ t.migrate.pending) :
    c ∈ t.pending := by
  obtain ⟨r, hr, rfl⟩ := List.mem_map.mp h
  rcases mem_copyInto hr with hr | hr
  · exact List.mem_map_of_mem hr
  · cases hr

/-- The current layout never holds an ambiguous pair. -/
theorem unambiguous_of_current {t : CacheTable} (h : t.layout = .current) :
    Unambiguous t.pending := by
  intro c hc d hd hsame
  obtain ⟨r, hr, rfl⟩ := List.mem_map.mp hc
  obtain ⟨s, hs, rfl⟩ := List.mem_map.mp hd
  by_contra hne
  have hid : ¬ r.SameId s :=
    (t.unique h).forall hr hs (fun heq => hne (congrArg CacheRow.change heq))
  exact hid hsame

/-- **What the migration keeps**: all pending changes, unless two of them differ in their
payload alone. -/
theorem migrate_keeps_iff (t : CacheTable) :
    (∀ c ∈ t.pending, c ∈ t.migrate.pending) ↔ Unambiguous t.pending := by
  constructor
  · intro h c hc d hd
    exact unambiguous_of_current t.migrate_layout c (h c hc) d (h d hd)
  · intro h c hc
    obtain ⟨r, hr, rfl⟩ := List.mem_map.mp hc
    obtain ⟨s, hs, hid⟩ := copyInto_sameId (t := empty) t.sorted (fun s hs => by cases hs) hr
    have hpending : s.change ∈ t.migrate.pending := List.mem_map_of_mem hs
    rwa [h r.change hc s.change (mem_pending_of_migrate hpending) hid]

end CacheTable

/-! ## The statements -/

/-- The tables the statements name. -/
inductive TableName where
  | pendingChanges
  | pendingChangesV2
deriving DecidableEq

/-- The file `changes.sqlite`. -/
abbrev CacheFile := TableName → Option CacheTable

/-- The kinds of statements `cache_open` executes. -/
inductive SqlStatement where
  | pragma
  | createTable (ifNotExists : Bool) (name : TableName)
  | dropTable (ifExists : Bool) (name : TableName)
  | insertOrIgnore (into source : TableName)
  | renameTable (name newName : TableName)

/-- One statement: the file it leaves, or nothing when it is an error. -/
def SqlStatement.exec (f : CacheFile) : SqlStatement → Option CacheFile
  | .pragma => some f
  | .createTable ifNotExists name =>
    match f name with
    | none => some (Function.update f name (some CacheTable.empty))
    | some _ => if ifNotExists then some f else none
  | .dropTable ifExists name =>
    match f name with
    | none => if ifExists then some f else none
    | some _ => some (Function.update f name none)
  | .insertOrIgnore into source => do
    let t ← f into
    let s ← f source
    some (Function.update f into (some (t.copyInto s.rows)))
  | .renameTable name newName => do
    let t ← f name
    match f newName with
    | none => some (Function.update (Function.update f name none) newName (some t))
    | some _ => none

/-- What `cache_open` executes. -/
def cacheOpenStatements : List SqlStatement :=
  [.pragma,
    .pragma,
    .createTable true .pendingChanges,
    .dropTable true .pendingChangesV2,
    .createTable false .pendingChangesV2,
    .insertOrIgnore .pendingChangesV2 .pendingChanges,
    .dropTable false .pendingChanges,
    .renameTable .pendingChangesV2 .pendingChanges]

/-- Statements in order, up to an error. -/
def sqlite3Exec (f : CacheFile) (statements : List SqlStatement) : Option CacheFile :=
  statements.foldlM SqlStatement.exec f

/-- `cache_open`. -/
def cacheOpen (f : CacheFile) : Option CacheFile := sqlite3Exec f cacheOpenStatements

/-- A `cache_open` with a crash after `k` statements. -/
def interruptedOpen (f : CacheFile) (k : Nat) : Option CacheFile :=
  sqlite3Exec f (cacheOpenStatements.take k)

/-! ## What an open does to the pending changes -/

/-- The table the next open migrates. -/
def CacheFile.table (f : CacheFile) : CacheTable := (f .pendingChanges).getD CacheTable.empty

/-- What is left of a table when `cache_open` crashes after `k` statements. -/
def leftover (t : CacheTable) (k : Nat) : CacheTable :=
  if k < 7 then t else if k = 7 then CacheTable.empty else t.migrate

theorem exec_createTable_ifNotExists (f : CacheFile) :
    SqlStatement.exec f (.createTable true .pendingChanges) =
      some (Function.update f .pendingChanges (some f.table)) := by
  simp only [SqlStatement.exec, CacheFile.table]
  cases h : f .pendingChanges with
  | none => rfl
  | some t =>
    show some f = some (Function.update f .pendingChanges (some t))
    rw [← h, Function.update_eq_self]

theorem exec_dropTable_ifExists (f : CacheFile) (name : TableName) :
    SqlStatement.exec f (.dropTable true name) = some (Function.update f name none) := by
  simp only [SqlStatement.exec]
  cases h : f name with
  | none =>
    show some f = some (Function.update f name none)
    rw [← h, Function.update_eq_self]
  | some t => rfl

/-- The first four statements prepare the file for the migration. -/
theorem exec_preparation (f : CacheFile) :
    sqlite3Exec f (cacheOpenStatements.take 4) =
      some (Function.update (Function.update f .pendingChanges (some f.table))
        .pendingChangesV2 none) := by
  have hpragma : ∀ f, SqlStatement.exec f .pragma = some f := fun _ => rfl
  simp [sqlite3Exec, cacheOpenStatements, hpragma, exec_createTable_ifNotExists,
    exec_dropTable_ifExists]

/-- The four that migrate, of which a crash may leave out the last ones. -/
theorem exec_migration {f : CacheFile} {t : CacheTable} (hold : f .pendingChanges = some t)
    (hfree : f .pendingChangesV2 = none) (k : Nat) :
    ∃ f', sqlite3Exec f ((cacheOpenStatements.drop 4).take k) = some f' ∧
      CacheFile.table f' =
        if k < 3 then t else if k = 3 then CacheTable.empty else t.migrate := by
  unfold sqlite3Exec cacheOpenStatements
  match k with
  | 0 => simp [CacheFile.table, hold]
  | 1 | 2 | 3 => simp [SqlStatement.exec, CacheFile.table, hold, hfree]
  | n + 4 => simp [SqlStatement.exec, CacheFile.table, CacheTable.migrate, hold, hfree]

/-- **An interrupted open.** It never fails, and what it makes of the pending changes
depends on them and on the crash point only. -/
theorem interruptedOpen_pending (f : CacheFile) (k : Nat) :
    ∃ f', interruptedOpen f k = some f' ∧ CacheFile.table f' = leftover f.table k := by
  match k with
  | 0 | 1 | 2 => exact ⟨f, rfl, rfl⟩
  | 3 =>
    refine ⟨Function.update f .pendingChanges (some f.table), ?_, ?_⟩
    · show (SqlStatement.exec f (.createTable true .pendingChanges)).bind some = _
      rw [exec_createTable_ifNotExists, Option.bind_some]
    · rw [CacheFile.table, Function.update_self]
      rfl
  | n + 4 =>
    obtain ⟨f', hexec, htable⟩ := exec_migration (t := f.table) (k := n)
      (f := Function.update (Function.update f .pendingChanges (some f.table))
        .pendingChangesV2 none) (by simp) (by simp)
    refine ⟨f', ?_, ?_⟩
    · rw [interruptedOpen, Nat.add_comm n 4, List.take_add, sqlite3Exec, List.foldlM_append]
      show (sqlite3Exec f (cacheOpenStatements.take 4)).bind _ = some f'
      rw [exec_preparation, Option.bind_some]
      exact hexec
    · rw [htable, leftover]
      refine ite_congr (by simp; omega) (fun _ => rfl) fun _ => ?_
      exact ite_congr (by simp) (fun _ => rfl) fun _ => rfl

/-- An open that is not interrupted leaves the migrated table. -/
theorem cacheOpen_pending (f : CacheFile) :
    ∃ f', cacheOpen f = some f' ∧ CacheFile.table f' = f.table.migrate :=
  interruptedOpen_pending f 8

/-- Any number of interrupted opens, by what each leaves of the table. -/
theorem run_interruptedOpen_pending (f : CacheFile) (crashes : List Nat) :
    ∃ f', Runs.run interruptedOpen f crashes = some f' ∧
      CacheFile.table f' = crashes.foldl leftover f.table := by
  induction crashes generalizing f with
  | nil => exact ⟨f, rfl, rfl⟩
  | cons k crashes ih =>
    obtain ⟨f₁, hexec, htable⟩ := interruptedOpen_pending f k
    obtain ⟨f', hrun, hlast⟩ := ih f₁
    exact ⟨f', (Runs.run_cons crashes hexec).trans hrun, by rw [hlast, htable]; rfl⟩

/-! ## When nothing is lost -/

/-- After opens that crashed and one that did not, the file has a table of the current
layout with every pending change it had. -/
def Recovered (f : CacheFile) (crashes : List Nat) : Prop :=
  ∃ f' f'', Runs.run interruptedOpen f crashes = some f' ∧ cacheOpen f' = some f'' ∧
    f''.table.layout = .current ∧ ∀ c ∈ f.table.pending, c ∈ f''.table.pending

/-- Opens that crashed and one that did not: what the last one leaves. -/
theorem reopened_table (f : CacheFile) (crashes : List Nat) :
    ∃ f' f'', Runs.run interruptedOpen f crashes = some f' ∧ cacheOpen f' = some f'' ∧
      f''.table = (crashes.foldl leftover f.table).migrate := by
  obtain ⟨f', hrun, htable⟩ := run_interruptedOpen_pending f crashes
  obtain ⟨f'', hopen, hlast⟩ := cacheOpen_pending f'
  exact ⟨f', f'', hrun, hopen, by rw [hlast, htable]⟩

theorem recovered_iff_migrate (f : CacheFile) (crashes : List Nat) :
    Recovered f crashes ↔
      ∀ c ∈ f.table.pending, c ∈ (crashes.foldl leftover f.table).migrate.pending := by
  obtain ⟨f', f'', hrun, hopen, hlast⟩ := reopened_table f crashes
  constructor
  · rintro ⟨g', g'', hrun', hopen', -, hkept⟩
    obtain rfl : f' = g' := Option.some.inj (hrun.symm.trans hrun')
    obtain rfl : f'' = g'' := Option.some.inj (hopen.symm.trans hopen')
    rwa [← hlast]
  · intro hkept
    refine ⟨f', f'', hrun, hopen, ?_, ?_⟩
    · rw [hlast]
      exact CacheTable.migrate_layout _
    · rwa [hlast]

/-- An open adds no pending change, however it ends. -/
theorem mem_pending_of_leftover {t : CacheTable} {k : Nat} {c : PendingRow}
    (h : c ∈ (leftover t k).pending) : c ∈ t.pending ∧ k ≠ 7 := by
  unfold leftover at h
  split at h
  · next hk => exact ⟨h, by omega⟩
  · split at h
    · cases h
    · next hk => exact ⟨CacheTable.mem_pending_of_migrate h, hk⟩

theorem mem_pending_of_leftovers {t : CacheTable} {crashes : List Nat} {c : PendingRow}
    (h : c ∈ (crashes.foldl leftover t).pending) : c ∈ t.pending ∧ 7 ∉ crashes := by
  induction crashes generalizing t with
  | nil => exact ⟨h, List.not_mem_nil⟩
  | cons k crashes ih =>
    obtain ⟨hmem, hrest⟩ := ih h
    obtain ⟨hmem, hk⟩ := mem_pending_of_leftover hmem
    exact ⟨hmem, fun h7 => (List.mem_cons.mp h7).elim (fun heq => hk heq.symm) hrest⟩

/-- Away from the one bad crash point, an open keeps an unambiguous table whole. -/
theorem leftover_keeps {t : CacheTable} {k : Nat} (hk : k ≠ 7) (ht : Unambiguous t.pending) :
    (∀ c ∈ t.pending, c ∈ (leftover t k).pending) ∧ Unambiguous (leftover t k).pending := by
  by_cases hlow : k < 7
  · rw [leftover, if_pos hlow]
    exact ⟨fun _ hc => hc, ht⟩
  · rw [leftover, if_neg hlow, if_neg hk]
    exact ⟨t.migrate_keeps_iff.mpr ht, CacheTable.unambiguous_of_current t.migrate_layout⟩

/-- The next open that gets through then has all of it. -/
theorem reopened_keeps {t : CacheTable} {crashes : List Nat} (hk : 7 ∉ crashes)
    (ht : Unambiguous t.pending) :
    ∀ c ∈ t.pending, c ∈ (crashes.foldl leftover t).migrate.pending := by
  induction crashes generalizing t with
  | nil => exact t.migrate_keeps_iff.mpr ht
  | cons k crashes ih =>
    obtain ⟨hfirst, hrest⟩ := List.ne_and_not_mem_of_not_mem_cons hk
    obtain ⟨hkept, hnext⟩ := leftover_keeps (Ne.symm hfirst) ht
    exact fun c hc => ih hrest hnext c (hkept c hc)

/-- **When the migration is crash-safe.** -/
theorem recovered_iff (f : CacheFile) (crashes : List Nat) :
    Recovered f crashes ↔
      Unambiguous f.table.pending ∧ (7 ∈ crashes → f.table.rows = []) := by
  rw [recovered_iff_migrate]
  constructor
  · intro h
    refine ⟨fun c hc d hd => ?_, fun h7 => ?_⟩
    · exact CacheTable.unambiguous_of_current (CacheTable.migrate_layout _) c (h c hc) d (h d hd)
    · refine List.eq_nil_iff_forall_not_mem.mpr fun r hr => ?_
      have hkept := h r.change (List.mem_map_of_mem hr)
      exact (mem_pending_of_leftovers (CacheTable.mem_pending_of_migrate hkept)).2 h7
  · rintro ⟨ht, hempty⟩ c hc
    have h7 : 7 ∉ crashes := fun h7 => by
      rw [CacheTable.pending, hempty h7] at hc
      cases hc
    exact reopened_keeps h7 ht c hc

/-- A file of an older layout with one pending change. -/
def oldCache : CacheFile
  | .pendingChanges =>
    some
      { layout := .old
        rows := [⟨1, ⟨cstr "b", cstr "a-1700000000-1", {}⟩, 1700000000⟩]
        sorted := List.pairwise_singleton ..
        unique := nofun }
  | .pendingChangesV2 => none

/-- A crash between the `DROP` of the old table and the `RENAME` of the new one. -/
theorem crash_before_rename_loses : ¬ Recovered oldCache [7] := by
  rw [recovered_iff_migrate]
  intro h
  cases h ⟨cstr "b", cstr "a-1700000000-1", {}⟩ List.mem_cons_self

end EpsilonDB
