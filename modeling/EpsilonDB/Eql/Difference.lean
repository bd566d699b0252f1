import EpsilonDB.Eql.Permissions
import EpsilonDB.Lib.Edits
import EpsilonDB.Lib.Keys
import Mathlib.Data.List.Duplicate

/-!
# The write-back and the difference of the tables

A statement runs on the shadow tables, and its events are replayed against the shards. The
replay should leave there what the run left in the tables: the records that rows stand for
before it and after it differ by the changes that are sent.

- `records`: the records of the rows, each in the keyspace its row came from.
- `givenUp`, `written`, `rewritten`: what an event gives up, what it writes, and what it writes
  when its new row is reported again. `edits_planEvent`.
- `Filed`: a row has one row record at most, an invariant of the loop. `filed_planEvent`.
- `mem_edits_planned`: the changes of a run are those of its events.
- `Holds`, `holds_iff`: changes that are a difference bring it to the shards if and only if the
  store takes each of them.
- `Mirrors`: the changes are the difference of the records, make the ones after of the ones before,
  and bring it to the shards.
- `Told`: what a run and its events have to tell for that. `mirrors_iff`.
- `delete_all_deletes_nothing`: a DELETE without a condition, of which SQLite reports no row.
-/

namespace EpsilonDB.Eql

variable {σ D : Type} [Doubles D]

/-! ## Records -/

/-- The name of a record. -/
structure RecordName where
  table : Table
  ks : CString
  id : CString
deriving DecidableEq

/-- A change as an edit of the records. -/
def Change.edit (c : Change D) : RecordName × Option (Json D) := (⟨c.table, c.ks, c.id⟩, c.value)

omit [Doubles D] in
theorem edit_injective : Function.Injective (Change.edit (D := D)) := by
  rintro ⟨t, ks, id, value⟩ ⟨t', ks', id', value'⟩ h
  simp only [Change.edit, Prod.mk.injEq, RecordName.mk.injEq] at h
  obtain ⟨⟨rfl, rfl, rfl⟩, rfl⟩ := h
  rfl

/-- The row record that is on file for a row. -/
def onFile (map : List RowRec) (table : CString) (rowid : Int) : Option RowRec :=
  (mapTake map table rowid).map Prod.fst

/-- The keyspace of a row: that of its document, or for a new row the one its table names. -/
def homeOf (map : List RowRec) (t : Table) (rowid : Int) : CString :=
  match onFile map t.tableAlias rowid with
  | some e => e.ks
  | none => if t.pw then [] else t.ks

section Rows

variable (ctx : Ctx σ D)

/-- The id of a row as it is sent. -/
def rowId (row : ShadowRow D) : CString := snprintf 512 (columnText ctx row.id)

/-- A row as a record of the keyspace. -/
def rowRecord (t : Table) (ks : CString) (row : ShadowRow D) : RecordName × Json D :=
  (⟨t, ks, rowId ctx row⟩, rowToDoc ctx.codec t row.values)

/-- The records the rows of the tables stand for. -/
def records (tables : List Table) (map : List RowRec) (shadows : List (Shadow D)) :
    List (RecordName × Json D) :=
  tables.flatMap fun t =>
    match shadows.find? fun sh => sh.name = t.tableAlias with
    | some sh => sh.rows.map fun row => rowRecord ctx t (homeOf map t row.rowid) row
    | none => []

/-! ## Events -/

variable (tables : List Table) (after : List (Shadow D)) (map : List RowRec) (ev : Event)

/-- The table of an event, and its row where there is one to read back. -/
def reread : Option (Table × Option (ShadowRow D)) :=
  match tables.find? fun t => t.tableAlias = ev.table, after.find? fun sh => sh.name = ev.table with
  | some t, some sh => some (t, if ev.op = .delete then none else readRow sh ev.rowid)
  | _, _ => none

/-- The records an event gives up: that of a deleted row, or the old one of a row that comes
back under another id. -/
def givenUp : List RecordName :=
  match reread tables after ev, onFile map ev.table ev.rowid with
  | some (t, none), some e => if ev.op = .delete then [⟨t, e.ks, e.id⟩] else []
  | some (t, some row), some e => if e.id = rowId ctx row then [] else [⟨t, e.ks, e.id⟩]
  | _, _ => []

/-- The records an event writes. -/
def written : List (RecordName × Json D) :=
  match reread tables after ev with
  | some (t, some row) => [rowRecord ctx t (homeOf map t ev.rowid) row]
  | _ => []

/-- The records a new row is written to when it is reported again: the keyspace on file is what
an uninitialised buffer held. -/
def rewritten : List (RecordName × Json D) :=
  match reread tables after ev, onFile map ev.table ev.rowid with
  | some (t, some row), none => [rowRecord ctx t (snprintf 128 ctx.junk) row]
  | _, _ => []

/-- A name given up, as an edit. -/
def dropEdit (k : RecordName) : RecordName × Option (Json D) := (k, none)

/-- A record written, as an edit. -/
def putEdit (x : RecordName × Json D) : RecordName × Option (Json D) := (x.1, some x.2)

/-- The changes of an event, as edits. -/
def eventEdits : List (RecordName × Option (Json D)) :=
  (givenUp ctx tables after map ev).map dropEdit ++ (written ctx tables after map ev).map putEdit

theorem edits_planEvent :
    ((planEvent ctx tables after map ev).2.filterMap Step.change).map Change.edit =
      eventEdits ctx tables after map ev := by
  rw [planEvent, eventEdits, givenUp, written, reread]
  cases htable : tables.find? fun t => t.tableAlias = ev.table with
  | none => rfl
  | some t =>
    have halias : t.tableAlias = ev.table := by simpa using List.find?_some htable
    cases after.find? fun sh => sh.name = ev.table with
    | none => rfl
    | some sh =>
      dsimp only
      cases hop : ev.op with
      | delete =>
        rw [onFile]
        cases mapTake map ev.table ev.rowid <;> rfl
      | insert | update =>
        -- on file or not decides between a change and a creation
        simp only [reduceCtorEq, ↓reduceIte, onFile]
        cases readRow sh ev.rowid with
        | none => cases mapTake map ev.table ev.rowid <;> rfl
        | some row =>
          dsimp only
          rw [homeOf, halias, onFile]
          cases mapTake map ev.table ev.rowid with
          | none => rfl
          | some q =>
            dsimp only [Option.map_some]
            -- under its old id the row is written once
            by_cases hid : q.1.id = snprintf 512 (columnText ctx row.id)
            · rw [if_neg (not_not.mpr hid), rowId, if_pos hid]
              rfl
            · rw [if_pos hid, rowId, if_neg hid]
              rfl

end Rows

/-! ## The file -/

/-- There is one record of a row at most. -/
structure Filed (map : List RowRec) : Prop where
  nodup : (map.map fun e => (e.table, e.rowid)).Nodup
  short : ∀ e ∈ map, e.ks.length < 128

theorem perm_of_mapTake {map map' : List RowRec} {table : CString} {rowid : Int} {e : RowRec}
    (h : mapTake map table rowid = some (e, map')) : map.Perm (e :: map') := by
  induction map generalizing map' with
  | nil => cases h
  | cons x map ih =>
    rw [mapTake] at h
    split at h
    · rename_i r es hr
      obtain ⟨rfl, rfl⟩ := Prod.mk.inj (Option.some.inj h)
      exact ((ih hr).cons x).trans (.swap _ x es)
    · split at h
      · obtain ⟨rfl, rfl⟩ := Prod.mk.inj (Option.some.inj h)
        exact .refl _
      · cases h

theorem not_mem_of_mapTake {map : List RowRec} {table : CString} {rowid : Int}
    (h : mapTake map table rowid = none) : ∀ e ∈ map, (e.table, e.rowid) ≠ (table, rowid) := by
  induction map with
  | nil => simp
  | cons x map ih =>
    rw [mapTake] at h
    split at h
    · cases h
    · rename_i hr
      split at h
      · cases h
      · rename_i hx
        intro e he
        rcases List.mem_cons.mp he with rfl | he
        · simpa using hx
        · exact ih hr e he

/-- What is on file is the one record of the row. -/
theorem onFile_eq_some_iff {map : List RowRec} (hf : Filed map) {table : CString} {rowid : Int}
    {e : RowRec} :
    onFile map table rowid = some e ↔ e ∈ map ∧ (e.table, e.rowid) = (table, rowid) := by
  rw [onFile]
  cases htake : mapTake map table rowid with
  | none =>
    simp only [Option.map_none, false_iff, not_and, reduceCtorEq]
    exact not_mem_of_mapTake htake e
  | some q =>
    obtain ⟨hmem, htable, hrowid, -⟩ := mem_of_mapTake htake
    simp only [Option.map_some, Option.some.injEq]
    constructor
    · rintro rfl
      exact ⟨hmem, by rw [htable, hrowid]⟩
    · rintro ⟨he, hkey⟩
      refine List.inj_on_of_nodup_map hf.nodup hmem he ?_
      rw [hkey, htable, hrowid]

/-- Two files with the same records of a row have the same one on file. -/
theorem onFile_congr {map map' : List RowRec} (hf : Filed map) (hf' : Filed map')
    {table : CString} {rowid : Int}
    (h : ∀ e : RowRec, (e.table, e.rowid) = (table, rowid) → (e ∈ map ↔ e ∈ map')) :
    onFile map table rowid = onFile map' table rowid := by
  ext e
  rw [onFile_eq_some_iff hf, onFile_eq_some_iff hf']
  exact ⟨fun ⟨he, hkey⟩ => ⟨(h e hkey).mp he, hkey⟩, fun ⟨he, hkey⟩ => ⟨(h e hkey).mpr he, hkey⟩⟩

theorem Filed.of_mapTake {map map' : List RowRec} (hf : Filed map) {table : CString} {rowid : Int}
    {e : RowRec} (h : mapTake map table rowid = some (e, map')) :
    Filed map' ∧ onFile map' table rowid = none ∧
      ∀ e' : RowRec, (e'.table, e'.rowid) ≠ (table, rowid) → (e' ∈ map' ↔ e' ∈ map) := by
  have hperm := perm_of_mapTake h
  obtain ⟨-, htable, hrowid, hsub⟩ := mem_of_mapTake h
  have hnodup := (hperm.map _).nodup_iff.mp hf.nodup
  rw [List.map_cons, List.nodup_cons] at hnodup
  have hf' : Filed map' := ⟨hnodup.2, fun e he => hf.short e (hsub he)⟩
  refine ⟨hf', ?_, fun e' hne => ?_⟩
  · rw [Option.eq_none_iff_forall_ne_some]
    intro e' he'
    obtain ⟨hmem, hkey⟩ := (onFile_eq_some_iff hf').mp he'
    refine hnodup.1 (List.mem_map.mpr ⟨e', hmem, ?_⟩)
    rw [hkey, htable, hrowid]
  · rw [hperm.mem_iff, List.mem_cons]
    refine ⟨.inr, fun h => h.resolve_left ?_⟩
    rintro rfl
    exact hne (by rw [htable, hrowid])

theorem Filed.add {map : List RowRec} (hf : Filed map) {table : CString} {rowid : Int}
    (hnone : onFile map table rowid = none) (id ks : CString) :
    Filed (mapAddKs map table rowid id ks) ∧
      onFile (mapAddKs map table rowid id ks) table rowid =
        some ⟨table, rowid, snprintf 512 id, snprintf 128 ks⟩ := by
  have hnew : (table, rowid) ∉ map.map fun e => (e.table, e.rowid) := by
    intro hmem
    obtain ⟨e, he, hkey⟩ := List.mem_map.mp hmem
    have hsome := (onFile_eq_some_iff hf).mpr ⟨he, hkey⟩
    rw [hnone] at hsome
    cases hsome
  have hf' : Filed (mapAddKs map table rowid id ks) := by
    constructor
    · rw [mapAddKs, List.map_append, List.map_singleton, List.nodup_append]
      refine ⟨hf.nodup, List.nodup_singleton _, fun x hx y hy => ?_⟩
      rw [List.mem_singleton.mp hy]
      rintro rfl
      exact hnew hx
    · intro e he
      rcases List.mem_append.mp he with he | he
      · exact hf.short e he
      · rw [List.mem_singleton.mp he]
        exact length_snprintf_lt (by decide) ks
  exact ⟨hf', (onFile_eq_some_iff hf').mpr ⟨by simp [mapAddKs], rfl⟩⟩

/-! ## Runs -/

section Runs

variable {ctx : Ctx σ D} {tables : List Table} {after : List (Shadow D)} {map : List RowRec}
  {ev : Event}

/-- The file without the record of a row. -/
def dropFile (map : List RowRec) (table : CString) (rowid : Int) : List RowRec :=
  match mapTake map table rowid with
  | none => map
  | some q => q.2

theorem Filed.drop (hf : Filed map) (table : CString) (rowid : Int) :
    Filed (dropFile map table rowid) ∧ onFile (dropFile map table rowid) table rowid = none ∧
      ∀ e : RowRec, (e.table, e.rowid) ≠ (table, rowid) →
        (e ∈ dropFile map table rowid ↔ e ∈ map) := by
  rw [dropFile]
  cases htake : mapTake map table rowid with
  | none =>
    refine ⟨hf, ?_, fun _ _ => Iff.rfl⟩
    rw [onFile, htake]
    rfl
  | some q => exact hf.of_mapTake htake

/-- The file after an event. -/
theorem map_planEvent :
    (planEvent ctx tables after map ev).1 =
      match reread tables after ev with
      | none => map
      | some (_, none) => dropFile map ev.table ev.rowid
      | some (_, some row) =>
        mapAddKs (dropFile map ev.table ev.rowid) ev.table ev.rowid (rowId ctx row)
          (match onFile map ev.table ev.rowid with
          | some e => e.ks
          | none => ctx.junk) := by
  rw [planEvent, reread]
  cases tables.find? fun t => t.tableAlias = ev.table with
  | none => rfl
  | some t =>
    cases after.find? fun sh => sh.name = ev.table with
    | none => rfl
    | some sh =>
      dsimp only
      rw [dropFile, onFile]
      cases hop : ev.op with
      | delete => cases mapTake map ev.table ev.rowid <;> rfl
      | insert | update =>
        simp only [reduceCtorEq, ↓reduceIte]
        cases readRow sh ev.rowid <;> cases mapTake map ev.table ev.rowid <;> rfl

variable (ctx tables after ev) in
/-- An event leaves the records of the other rows, and of its own row what it sends. -/
theorem filed_planEvent (hf : Filed map) :
    Filed (planEvent ctx tables after map ev).1 ∧
      (∀ table rowid, (table, rowid) ≠ (ev.table, ev.rowid) →
        onFile (planEvent ctx tables after map ev).1 table rowid = onFile map table rowid) ∧
      onFile (planEvent ctx tables after map ev).1 ev.table ev.rowid =
        match reread tables after ev with
        | none => onFile map ev.table ev.rowid
        | some (_, none) => none
        | some (_, some row) =>
          some ⟨ev.table, ev.rowid, rowId ctx row,
            match onFile map ev.table ev.rowid with
            | some e => e.ks
            | none => snprintf 128 ctx.junk⟩ := by
  obtain ⟨hdrop, hnone, hothers⟩ := hf.drop ev.table ev.rowid
  -- a row that is not on file any more is looked up among the others as before
  have hcongr : ∀ {map'}, Filed map' →
      (∀ e : RowRec, (e.table, e.rowid) ≠ (ev.table, ev.rowid) → (e ∈ map' ↔ e ∈ map)) →
      ∀ table rowid, (table, rowid) ≠ (ev.table, ev.rowid) →
        onFile map' table rowid = onFile map table rowid := by
    intro map' hf' h table rowid hne
    exact onFile_congr hf' hf fun e he => h e (he ▸ hne)
  rw [map_planEvent]
  match reread tables after ev with
  | none => exact ⟨hf, fun _ _ _ => rfl, rfl⟩
  | some (_, none) => exact ⟨hdrop, hcongr hdrop hothers, hnone⟩
  | some (_, some row) =>
    dsimp only
    obtain ⟨hadd, hself⟩ := hdrop.add hnone (rowId ctx row)
      (match onFile map ev.table ev.rowid with
      | some e => e.ks
      | none => ctx.junk)
    refine ⟨hadd, hcongr hadd fun e he => ?_, hself.trans ?_⟩
    · -- the record that was added is the one of the event
      rw [mapAddKs, List.mem_append, hothers e he, List.mem_singleton]
      refine ⟨fun h => h.resolve_right ?_, .inl⟩
      rintro rfl
      exact he rfl
    · have hid : snprintf 512 (rowId ctx row) = rowId ctx row :=
        snprintf_of_lt (length_snprintf_lt (by decide) _)
      rw [hid]
      cases hfile : onFile map ev.table ev.rowid with
      | none => rfl
      | some e =>
        have hshort := hf.short e ((onFile_eq_some_iff hf).mp hfile).1
        exact congrArg (fun ks => some (RowRec.mk ev.table ev.rowid (rowId ctx row) ks))
          (snprintf_of_lt hshort)

/-- The table of an event that is reread goes by its alias. -/
theorem tableAlias_of_reread {t : Table} {row? : Option (ShadowRow D)}
    (h : reread tables after ev = some (t, row?)) : t.tableAlias = ev.table := by
  rw [reread] at h
  split at h
  · rename_i t' sh ht _
    obtain ⟨rfl, -⟩ := Prod.mk.inj (Option.some.inj h)
    simpa using List.find?_some ht
  · cases h

/-- A row that is not its event's keeps what it would send. -/
theorem eventEdits_of_ne (hf : Filed map) {ev' : Event}
    (hne : (ev'.table, ev'.rowid) ≠ (ev.table, ev.rowid)) :
    eventEdits ctx tables after (planEvent ctx tables after map ev).1 ev' =
        eventEdits ctx tables after map ev' ∧
      rewritten ctx tables after (planEvent ctx tables after map ev).1 ev' =
        rewritten ctx tables after map ev' := by
  have hfile := (filed_planEvent ctx tables after ev hf).2.1
    ev'.table ev'.rowid hne
  refine ⟨?_, by rw [rewritten, hfile, rewritten]⟩
  rw [eventEdits, eventEdits, givenUp, hfile, ← givenUp, written, written]
  congr 2
  match h : reread tables after ev' with
  | none | some (_, none) => rfl
  | some (t, some row) =>
    dsimp only
    rw [homeOf, homeOf, tableAlias_of_reread h, hfile]

variable (ctx tables after ev) in
/-- A row that is reported again is sent to the keyspace that is on file for it. -/
theorem eventEdits_self (hf : Filed map) :
    eventEdits ctx tables after (planEvent ctx tables after map ev).1 ev =
        (match onFile map ev.table ev.rowid with
        | some _ => written ctx tables after map ev
        | none => rewritten ctx tables after map ev).map putEdit ∧
      rewritten ctx tables after (planEvent ctx tables after map ev).1 ev = [] := by
  have hfile := (filed_planEvent ctx tables after ev hf).2.2
  rw [eventEdits, givenUp, written, rewritten, rewritten, written, hfile]
  match h : reread tables after ev with
  | none => cases onFile map ev.table ev.rowid <;> exact ⟨rfl, rfl⟩
  | some (_, none) => cases onFile map ev.table ev.rowid <;> exact ⟨rfl, rfl⟩
  | some (t, some row) =>
    have halias := tableAlias_of_reread h
    dsimp only
    rw [homeOf, homeOf, halias, hfile, h]
    cases onFile map ev.table ev.rowid <;> simp

/-- **The changes of a run** whose events are of one class. Every event sends what it would
send alone, and a new row that is reported again goes where the file says. -/
theorem mem_edits_planned (hf : Filed map) {op : SqlOp} (events : List Event)
    (hops : ∀ ev ∈ events, ev.op = op) (x : RecordName × Option (Json D)) :
    x ∈ (planned ctx tables after map events).map Change.edit ↔
      (∃ ev ∈ events, x ∈ eventEdits ctx tables after map ev) ∨
        ∃ ev, List.Duplicate ev events ∧ x ∈ (rewritten ctx tables after map ev).map putEdit := by
  induction events generalizing map with
  | nil => simp [planned, plan]
  | cons ev events ih =>
    obtain ⟨hop, hops⟩ := List.forall_mem_cons.mp hops
    obtain ⟨hnext, -, -⟩ := filed_planEvent ctx tables after ev hf
    obtain ⟨hself, hnone⟩ := eventEdits_self ctx tables after ev hf
    -- events are of one class, so those of one row are equal
    have hrow : ∀ ev' ∈ events, ev' = ev ∨ (ev'.table, ev'.rowid) ≠ (ev.table, ev.rowid) := by
      intro ev' hev'
      have hop' := hops ev' hev'
      by_cases hkey : (ev'.table, ev'.rowid) = (ev.table, ev.rowid)
      · obtain ⟨htable, hrowid⟩ := Prod.mk.inj hkey
        cases ev
        cases ev'
        simp_all
      · exact .inr hkey
    rw [planned, plan, List.filterMap_append, List.map_append, List.mem_append, edits_planEvent]
    rw [show (plan ctx tables after (planEvent ctx tables after map ev).1 events).filterMap
      Step.change = planned ctx tables after (planEvent ctx tables after map ev).1 events from rfl,
      ih hnext hops]
    constructor
    · rintro (hx | ⟨ev', hev', hx⟩ | ⟨ev', hdup, hx⟩)
      · exact .inl ⟨ev, List.mem_cons_self, hx⟩
      · rcases hrow ev' hev' with rfl | hne
        · rw [hself] at hx
          cases hfile : onFile map ev'.table ev'.rowid with
          | some e =>
            rw [hfile] at hx
            exact .inl ⟨ev', List.mem_cons_self, List.mem_append_right _ hx⟩
          | none =>
            rw [hfile] at hx
            exact .inr ⟨ev', List.Duplicate.cons_mem hev', hx⟩
        · rw [(eventEdits_of_ne hf hne).1] at hx
          exact .inl ⟨ev', List.mem_cons_of_mem ev hev', hx⟩
      · rcases hrow ev' hdup.mem with rfl | hne
        · simp [hnone] at hx
        · rw [(eventEdits_of_ne hf hne).2] at hx
          exact .inr ⟨ev', hdup.duplicate_cons ev, hx⟩
    · rintro (⟨ev', hev', hx⟩ | ⟨ev', hdup, hx⟩)
      · rcases List.mem_cons.mp hev' with rfl | hev'
        · exact .inl hx
        · rcases hrow ev' hev' with rfl | hne
          · exact .inl hx
          · rw [← (eventEdits_of_ne hf hne).1] at hx
            exact .inr (.inl ⟨ev', hev', hx⟩)
      · have hev' : ev' ∈ events := by
          rcases List.duplicate_cons_iff.mp hdup with ⟨-, h⟩ | h
          · exact h
          · exact h.mem
        rcases hrow ev' hev' with rfl | hne
        · refine .inr (.inl ⟨ev', hev', ?_⟩)
          rw [hself]
          cases hfile : onFile map ev'.table ev'.rowid with
          | none => exact hx
          | some e =>
            rw [rewritten, hfile] at hx
            simp at hx
        · rw [← (eventEdits_of_ne hf hne).2] at hx
          rcases List.duplicate_cons_iff.mp hdup with ⟨rfl, -⟩ | h
          · exact absurd rfl hne
          · exact .inr (.inr ⟨ev', h, hx⟩)

end Runs

/-! ## The file of a materialisation -/

section Materialised

variable {ctx : Ctx σ D} {s : σ}

omit [Doubles D] in
theorem maxRowid_append (rows : List (ShadowRow D)) (row : ShadowRow D) :
    maxRowid (rows ++ [row]) = max (maxRowid rows) row.rowid := by
  rw [maxRowid, List.foldl_concat]
  rfl

omit [Doubles D] in
theorem le_maxRowid {rows : List (ShadowRow D)} {row : ShadowRow D} (h : row ∈ rows) :
    row.rowid ≤ maxRowid rows := by
  induction rows using List.reverseRecOn with
  | nil => cases h
  | append_singleton rows row' ih =>
    rw [maxRowid_append]
    rcases List.mem_append.mp h with h | h
    · exact (ih h).trans (le_max_left ..)
    · rw [List.mem_singleton.mp h]
      exact le_max_right ..

variable (ctx) in
/-- Rows that are numbered upwards: each has a record of its own, with its id. -/
structure Numbered (st : List (ShadowRow D) × List RowRec) : Prop where
  nodup : (st.2.map fun e => (e.table, e.rowid)).Nodup
  below : ∀ e ∈ st.2, e.rowid ≤ maxRowid st.1
  named : ∀ row ∈ st.1, ∀ e ∈ st.2, row.rowid = e.rowid → rowId ctx row = e.id

theorem Numbered.insertDoc {st : List (ShadowRow D) × List RowRec} (h : Numbered ctx st)
    (t : Table) (f : Fetched D) : Numbered ctx (insertDoc ctx.codec t st f) := by
  obtain ⟨hnodup, hle, hnamed⟩ := h
  -- the new number is above those of all records and rows
  have hrecords : ∀ e ∈ st.2, e.rowid < maxRowid st.1 + 1 := fun e he => by
    have := hle e he
    omega
  have hrows : ∀ row ∈ st.1, row.rowid < maxRowid st.1 + 1 := fun row hrow => by
    have := le_maxRowid hrow
    omega
  dsimp only [Eql.insertDoc, mapAddKs]
  refine ⟨?_, fun e he => ?_, fun row hrow e he hrowid => ?_⟩
  · rw [List.map_append, List.nodup_append]
    refine ⟨hnodup, List.nodup_singleton _, fun x hx y hy => ?_⟩
    obtain ⟨e, he, rfl⟩ := List.mem_map.mp hx
    rw [List.mem_singleton.mp hy]
    intro heq
    exact absurd (Prod.mk.inj heq).2 (hrecords e he).ne
  · rw [maxRowid_append]
    rcases List.mem_append.mp he with he | he
    · exact (hrecords e he).le.trans (le_max_right ..)
    · rw [List.mem_singleton.mp he]
      exact le_max_right ..
  · rcases List.mem_append.mp hrow with hrow | hrow <;> rcases List.mem_append.mp he with he | he
    · exact hnamed row (List.mem_filter.mp hrow).1 e he hrowid
    · rw [List.mem_singleton.mp he] at hrowid
      exact absurd hrowid (hrows row (List.mem_filter.mp hrow).1).ne
    · rw [List.mem_singleton.mp hrow] at hrowid
      exact absurd hrowid.symm (hrecords e he).ne
    · rw [List.mem_singleton.mp hrow, List.mem_singleton.mp he]
      rfl

theorem numbered_recordsOf (s : σ) (t : Table) :
    Numbered ctx ((shadowOf ctx s t).rows, recordsOf ctx s t) := by
  have hfold : ∀ docs : List (Fetched D),
      Numbered ctx (docs.foldl (Eql.insertDoc ctx.codec (tableOf ctx s t)) ([], [])) := by
    intro docs
    induction docs using List.reverseRecOn with
    | nil =>
      exact ⟨List.nodup_nil, fun e he => absurd he List.not_mem_nil,
        fun row hrow => absurd hrow List.not_mem_nil⟩
    | append_singleton docs f ih =>
      rw [List.foldl_concat]
      exact ih.insertDoc _ f
  exact hfold _

theorem Materialized.Of.filed {sql : CString} {m : Materialized D}
    (h : m.Of ctx s (statementTables sql)) : Filed m.map := by
  refine ⟨?_, fun e he => (h.within e he).1⟩
  rw [h.map, List.map_flatMap, List.nodup_flatMap]
  refine ⟨fun t _ => (numbered_recordsOf s t).nodup, ?_⟩
  have haliases := (collected_collectRefs sql).nodup_aliases
  rw [← map_bare_statementTables, List.map_map] at haliases
  refine (List.pairwise_map.mp haliases).imp fun {t t'} hne => ?_
  show List.Disjoint _ _
  rw [List.disjoint_left]
  intro x hx hx'
  obtain ⟨e, he, rfl⟩ := List.mem_map.mp hx
  obtain ⟨e', he', heq⟩ := List.mem_map.mp hx'
  refine hne ?_
  calc t.tableAlias = e.table := (mem_recordsOf he).1.symm
    _ = e'.table := (Prod.mk.inj heq).1.symm
    _ = t'.tableAlias := (mem_recordsOf he').1

/-- A row has the id that is on file for its number. -/
theorem Materialized.Of.rowId_eq {sql : CString} {m : Materialized D}
    (h : m.Of ctx s (statementTables sql)) {e : RowRec} (he : e ∈ m.map) {sh : Shadow D}
    (hsh : sh ∈ m.shadows) (hname : sh.name = e.table) {row : ShadowRow D} (hrow : row ∈ sh.rows)
    (hrowid : row.rowid = e.rowid) : rowId ctx row = e.id := by
  rw [h.map] at he
  rw [h.shadows] at hsh
  obtain ⟨t, ht, he⟩ := List.mem_flatMap.mp he
  obtain ⟨t', ht', rfl⟩ := List.mem_map.mp hsh
  have haliases := (collected_collectRefs sql).nodup_aliases
  rw [← map_bare_statementTables, List.map_map] at haliases
  -- the table of the row and the record is one
  obtain rfl : t' = t := by
    refine List.inj_on_of_nodup_map haliases ht' ht ?_
    exact (name_shadowOf s t').symm.trans (hname.trans (mem_recordsOf he).1)
  exact (numbered_recordsOf s t').named row hrow e he hrowid

end Materialised

/-! ## Statements -/

/-- What SQLite promises of a run and of the update hook: the tables stay the same, their rows have
numbers of their own, and a row that is inserted or updated is reported. A deletion need not be. -/
structure Run.Hooked (before : List (Shadow D)) (run : Run D) : Prop where
  tables : run.after.map Shadow.name = before.map Shadow.name
  numbered : ∀ sh ∈ run.after, (sh.rows.map ShadowRow.rowid).Nodup
  reported : ∀ sh' ∈ run.after, ∀ sh ∈ before, sh.name = sh'.name →
    ∀ row ∈ sh'.rows, row ∉ sh.rows →
      ∃ ev ∈ run.events, ev.table = sh.name ∧ ev.op ≠ .delete ∧ ev.rowid = row.rowid

/-- A column goes by the name of the row number. -/
def HidesRowid (shadows : List (Shadow D)) : Prop :=
  ∃ sh ∈ shadows, ∃ c ∈ sh.cols, strcasecmpEq c (cstr "rowid") = true

section Told

variable (ctx : Ctx σ D) (tables : List Table) (map : List RowRec)
  (before after : List (Shadow D)) (events : List Event)

/-- The edits by which the records before and after a run differ. -/
def differences : Set (RecordName × Option (Json D)) :=
  Edits.difference {x | x ∈ records ctx tables map before} {x | x ∈ records ctx tables map after}

/-- The shards hold a difference: a record that it changes reads as it says, a deleted one not at
all, and every other record as in the state before, the registry of keyspaces apart. -/
structure Holds (B : Backend σ D) (edits : Set (RecordName × Option (Json D))) (s s' : σ) :
    Prop where
  changed : ∀ c : Change D, c.edit ∈ edits → B.get s' c.table.part c.ks c.id = c.value
  spared : ∀ partition keyspace id, B.shardKey partition keyspace ∉ registryKeys B →
    (∀ c : Change D, c.edit ∈ edits → (B.shardKey partition keyspace, id) ≠ c.spot B) →
      B.get s' partition keyspace id = B.get s partition keyspace id

/-- A write-back is the difference of the tables: its changes are the edits by which the records
before and after differ, carried out in their order they make the ones after of the ones before,
and afterwards the shards hold the difference. -/
structure Mirrors (changes : List (Change D)) (s s' : σ) : Prop where
  sends : ∀ e, e ∈ changes.map Change.edit ↔ e ∈ differences ctx tables map before after
  makes : (changes.map Change.edit).foldl Edits.edit {x | x ∈ records ctx tables map before} =
    {x | x ∈ records ctx tables map after}
  shards : Holds ctx.backend (differences ctx tables map before after) s s'

/-- The changes keep out of each other's way: none comes to a record that another is of or comes
to, none is of the registry of keyspaces, and no code is attached to their events. -/
structure Separate (changes : List (Change D)) (s : σ) : Prop where
  apart : ∀ c ∈ changes, ∀ c' ∈ changes, c.edit.1 ≠ c'.edit.1 → ∀ x ∈ c'.comesTo ctx.backend,
    x ≠ c.spot ctx.backend ∧ x ∉ c.comesTo ctx.backend
  registry : ∀ c ∈ changes, c.key ctx.backend ∉ registryKeys ctx.backend
  unattended : Unattended ctx.backend s changes

/-- The record that a row record is about. -/
def RowRec.Names (e : RowRec) (tables : List Table) (k : RecordName) : Prop :=
  ∃ t ∈ tables, t.tableAlias = e.table ∧ k = ⟨t, e.ks, e.id⟩

instance (e : RowRec) (tables : List Table) (k : RecordName) : Decidable (e.Names tables k) :=
  inferInstanceAs (Decidable (∃ t ∈ tables, t.tableAlias = e.table ∧ k = ⟨t, e.ks, e.id⟩))

/-- The row of a number in a table. -/
def rowOf (shadows : List (Shadow D)) (table : CString) (rowid : Int) : Option (ShadowRow D) :=
  (shadows.find? fun sh => sh.name = table).bind fun sh => sh.rows.find? fun r => r.rowid = rowid

/-- The row on file gave up its record: it was reported as deleted, or it has another id. -/
def Dropped (e : RowRec) : Prop :=
  ⟨e.table, .delete, e.rowid⟩ ∈ events ∨
    ∃ row ∈ rowOf after e.table e.rowid, rowId ctx row ≠ e.id

instance (e : RowRec) : Decidable (Dropped ctx after events e) :=
  inferInstanceAs (Decidable (_ ∨ ∃ row ∈ rowOf after e.table e.rowid, rowId ctx row ≠ e.id))

/-- The events tell the difference of the tables. A record that no row stands for any more has a
row on file that was reported as deleted or is there under another id, and only such records have.
No row is reported that is as it was, and no new one twice. No two rows of one name differ. -/
structure Told : Prop where
  /-- no row is lost without a report: neither to a truncated table nor to a REPLACE -/
  lost : ¬ HidesRowid after → ∀ x ∈ records ctx tables map before,
    x.1 ∉ (records ctx tables map after).map Prod.fst →
      ∃ e ∈ map, e.Names tables x.1 ∧ Dropped ctx after events e
  /-- a row that gave up its record had it for itself, and no other row took it -/
  given : ¬ HidesRowid after → ∀ e ∈ map, Dropped ctx after events e → ∀ k, e.Names tables k →
    k ∈ (records ctx tables map before).map Prod.fst ∧
      k ∉ (records ctx tables map after).map Prod.fst
  /-- a row that is reported is not as it was -/
  idle : ∀ ev ∈ events, ∀ x ∈ written ctx tables after map ev,
    x ∉ records ctx tables map before
  /-- a new row is reported once, or the buffer happens to hold its keyspace -/
  again : ∀ ev, List.Duplicate ev events → ∀ x ∈ rewritten ctx tables after map ev,
    x ∈ records ctx tables map after ∧ x ∉ records ctx tables map before
  /-- where a column hides the row numbers, the rows that are read back are the right ones -/
  shown : HidesRowid after →
    (∀ k, (∃ ev ∈ events, k ∈ givenUp ctx tables after map ev) ↔
      k ∈ (records ctx tables map before).map Prod.fst ∧
        k ∉ (records ctx tables map after).map Prod.fst) ∧
      (∀ ev ∈ events, ∀ x ∈ written ctx tables after map ev,
        x ∈ records ctx tables map after) ∧
      ∀ x ∈ records ctx tables map after, x ∉ records ctx tables map before →
        (∃ ev ∈ events, x ∈ written ctx tables after map ev) ∨
          ∃ ev, List.Duplicate ev events ∧ x ∈ rewritten ctx tables after map ev
  /-- rows of one name did not change, or there is one -/
  clear : ∀ k, Edits.Clear {x | x ∈ records ctx tables map before}
    {x | x ∈ records ctx tables map after} k

end Told

/-! ## The shards -/

section Shards

variable {ctx : Ctx σ D} {R R' : Set (RecordName × Json D)} {changes : List (Change D)} {s : σ}

/-- **A difference comes to the shards** if and only if the store takes each change of it. -/
theorem holds_iff (hsends : ∀ e, e ∈ changes.map Change.edit ↔ e ∈ Edits.difference R R')
    (hclear : ∀ k, Edits.Clear R R' k) (hsep : Separate ctx changes s) :
    Holds ctx.backend (Edits.difference R R') s (sendAll ctx changes s) ↔
      ∀ c : Change D, c.edit ∈ Edits.difference R R' → c.Taken ctx.backend s := by
  have hmem : ∀ c : Change D, c.edit ∈ Edits.difference R R' ↔ c ∈ changes := fun c => by
    rw [← hsends, List.mem_map_of_injective edit_injective]
  -- a name has one change
  have hone : ∀ c ∈ changes, ∀ c' ∈ changes, c'.edit.1 = c.edit.1 → c' = c := by
    intro c hc c' hc' hname
    refine edit_injective (Prod.ext hname ?_)
    have hc' : (c.edit.1, c'.edit.2) ∈ Edits.difference R R' := hname ▸ (hmem c').mpr hc'
    exact Edits.eq_of_mem_difference (hclear c.edit.1) hc' ((hmem c).mpr hc)
  rw [sendAll_eq_plain hsep.unattended]
  -- where a change is of or comes to, the others do not interfere
  have halone : ∀ c ∈ changes, ∀ partition keyspace id,
      ctx.backend.shardKey partition keyspace ∉ registryKeys ctx.backend →
      ((ctx.backend.shardKey partition keyspace, id) = c.spot ctx.backend ∨
        (ctx.backend.shardKey partition keyspace, id) ∈ c.comesTo ctx.backend) →
      ctx.backend.get (sendAll ctx.plain changes s) partition keyspace id =
        ctx.backend.get (ctx.backend.write c.write s).2 partition keyspace id := by
    intro c hc partition keyspace id hreg hat
    refine get_sendAll hc hreg (fun c' hc' => ?_) s
    by_cases hname : c'.edit.1 = c.edit.1
    · exact .inl (hone c hc c' hc' hname)
    · refine .inr fun hcomes => ?_
      obtain ⟨hspot, hnot⟩ := hsep.apart c hc c' hc' (Ne.symm hname) _ hcomes
      exact hat.elim hspot hnot
  constructor
  · intro hholds c hdiff
    have hc := (hmem c).mp hdiff
    refine ⟨?_, fun partition keyspace id hne hreg => ?_⟩
    · exact (halone c hc _ _ _ (hsep.registry c hc) (.inl rfl)).symm.trans
        (hholds.changed c hdiff)
    · by_cases hcomes : (ctx.backend.shardKey partition keyspace, id) ∈ c.comesTo ctx.backend
      · -- it comes to a record that no change is of
        refine (halone c hc partition keyspace id hreg (.inr hcomes)).symm.trans
          (hholds.spared partition keyspace id hreg fun c' hdiff' => ?_)
        have hc' := (hmem c').mp hdiff'
        by_cases hname : c'.edit.1 = c.edit.1
        · exact hone c hc c' hc' hname ▸ hne
        · exact (hsep.apart c' hc' c hc hname _ hcomes).1
      · exact ctx.backend.get_cell (cell_write_of_ne hcomes s)
  · intro htaken
    refine ⟨fun c hdiff => ?_, fun partition keyspace id hreg hnone => ?_⟩
    · have hc := (hmem c).mp hdiff
      exact (halone c hc _ _ _ (hsep.registry c hc) (.inl rfl)).trans (htaken c hdiff).reads
    · by_cases hcomes : ∃ c ∈ changes,
          (ctx.backend.shardKey partition keyspace, id) ∈ c.comesTo ctx.backend
      · obtain ⟨c, hc, hcomes⟩ := hcomes
        have hdiff := (hmem c).mpr hc
        exact (halone c hc partition keyspace id hreg (.inr hcomes)).trans
          ((htaken c hdiff).spares partition keyspace id (hnone c hdiff) hreg)
      · exact get_sendAll_of_none hreg (fun c hc h => hcomes ⟨c, hc, h⟩) s

end Shards

section Edits

variable {ctx : Ctx σ D} {tables : List Table} {after : List (Shadow D)} {map : List RowRec}
  {events : List Event} {op : SqlOp}

theorem mem_edits_none (hf : Filed map) (hops : ∀ ev ∈ events, ev.op = op) (k : RecordName) :
    (k, none) ∈ (planned ctx tables after map events).map Change.edit ↔
      ∃ ev ∈ events, k ∈ givenUp ctx tables after map ev := by
  rw [mem_edits_planned hf events hops]
  simp [eventEdits, dropEdit, putEdit]

theorem mem_edits_some (hf : Filed map) (hops : ∀ ev ∈ events, ev.op = op)
    (x : RecordName × Json D) :
    (x.1, some x.2) ∈ (planned ctx tables after map events).map Change.edit ↔
      (∃ ev ∈ events, x ∈ written ctx tables after map ev) ∨
        ∃ ev, List.Duplicate ev events ∧ x ∈ rewritten ctx tables after map ev := by
  rw [mem_edits_planned hf events hops]
  simp [eventEdits, dropEdit, putEdit]

/-- The edits are the difference if and only if both tell it. -/
theorem edits_eq_difference_iff (hf : Filed map) (hops : ∀ ev ∈ events, ev.op = op)
    (before : List (Shadow D)) :
    (∀ e, e ∈ (planned ctx tables after map events).map Change.edit ↔
        e ∈ Edits.difference {x | x ∈ records ctx tables map before}
          {x | x ∈ records ctx tables map after}) ↔
      (∀ k, (∃ ev ∈ events, k ∈ givenUp ctx tables after map ev) ↔
          k ∈ (records ctx tables map before).map Prod.fst ∧
            k ∉ (records ctx tables map after).map Prod.fst) ∧
        ∀ x, ((∃ ev ∈ events, x ∈ written ctx tables after map ev) ∨
            ∃ ev, List.Duplicate ev events ∧ x ∈ rewritten ctx tables after map ev) ↔
          x ∈ records ctx tables map after ∧ x ∉ records ctx tables map before := by
  constructor
  · refine fun h => ⟨fun k => ?_, fun x => ?_⟩
    · rw [← mem_edits_none hf hops, h, Edits.mem_difference_none, Edits.fiber_nonempty_iff,
        Edits.fiber_eq_empty_iff]
    · rw [← mem_edits_some hf hops, h, Edits.mem_difference_some]
      rfl
  · rintro ⟨hnone, hsome⟩ ⟨k, v?⟩
    cases v? with
    | none =>
      rw [mem_edits_none hf hops, hnone, Edits.mem_difference_none, Edits.fiber_nonempty_iff,
        Edits.fiber_eq_empty_iff]
    | some v =>
      rw [mem_edits_some hf hops (k, v), hsome, Edits.mem_difference_some]
      rfl

end Edits

section Statements

variable {ctx : Ctx σ D} {sql : CString} {groups : UInt64} {trusted : Bool} {s : σ}
  {m : Materialized D} {p : Prepared D}

theorem readRow_of_not_hides {shadows : List (Shadow D)} (h : ¬ HidesRowid shadows)
    {sh : Shadow D} (hsh : sh ∈ shadows) (rowid : Int) :
    readRow sh rowid = sh.rows.find? fun r => r.rowid = rowid := by
  have hnone : sh.cols.findIdx? (fun c => strcasecmpEq c (cstr "rowid")) = none := by
    rw [List.findIdx?_eq_none_iff]
    intro c hc
    exact Bool.eq_false_iff.mpr fun hrowid => h ⟨sh, hsh, c, hc, hrowid⟩
  rw [readRow, hnone]

/-- A record of the tables is that of a row. -/
theorem mem_records {tables : List Table} {map : List RowRec} {shadows : List (Shadow D)}
    {x : RecordName × Json D} :
    x ∈ records ctx tables map shadows ↔
      ∃ t ∈ tables, ∃ sh, shadows.find? (fun sh => sh.name = t.tableAlias) = some sh ∧
        ∃ row ∈ sh.rows, rowRecord ctx t (homeOf map t row.rowid) row = x := by
  rw [records, List.mem_flatMap]
  refine exists_congr fun t => and_congr_right fun _ => ?_
  cases shadows.find? fun sh => sh.name = t.tableAlias with
  | none => simp
  | some sh => simp

/-- Where no column hides the row numbers, what an event writes is the record of a row. -/
theorem mem_records_of_written {tables : List Table} {map : List RowRec}
    {after : List (Shadow D)} (h : ¬ HidesRowid after) {ev : Event} {x : RecordName × Json D}
    (hx : x ∈ written ctx tables after map ev) : x ∈ records ctx tables map after := by
  rw [written, reread] at hx
  cases htable : tables.find? fun t => t.tableAlias = ev.table with
  | none => simp [htable] at hx
  | some t =>
    have halias : t.tableAlias = ev.table := by simpa using List.find?_some htable
    cases hafter : after.find? fun sh => sh.name = ev.table with
    | none => simp [htable, hafter] at hx
    | some sh =>
      simp only [htable, hafter] at hx
      split at hx
      · rename_i t' row heq
        obtain ⟨rfl, hrow⟩ := Prod.mk.inj (Option.some.inj heq)
        split at hrow
        · cases hrow
        · rw [readRow_of_not_hides h (List.mem_of_find?_eq_some hafter)] at hrow
          have hrowid : row.rowid = ev.rowid := by simpa using List.find?_some hrow
          rw [List.mem_singleton] at hx
          exact mem_records.mpr ⟨t, List.mem_of_find?_eq_some htable, sh, halias ▸ hafter, row,
            List.mem_of_find?_eq_some hrow, by rw [hrowid, hx]⟩
      · cases hx

/-- A table of a statement has its rows before it and after it. -/
theorem Carried.exists_shadow (h : Carried ctx sql groups trusted s m p)
    (hrun : (p.run m.shadows).Hooked m.shadows) {t : Table} (ht : t ∈ m.tables) :
    ∃ sh ∈ m.shadows, sh.name = t.tableAlias ∧
      m.shadows.find? (fun sh => sh.name = t.tableAlias) = some sh ∧
      ∃ sh' ∈ (p.run m.shadows).after, sh'.name = t.tableAlias ∧
        (p.run m.shadows).after.find? (fun sh => sh.name = t.tableAlias) = some sh' := by
  have hof := Materialized.of_materializeAll h.tables
  have hmem : t.tableAlias ∈ m.shadows.map Shadow.name := by
    rw [hof.tables] at ht
    obtain ⟨t₀, ht₀, rfl⟩ := List.mem_map.mp ht
    rw [hof.shadows, List.map_map]
    exact List.mem_map.mpr ⟨t₀, ht₀, by simp [name_shadowOf]⟩
  have hmem' := hrun.tables ▸ hmem
  obtain ⟨sh₀, hsh₀, hname₀⟩ := List.mem_map.mp hmem
  obtain ⟨sh₁, hsh₁, hname₁⟩ := List.mem_map.mp hmem'
  obtain ⟨sh, hsh, hname, hfind⟩ := Keys.exists_find? hsh₀ hname₀
  obtain ⟨sh', hsh', hname', hfind'⟩ := Keys.exists_find? hsh₁ hname₁
  exact ⟨sh, hsh, hname, hfind, sh', hsh', hname', hfind'⟩

/-- What is reread for an event on a table of a statement. -/
theorem Carried.reread_eq (h : Carried ctx sql groups trusted s m p) {t : Table} (ht : t ∈ m.tables)
    {ev : Event} (halias : t.tableAlias = ev.table) {sh' : Shadow D}
    (hafter : (p.run m.shadows).after.find? (fun sh => sh.name = t.tableAlias) = some sh') :
    reread m.tables (p.run m.shadows).after ev =
      some (t, if ev.op = .delete then none else readRow sh' ev.rowid) := by
  have haliases := (collected_collectRefs sql).nodup_aliases
  rw [← (Materialized.of_materializeAll h.tables).map_bare, List.map_map] at haliases
  have hfind : m.tables.find? (fun t => t.tableAlias = ev.table) = some t :=
    Keys.find?_of_nodup haliases ht halias
  rw [reread, hfind, ← halias, hafter]

/-- A row that is not as it was has an event that rereads it, unless a column hides its number. -/
theorem Carried.reported (h : Carried ctx sql groups trusted s m p)
    (hrun : (p.run m.shadows).Hooked m.shadows) (hhides : ¬ HidesRowid (p.run m.shadows).after)
    {t : Table} (ht : t ∈ m.tables) {sh sh' : Shadow D} (hsh : sh ∈ m.shadows)
    (hname : sh.name = t.tableAlias)
    (hafter : (p.run m.shadows).after.find? (fun sh => sh.name = t.tableAlias) = some sh')
    {row : ShadowRow D} (hrow : row ∈ sh'.rows) (hfresh : row ∉ sh.rows) :
    ∃ ev ∈ trapped m.tables (p.run m.shadows).events, ev.table = t.tableAlias ∧
      ev.rowid = row.rowid ∧ reread m.tables (p.run m.shadows).after ev = some (t, some row) := by
  have hsh' := List.mem_of_find?_eq_some hafter
  have hname' : sh'.name = t.tableAlias := by simpa using List.find?_some hafter
  obtain ⟨ev, hev, htable, hop, hrowid⟩ :=
    hrun.reported sh' hsh' sh hsh (hname.trans hname'.symm) row hrow hfresh
  have halias : t.tableAlias = ev.table := (htable.trans hname).symm
  have hread : readRow sh' ev.rowid = some row := by
    rw [readRow_of_not_hides hhides hsh']
    -- its number finds the row and no other
    exact Keys.find?_of_nodup (hrun.numbered sh' hsh') hrow hrowid.symm
  refine ⟨ev, List.mem_filter.mpr ⟨hev, ?_⟩, halias.symm, hrowid, ?_⟩
  · simpa [← halias] using ⟨t, ht, rfl⟩
  · rw [h.reread_eq ht halias hafter, if_neg hop, hread]

/-- Where no column hides the row numbers, a row that is not as it was is written back. -/
theorem Carried.written_of_changed (h : Carried ctx sql groups trusted s m p)
    (hrun : (p.run m.shadows).Hooked m.shadows) (hhides : ¬ HidesRowid (p.run m.shadows).after)
    {x : RecordName × Json D} (hx : x ∈ records ctx m.tables m.map (p.run m.shadows).after)
    (hnew : x ∉ records ctx m.tables m.map m.shadows) :
    ∃ ev ∈ trapped m.tables (p.run m.shadows).events,
      x ∈ written ctx m.tables (p.run m.shadows).after m.map ev := by
  obtain ⟨t, ht, sh', hafter, row, hrow, rfl⟩ := mem_records.mp hx
  obtain ⟨sh, hsh, hname, hbefore, -⟩ := h.exists_shadow hrun ht
  -- a row that was there would have been among the records
  have hfresh : row ∉ sh.rows := fun hmem =>
    hnew (mem_records.mpr ⟨t, ht, sh, hbefore, row, hmem, rfl⟩)
  obtain ⟨ev, hev, -, hrowid, hread⟩ := h.reported hrun hhides ht hsh hname hafter hrow hfresh
  refine ⟨ev, hev, ?_⟩
  rw [written, hread, hrowid]
  exact List.mem_singleton.mpr rfl

/-- **The names that are given up** are those of the rows on file that gave up theirs, where no
column hides the row numbers. -/
theorem Carried.givenUp_iff (h : Carried ctx sql groups trusted s m p)
    (hrun : (p.run m.shadows).Hooked m.shadows) (hhides : ¬ HidesRowid (p.run m.shadows).after)
    (k : RecordName) :
    (∃ ev ∈ trapped m.tables (p.run m.shadows).events,
        k ∈ givenUp ctx m.tables (p.run m.shadows).after m.map ev) ↔
      ∃ e ∈ m.map, e.Names m.tables k ∧
        Dropped ctx (p.run m.shadows).after (trapped m.tables (p.run m.shadows).events) e := by
  have hof := Materialized.of_materializeAll h.tables
  have hf := hof.filed
  constructor
  · rintro ⟨ev, hev, hk⟩
    obtain ⟨t, ht, halias⟩ : ∃ t ∈ m.tables, t.tableAlias = ev.table := by
      simpa [trapped] using (List.mem_filter.mp hev).2
    obtain ⟨-, -, -, -, sh', hsh', -, hafter⟩ := h.exists_shadow hrun ht
    rw [givenUp, h.reread_eq ht halias hafter] at hk
    cases hfile : onFile m.map ev.table ev.rowid with
    | none =>
      rw [hfile] at hk
      split at hk <;> simp_all
    | some e =>
      obtain ⟨he, hkey⟩ := (onFile_eq_some_iff hf).mp hfile
      obtain ⟨htable, hrowid⟩ := Prod.mk.inj hkey
      have hnames : e.Names m.tables ⟨t, e.ks, e.id⟩ := ⟨t, ht, halias.trans htable.symm, rfl⟩
      rw [hfile] at hk
      by_cases hop : ev.op = .delete
      · rw [if_pos hop] at hk
        dsimp only at hk
        rw [if_pos hop, List.mem_singleton] at hk
        subst hk
        refine ⟨e, he, hnames, .inl ?_⟩
        rw [htable, hrowid, ← hop]
        exact hev
      · rw [if_neg hop] at hk
        cases hrow : readRow sh' ev.rowid with
        | none =>
          rw [hrow] at hk
          dsimp only at hk
          rw [if_neg hop] at hk
          cases hk
        | some row =>
          rw [hrow] at hk
          dsimp only at hk
          split at hk
          · cases hk
          · rename_i hid
            rw [List.mem_singleton] at hk
            subst hk
            have hfound := (readRow_of_not_hides hhides hsh' ev.rowid).symm.trans hrow
            refine ⟨e, he, hnames, .inr ⟨row, ?_, Ne.symm hid⟩⟩
            rw [rowOf, htable, ← halias, hafter, hrowid]
            exact hfound
  · rintro ⟨e, he, ⟨t, ht, halias, rfl⟩, hdropped⟩
    obtain ⟨sh, hsh, hname, -, sh', hsh', hname', hafter⟩ := h.exists_shadow hrun ht
    have hfile : onFile m.map e.table e.rowid = some e := (onFile_eq_some_iff hf).mpr ⟨he, rfl⟩
    rcases hdropped with hev | ⟨row, hrow, hid⟩
    · refine ⟨_, hev, ?_⟩
      rw [givenUp, h.reread_eq ht halias hafter, hfile]
      exact List.mem_singleton.mpr rfl
    · rw [rowOf, ← halias, hafter] at hrow
      have hfound : sh'.rows.find? (fun r => r.rowid = e.rowid) = some row := hrow
      have hrowid : row.rowid = e.rowid := by simpa using List.find?_some hfound
      -- under its old number the row had the id on file
      have hfresh : row ∉ sh.rows := fun hmem =>
        hid (hof.rowId_eq he hsh (hname.trans halias) hmem hrowid)
      obtain ⟨ev, hev, htable, hnumber, hread⟩ := h.reported hrun hhides ht hsh hname hafter
        (List.mem_of_find?_eq_some hfound) hfresh
      refine ⟨ev, hev, ?_⟩
      rw [givenUp, hread, htable, halias, hnumber, hrowid, hfile]
      dsimp only
      rw [if_neg (Ne.symm hid)]
      exact List.mem_singleton.mpr rfl

/-- **The changes are the difference** and make it of the records if and only if the run and its
events tell it. -/
theorem Carried.told_iff (he : ctx.sqlite.ReportsAllowed) (h : Carried ctx sql groups trusted s m p)
    (hrun : (p.run m.shadows).Hooked m.shadows) :
    ((∀ e, e ∈ (statementChanges ctx sql groups trusted s).map Change.edit ↔
          e ∈ differences ctx m.tables m.map m.shadows (p.run m.shadows).after) ∧
        ((statementChanges ctx sql groups trusted s).map Change.edit).foldl Edits.edit
            {x | x ∈ records ctx m.tables m.map m.shadows} =
          {x | x ∈ records ctx m.tables m.map (p.run m.shadows).after}) ↔
      Told ctx m.tables m.map m.shadows (p.run m.shadows).after
        (trapped m.tables (p.run m.shadows).events) := by
  have hf := (Materialized.of_materializeAll h.tables).filed
  obtain ⟨op, hop⟩ : ∃ op, (classifyStatement sql).allowOp = some op := by
    have hdml := h.isDml
    cases hkind : classifyStatement sql <;> first | exact ⟨_, rfl⟩ | simp [hkind, Kind.isDml] at hdml
  have hops : ∀ ev ∈ trapped m.tables (p.run m.shadows).events, ev.op = op := fun ev hev =>
    Option.some.inj ((h.ops he ev hev).trans hop)
  rw [h.changes_eq, differences, and_congr_right fun hes => Edits.foldl_edit_eq_iff hes,
    edits_eq_difference_iff hf hops]
  constructor
  · -- each clause of the difference is one of what the events tell
    rintro ⟨⟨hgone, hput⟩, hclear⟩
    exact {
      lost hhides x hx hgone' :=
        (h.givenUp_iff hrun hhides x.1).mp ((hgone x.1).mpr ⟨List.mem_map_of_mem hx, hgone'⟩)
      given hhides e he hdropped k hk :=
        (hgone k).mp ((h.givenUp_iff hrun hhides k).mpr ⟨e, he, hk, hdropped⟩)
      idle ev hev x hx := ((hput x).mp (.inl ⟨ev, hev, hx⟩)).2
      again ev hev x hx := (hput x).mp (.inr ⟨ev, hev, hx⟩)
      shown _ := ⟨hgone, fun ev hev x hx => ((hput x).mp (.inl ⟨ev, hev, hx⟩)).1,
        fun x hx hnew => (hput x).mpr ⟨hx, hnew⟩⟩
      clear := hclear }
  · intro ht
    refine ⟨⟨fun k => ?_, fun x => ⟨?_, ?_⟩⟩, ht.clear⟩
    · by_cases hhides : HidesRowid (p.run m.shadows).after
      · exact (ht.shown hhides).1 k
      · rw [h.givenUp_iff hrun hhides]
        constructor
        · rintro ⟨e, he, hk, hdropped⟩
          exact ht.given hhides e he hdropped k hk
        · rintro ⟨hk, hgone⟩
          obtain ⟨x, hx, rfl⟩ := List.mem_map.mp hk
          exact ht.lost hhides x hx hgone
    · rintro (⟨ev, hev, hx⟩ | ⟨ev, hev, hx⟩)
      · refine ⟨?_, ht.idle ev hev x hx⟩
        -- without a hidden number a row that is written back is one of the records
        by_cases hhides : HidesRowid (p.run m.shadows).after
        · exact (ht.shown hhides).2.1 ev hev x hx
        · exact mem_records_of_written hhides hx
      · exact ht.again ev hev x hx
    · rintro ⟨hx, hnew⟩
      by_cases hhides : HidesRowid (p.run m.shadows).after
      · exact (ht.shown hhides).2.2 x hx hnew
      · exact .inl (h.written_of_changed hrun hhides hx hnew)

/-- **Write-back and difference.** What a statement that is carried out replicates is the
difference of its tables before and after, makes the records after of those before, and brings the
difference to the shards, if and only if its run and events tell the difference and the store takes
each change of it in the state before the statement. -/
theorem mirrors_iff (he : ctx.sqlite.ReportsAllowed) (h : Carried ctx sql groups trusted s m p)
    (hrun : (p.run m.shadows).Hooked m.shadows)
    (hsep : Separate ctx (statementChanges ctx sql groups trusted s) s) :
    Mirrors ctx m.tables m.map m.shadows (p.run m.shadows).after
        (statementChanges ctx sql groups trusted s) s
        (edbEqlExecute ctx sql groups trusted s).2 ↔
      Told ctx m.tables m.map m.shadows (p.run m.shadows).after
          (trapped m.tables (p.run m.shadows).events) ∧
        ∀ c : Change D,
          c.edit ∈ differences ctx m.tables m.map m.shadows (p.run m.shadows).after →
            c.Taken ctx.backend s := by
  rw [edbEqlExecute_snd]
  constructor
  · intro hmirrors
    have htold := (h.told_iff he hrun).mp ⟨hmirrors.sends, hmirrors.makes⟩
    exact ⟨htold, (holds_iff hmirrors.sends htold.clear hsep).mp hmirrors.shards⟩
  · rintro ⟨htold, htaken⟩
    obtain ⟨hsends, hmakes⟩ := (h.told_iff he hrun).mpr htold
    exact ⟨hsends, hmakes, (holds_iff hsends htold.clear hsep).mpr htaken⟩

end Statements

/-! ## A REPLACE, and a DELETE without a condition -/

section Samples

theorem tables_replace : replaceTables.tables = [⟨cstr "a", cstr "p", cstr "k", cstr "a.p.k",
    cstr "eql_t0", false, [(cstr "id", false), (cstr "v", false)]⟩] := by decide +kernel

theorem map_replace : replaceTables.map = [⟨cstr "eql_t0", 1, cstr "r", cstr "k"⟩] := by
  decide +kernel

theorem shadows_replace : replaceTables.shadows = [⟨cstr "eql_t0", [cstr "v"],
    [⟨1, .text (cstr "r"), [.int 1]⟩]⟩] := by decide +kernel

theorem after_replace : (replaceStatement.run replaceTables.shadows).after =
    [⟨cstr "eql_t0", [cstr "v"], [⟨2, .text (cstr "r"), [.int 2]⟩]⟩] := by
  rw [shadows_replace]
  decide +kernel

theorem events_replace : (replaceStatement.run replaceTables.shadows).events =
    [⟨cstr "eql_t0", .insert, 2⟩] := by
  rw [shadows_replace]
  decide +kernel

/-- The row that a REPLACE puts is reported, and the row it displaced had its name. -/
theorem hooked_replace :
    (replaceStatement.run replaceTables.shadows).Hooked replaceTables.shadows := by
  constructor
  · rw [after_replace, shadows_replace]
    decide
  · rw [after_replace]
    decide
  · rw [after_replace, events_replace, shadows_replace]
    decide

/-- The one change of a REPLACE is in nobody's way. -/
theorem separate_replace :
    Separate replaceHost.ctx (statementChanges replaceHost.ctx replaceSql 2 false oneNote)
      oneNote := by
  have hnone : (replaceHost.backend.all oneNote systemDb cfgCode).isEmpty = true := by
    decide +kernel
  refine ⟨fun c hc c' hc' hne => absurd ?_ hne, fun c hc hmem => ?_,
    .inr ⟨codeKey_smallHost replaceSqlite, fun c hc =>
      ⟨fun p hp => ?_, quiet_smallHost replaceSqlite hnone _ _ _⟩⟩⟩
  · have hnames : ∀ c ∈ statementChanges replaceHost.ctx replaceSql 2 false oneNote,
        ∀ c' ∈ statementChanges replaceHost.ctx replaceSql 2 false oneNote,
          c.edit.1 = c'.edit.1 := by decide +kernel
    exact hnames c hc c' hc'
  · obtain ⟨ks, hks, hkey⟩ := hmem
    have hkeys : ∀ c ∈ statementChanges replaceHost.ctx replaceSql 2 false oneNote,
        ∀ ks ∈ [cfgPartitions, cfgKeyspaces],
          replaceHost.backend.shardKey systemDb ks ≠ c.key replaceHost.backend := by
      decide +kernel
    exact hkeys c hc ks hks hkey
  · have hcode : ∀ c ∈ statementChanges replaceHost.ctx replaceSql 2 false oneNote,
        ∀ p ∈ replaceHost.backend.place c.write,
          replaceHost.backend.shardKey p.partition p.keyspace ≠ replaceHost.backend.codeKey := by
      decide +kernel
    exact hcode c hc p hp

theorem mirrors_replace :
    Mirrors replaceHost.ctx replaceTables.tables replaceTables.map replaceTables.shadows
      (replaceStatement.run replaceTables.shadows).after
      (statementChanges replaceHost.ctx replaceSql 2 false oneNote) oneNote
      (edbEqlExecute replaceHost.ctx replaceSql 2 false oneNote).2 := by
  refine (mirrors_iff reportsAllowed_replaceSqlite carried_replace hooked_replace
    separate_replace).mpr ⟨?_, fun c hc => ?_⟩
  · rw [after_replace, events_replace, shadows_replace, tables_replace, map_replace]
    exact {
      lost := fun _ => by decide +kernel
      -- the row that was displaced is not reported
      given := fun _ e he hdropped => absurd hdropped (by revert e; decide +kernel)
      idle := by decide +kernel
      again := fun ev h => absurd h (List.not_duplicate_singleton ev _)
      shown := fun h => absurd h (by rw [HidesRowid]; decide +kernel)
      clear := fun k => Edits.clear_of_subsingleton
        (Edits.fiber_subsingleton (by decide +kernel) k)
        (Edits.fiber_subsingleton (by decide +kernel) k) }
  · -- the documents of the rows read back
    have hkeeps : ∀ x ∈ records replaceHost.ctx replaceTables.tables replaceTables.map
        (replaceStatement.run replaceTables.shadows).after, replaceHost.codec.Keeps x.2 := by
      rw [after_replace, tables_replace, map_replace]
      decide +kernel
    refine taken_local.mpr fun doc hdoc => ?_
    have hnew : (c.edit.1, some doc) ∈ differences replaceHost.ctx replaceTables.tables
        replaceTables.map replaceTables.shadows (replaceStatement.run replaceTables.shadows).after :=
      Option.mem_def.mp hdoc ▸ hc
    exact hkeeps _ (Edits.mem_difference_some.mp hnew).1

/-- All records of a keyspace. -/
def clearSql : CString := cstr "DELETE FROM a.p.k"

/-- The statement as the engine compiles it: the table is truncated, and no row is reported. -/
def clearStatement : Prepared Int where
  actions := [.dml .delete (cstr "eql_t0") none]
  readonly := false
  tail := []
  columns := []
  run shadows := ⟨[], .done, shadows.map fun sh => { sh with rows := [] }, []⟩

def clearSqlite : Sqlite Int where
  creates _ := true
  prepare text _ :=
    if text = cstr "DELETE FROM eql_t0" then .ok clearStatement else .error (cstr "syntax error")
  authError := cstr "not authorized"
  realText _ := []

def clearHost : Host (CString → Shard) Int :=
  smallHost [note 1, sqlBody clearSql] (by decide +kernel) clearSqlite

/-- A keyspace with one record. -/
def keptNote : CString → Shard :=
  (handle clearHost (.rest .put) (putBody "/data/a/p/k/r" 1 (note 1)) fun _ => ∅).2

theorem materializes_clear :
    (materializeAll clearHost.ctx keptNote (statementTables clearSql)).isSome = true := by
  decide +kernel

def clearTables : Materialized Int :=
  (materializeAll clearHost.ctx keptNote (statementTables clearSql)).get materializes_clear

/-- A DELETE without a condition is answered with success, and the record is still there. -/
theorem delete_all_deletes_nothing :
    (handle clearHost .eql (sqlRequest clearSql 1) keptNote).1.status = 200 ∧
      (handle clearHost (.rest .collect) (getOf "/data/a/p/k/r" 1)
        (handle clearHost .eql (sqlRequest clearSql 1) keptNote).2).1 = ⟨200, (note 1).text⟩ ∧
      Carried clearHost.ctx clearSql 1 false keptNote clearTables clearStatement ∧
      ¬ Mirrors clearHost.ctx clearTables.tables clearTables.map clearTables.shadows
        (clearStatement.run clearTables.shadows).after
        (statementChanges clearHost.ctx clearSql 1 false keptNote) keptNote
        (edbEqlExecute clearHost.ctx clearSql 1 false keptNote).2 := by
  refine ⟨by decide +kernel, by decide +kernel, ?_, ?_⟩
  · exact {
      allowed := Option.isNone_iff_eq_none.mp (by decide +kernel)
      tables := (Option.some_get materializes_clear).symm
      prepared := prepareStatement_eq_ok (by decide +kernel) (if_pos rfl) (by decide +kernel) rfl
      isDml := by decide +kernel
      commits := by decide +kernel }
  · rintro ⟨-, hafter, -⟩
    have hnone : (statementChanges clearHost.ctx clearSql 1 false keptNote).isEmpty = true := by
      decide +kernel
    rw [List.isEmpty_iff.mp hnone] at hafter
    have hlost : ∃ x ∈ records clearHost.ctx clearTables.tables clearTables.map
        clearTables.shadows, x ∉ records clearHost.ctx clearTables.tables clearTables.map
          (clearStatement.run clearTables.shadows).after := by decide +kernel
    obtain ⟨x, hx, hgone⟩ := hlost
    exact hgone ((Set.ext_iff.mp hafter x).mp hx)

end Samples

end EpsilonDB.Eql
