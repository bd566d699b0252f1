import EpsilonDB.Eql.Execute

/-!
# The plan of a write-back

What the event loop sends does not depend on how the sending goes. Its changes are read off
the row records, the events and the tables before any of them is written.

- `planEvent`, `plan`: the steps the loop takes, in order.
- `processEvents_eq`: the loop is the plan, carried out step by step.
- `EventEnd`: what an event can come to.
- `RecordsWithin`: the keyspaces the row records name, an invariant of the loop.
- `changes_within`: every change stays with the partition of its table, and with the keyspace
  the table names unless it names none.
- `statementPlan`: what a statement comes to, an answer or the steps of its write-back, read
  off the store before anything is written.
- `edbEqlExecute_eq`: the execution is its plan, carried out.
-/

namespace EpsilonDB.Eql

variable {σ D : Type} [Doubles D] (ctx : Ctx σ D)

/-- A step of the event loop. -/
inductive Step (D : Type) where
  | send (c : Change D)
  /-- a row that was gone again -/
  | stale (id : CString)
  | unknown

/-- The put of a row. -/
def putOf (t : Table) (ks : CString) (row : ShadowRow D) : Change D :=
  ⟨t, ks, snprintf 512 (columnText ctx row.id), some (rowToDoc ctx.codec t row.values)⟩

/-- The steps of an event, and the row records after it. -/
def planEvent (tables : List Table) (after : List (Shadow D)) (map : List RowRec) (ev : Event) :
    List RowRec × List (Step D) :=
  match tables.find? fun t => t.tableAlias = ev.table, after.find? fun sh => sh.name = ev.table with
  | some t, some sh =>
    match ev.op with
    | .delete =>
      match mapTake map ev.table ev.rowid with
      | none => (map, [.unknown])
      | some (e, map) => (map, [.send ⟨t, e.ks, e.id, none⟩])
    | .insert | .update =>
      match readRow sh ev.rowid, mapTake map ev.table ev.rowid with
      | none, none => (map, [.unknown])
      | none, some (e, map) => (map, [.stale e.id])
      | some row, none =>
        let put := putOf ctx t (if t.pw then [] else t.ks) row
        (mapAddKs map ev.table ev.rowid put.id ctx.junk, [.send put])
      | some row, some (e, map) =>
        let put := putOf ctx t e.ks row
        (mapAddKs map ev.table ev.rowid put.id e.ks,
          if e.id ≠ snprintf 512 (columnText ctx row.id) then
            [.send ⟨t, e.ks, e.id, none⟩, .send put]
          else [.send put])
  | _, _ => (map, [])

/-- The steps of a run. -/
def plan (tables : List Table) (after : List (Shadow D)) : List RowRec → List Event → List (Step D)
  | _, [] => []
  | map, ev :: events =>
    let (map, steps) := planEvent ctx tables after map ev
    steps ++ plan tables after map events

/-- The changes among the steps. -/
def Step.change : Step D → Option (Change D)
  | .send c => some c
  | _ => none

/-- The changes of a run, in order. -/
def planned (tables : List Table) (after : List (Shadow D)) (map : List RowRec)
    (events : List Event) : List (Change D) :=
  (plan ctx tables after map events).filterMap Step.change

/-- One step carried out. -/
def Replay.take (r : Replay σ) : Step D → Replay σ
  | .send c => r.send ctx c
  | .stale id => { r with applied := r.applied ++ [id] }
  | .unknown => r.unknown

/-! ## The loop follows the plan -/

theorem processEvent_eq (tables : List Table) (after : List (Shadow D)) (r : Replay σ)
    (ev : Event) :
    processEvent ctx tables after r ev =
      (planEvent ctx tables after r.map ev).2.foldl (Replay.take ctx)
        { r with map := (planEvent ctx tables after r.map ev).1 } := by
  rw [processEvent, planEvent]
  cases tables.find? fun t => t.tableAlias = ev.table with
  | none => rfl
  | some t =>
    cases after.find? fun sh => sh.name = ev.table with
    | none => rfl
    | some sh =>
      cases ev.op with
      | delete =>
        dsimp only
        cases mapTake r.map ev.table ev.rowid <;> rfl
      | insert | update =>
        dsimp only
        cases readRow sh ev.rowid with
        | none => cases mapTake r.map ev.table ev.rowid <;> rfl
        | some row =>
          cases mapTake r.map ev.table ev.rowid with
          | none => rfl
          | some e =>
            dsimp only
            -- a row with another id is written twice: once away and once anew
            by_cases hid : e.1.id ≠ snprintf 512 (columnText ctx row.id)
            · rw [if_pos hid, if_pos hid]
              rfl
            · rw [if_neg hid, if_neg hid]
              rfl

theorem take_map (r : Replay σ) (map : List RowRec) (st : Step D) :
    Replay.take ctx { r with map } st = { Replay.take ctx r st with map } := by
  cases st with
  | send c =>
    simp only [Replay.take, Replay.send]
    split <;> rfl
  | stale | unknown => rfl

theorem foldl_take_map (steps : List (Step D)) (r : Replay σ) (map : List RowRec) :
    steps.foldl (Replay.take ctx) { r with map } =
      { steps.foldl (Replay.take ctx) r with map } := by
  induction steps generalizing r with
  | nil => rfl
  | cons st steps ih => rw [List.foldl_cons, List.foldl_cons, take_map, ih]

/-- The loop carries out the plan. -/
theorem foldl_processEvent_eq (tables : List Table) (after : List (Shadow D))
    (events : List Event) (r : Replay σ) :
    ∃ map, events.foldl (processEvent ctx tables after) r =
      { (plan ctx tables after r.map events).foldl (Replay.take ctx) r with map } := by
  induction events generalizing r with
  | nil => exact ⟨r.map, rfl⟩
  | cons ev events ih =>
    rw [List.foldl_cons, processEvent_eq, foldl_take_map]
    obtain ⟨map, h⟩ := ih { (planEvent ctx tables after r.map ev).2.foldl (Replay.take ctx) r with
      map := (planEvent ctx tables after r.map ev).1 }
    refine ⟨map, h.trans ?_⟩
    rw [foldl_take_map, plan, List.foldl_append]

theorem processEvents_eq (tables : List Table) (after : List (Shadow D)) (map : List RowRec)
    (events : List Event) (s : σ) :
    ∃ map', processEvents ctx tables after map events s =
      { (plan ctx tables after map events).foldl (Replay.take ctx) ⟨map, [], [], s⟩ with
        map := map' } :=
  foldl_processEvent_eq ctx tables after events ⟨map, [], [], s⟩

/-! ## What an event comes to -/

/-- What an event comes to: the row records after it and its steps. -/
inductive EventEnd (ctx : Ctx σ D) (tables : List Table) (after : List (Shadow D))
    (map : List RowRec) (ev : Event) : List RowRec × List (Step D) → Prop where
  | ignored : EventEnd ctx tables after map ev (map, [])
  | unknown (htake : mapTake map ev.table ev.rowid = none) :
      EventEnd ctx tables after map ev (map, [.unknown])
  | stale {e : RowRec} {map' : List RowRec} (hop : ev.op ≠ .delete)
      (htake : mapTake map ev.table ev.rowid = some (e, map')) :
      EventEnd ctx tables after map ev (map', [.stale e.id])
  | deleted {t : Table} {e : RowRec} {map' : List RowRec}
      (htable : tables.find? (fun t => t.tableAlias = ev.table) = some t)
      (hop : ev.op = .delete) (htake : mapTake map ev.table ev.rowid = some (e, map')) :
      EventEnd ctx tables after map ev (map', [.send ⟨t, e.ks, e.id, none⟩])
  | created {t : Table} {sh : Shadow D} {row : ShadowRow D}
      (htable : tables.find? (fun t => t.tableAlias = ev.table) = some t)
      (hafter : after.find? (fun sh => sh.name = ev.table) = some sh) (hop : ev.op ≠ .delete)
      (hrow : readRow sh ev.rowid = some row)
      (htake : mapTake map ev.table ev.rowid = none) :
      EventEnd ctx tables after map ev
        (mapAddKs map ev.table ev.rowid (putOf ctx t (if t.pw then [] else t.ks) row).id ctx.junk,
          [.send (putOf ctx t (if t.pw then [] else t.ks) row)])
  | changed {t : Table} {sh : Shadow D} {row : ShadowRow D} {e : RowRec} {map' : List RowRec}
      (htable : tables.find? (fun t => t.tableAlias = ev.table) = some t)
      (hafter : after.find? (fun sh => sh.name = ev.table) = some sh) (hop : ev.op ≠ .delete)
      (hrow : readRow sh ev.rowid = some row)
      (htake : mapTake map ev.table ev.rowid = some (e, map')) :
      EventEnd ctx tables after map ev
        (mapAddKs map' ev.table ev.rowid (putOf ctx t e.ks row).id e.ks,
          if e.id ≠ (putOf ctx t e.ks row).id then
            [.send ⟨t, e.ks, e.id, none⟩, .send (putOf ctx t e.ks row)]
          else [.send (putOf ctx t e.ks row)])

theorem planEvent_end (tables : List Table) (after : List (Shadow D)) (map : List RowRec)
    (ev : Event) : EventEnd ctx tables after map ev (planEvent ctx tables after map ev) := by
  rw [planEvent]
  cases htable : tables.find? fun t => t.tableAlias = ev.table with
  | none => exact .ignored
  | some t =>
    cases hafter : after.find? fun sh => sh.name = ev.table with
    | none => exact .ignored
    | some sh =>
      dsimp only
      cases hop : ev.op with
      | delete =>
        dsimp only
        cases htake : mapTake map ev.table ev.rowid with
        | none => exact .unknown htake
        | some q => exact .deleted htable hop htake
      -- an insert and an update are told apart by what is on file alone
      | insert | update =>
        have hne : ev.op ≠ .delete := by simp [hop]
        dsimp only
        cases hrow : readRow sh ev.rowid with
        | none =>
          cases htake : mapTake map ev.table ev.rowid with
          | none => exact .unknown htake
          | some q => exact .stale hne htake
        | some row =>
          cases htake : mapTake map ev.table ev.rowid with
          | none => exact .created htable hafter hne hrow htake
          | some q => exact .changed htable hafter hne hrow htake

/-- A change of a run is one of its events'. -/
theorem mem_planned {tables : List Table} {after : List (Shadow D)} {map : List RowRec}
    {events : List Event} {c : Change D} (hc : c ∈ planned ctx tables after map events) :
    ∃ map', ∃ ev ∈ events,
      c ∈ (planEvent ctx tables after map' ev).2.filterMap Step.change := by
  induction events generalizing map with
  | nil => simp [planned, plan] at hc
  | cons ev events ih =>
    rw [planned, plan, List.filterMap_append, List.mem_append] at hc
    rcases hc with hc | hc
    · exact ⟨map, ev, List.mem_cons_self, hc⟩
    · obtain ⟨map', ev', hev, hc⟩ := ih hc
      exact ⟨map', ev', List.mem_cons_of_mem ev hev, hc⟩

/-- A change goes to the table of its event, and a document it puts is that of the row that is
read back. -/
theorem put_of_planEvent {tables : List Table} {after : List (Shadow D)} {map : List RowRec}
    {ev : Event} {c : Change D}
    (hc : c ∈ (planEvent ctx tables after map ev).2.filterMap Step.change) :
    tables.find? (fun t => t.tableAlias = ev.table) = some c.table ∧
      (c.value.isSome = true → ∃ sh row, after.find? (fun sh => sh.name = ev.table) = some sh ∧
        readRow sh ev.rowid = some row ∧ c = putOf ctx c.table c.ks row) := by
  have hend := planEvent_end ctx tables after map ev
  generalize planEvent ctx tables after map ev = q at hend hc
  cases hend with
  | ignored | unknown | stale => simp [Step.change] at hc
  | deleted htable =>
    simp only [List.filterMap_cons, List.filterMap_nil, Step.change, List.mem_singleton] at hc
    rw [hc]
    exact ⟨htable, fun h => absurd h (by simp)⟩
  | created htable hafter _ hrow =>
    simp only [List.filterMap_cons, List.filterMap_nil, Step.change, List.mem_singleton] at hc
    rw [hc]
    exact ⟨htable, fun _ => ⟨_, _, hafter, hrow, rfl⟩⟩
  | changed htable hafter _ hrow =>
    dsimp only at hc
    -- only a row that has changed its id sends two changes
    split at hc
    · simp only [List.filterMap_cons, List.filterMap_nil, Step.change, List.mem_cons,
        List.not_mem_nil, or_false] at hc
      rcases hc with rfl | rfl
      · exact ⟨htable, fun h => absurd h (by simp)⟩
      · exact ⟨htable, fun _ => ⟨_, _, hafter, hrow, rfl⟩⟩
    · simp only [List.filterMap_cons, List.filterMap_nil, Step.change, List.mem_singleton] at hc
      rw [hc]
      exact ⟨htable, fun _ => ⟨_, _, hafter, hrow, rfl⟩⟩

/-- An insert or an update of a row that is there sends it. -/
theorem putOf_mem_planEvent {tables : List Table} {after : List (Shadow D)} {ev : Event}
    {t : Table} {sh : Shadow D} {row : ShadowRow D}
    (htable : tables.find? (fun t => t.tableAlias = ev.table) = some t)
    (hafter : after.find? (fun sh => sh.name = ev.table) = some sh) (hop : ev.op ≠ .delete)
    (hrow : readRow sh ev.rowid = some row) (map : List RowRec) :
    ∃ ks, putOf ctx t ks row ∈ (planEvent ctx tables after map ev).2.filterMap Step.change := by
  rw [planEvent, htable, hafter]
  dsimp only
  cases hev : ev.op with
  | delete => exact absurd hev hop
  | insert | update =>
    dsimp only
    rw [hrow]
    cases mapTake map ev.table ev.rowid with
    | none => exact ⟨if t.pw then [] else t.ks, by simp [Step.change]⟩
    | some q =>
      refine ⟨q.1.ks, ?_⟩
      dsimp only
      split <;> simp [Step.change]

/-! ## Where the changes go -/

/-- The keyspaces the write-back of a table may name: its own, or any where it names none. A
row the engine reports again after its insert has what an uninitialised buffer held. -/
def Table.reaches (t : Table) (ks : CString) : Prop :=
  t.pw = true ∨ ks = t.ks ∨ ks = snprintf 128 ctx.junk

/-- The row records name keyspaces within the reach of their tables. -/
def RecordsWithin (tables : List Table) (map : List RowRec) : Prop :=
  ∀ e ∈ map, e.ks.length < 128 ∧ ∀ t ∈ tables, t.tableAlias = e.table → t.reaches ctx e.ks

variable {ctx}

theorem mem_of_mapTake {map map' : List RowRec} {table : CString} {rowid : Int} {e : RowRec}
    (h : mapTake map table rowid = some (e, map')) :
    e ∈ map ∧ e.table = table ∧ e.rowid = rowid ∧ map' ⊆ map := by
  induction map generalizing map' with
  | nil => cases h
  | cons x map ih =>
    rw [mapTake] at h
    split at h
    · rename_i r es hr
      obtain ⟨rfl, rfl⟩ := Prod.mk.inj (Option.some.inj h)
      obtain ⟨hmem, htable, hrowid, hsub⟩ := ih hr
      exact ⟨List.mem_cons_of_mem x hmem, htable, hrowid,
        List.cons_subset_cons x hsub⟩
    · split at h
      · rename_i hx
        obtain ⟨rfl, rfl⟩ := Prod.mk.inj (Option.some.inj h)
        exact ⟨List.mem_cons_self, hx.1, hx.2, List.subset_cons_self ..⟩
      · cases h

theorem RecordsWithin.mono {tables : List Table} {map map' : List RowRec}
    (h : RecordsWithin ctx tables map) (hsub : map' ⊆ map) : RecordsWithin ctx tables map' :=
  fun e he => h e (hsub he)

theorem RecordsWithin.add {tables : List Table} {map : List RowRec} {table id ks : CString}
    {rowid : Int} (h : RecordsWithin ctx tables map)
    (hks : ∀ t ∈ tables, t.tableAlias = table → t.reaches ctx (snprintf 128 ks)) :
    RecordsWithin ctx tables (mapAddKs map table rowid id ks) := by
  intro e he
  rcases List.mem_append.mp he with he | he
  · exact h e he
  · rw [List.mem_singleton] at he
    subst he
    exact ⟨length_snprintf_lt (by decide) ks, hks⟩

/-- What an event sends is within the reach of its table, and so are the records after it. -/
theorem planEvent_within {tables : List Table} {map : List RowRec}
    (h : RecordsWithin ctx tables map) (after : List (Shadow D)) (ev : Event) :
    RecordsWithin ctx tables (planEvent ctx tables after map ev).1 ∧
      ∀ st ∈ (planEvent ctx tables after map ev).2, ∀ c ∈ st.change,
        c.table ∈ tables ∧ c.table.reaches ctx c.ks := by
  have hget : ∀ {e map'}, mapTake map ev.table ev.rowid = some (e, map') →
      e.ks.length < 128 ∧ ∀ t ∈ tables, t.tableAlias = ev.table → t.reaches ctx e.ks := by
    intro e map' htake
    obtain ⟨hmem, htable, -, -⟩ := mem_of_mapTake htake
    exact htable ▸ h e hmem
  have hmem : ∀ {t}, tables.find? (fun t => t.tableAlias = ev.table) = some t →
      t ∈ tables ∧ t.tableAlias = ev.table := fun hfind =>
    ⟨List.mem_of_find?_eq_some hfind, by simpa using List.find?_some hfind⟩
  have hend := planEvent_end ctx tables after map ev
  generalize planEvent ctx tables after map ev = q at hend ⊢
  cases hend with
  | ignored => exact ⟨h, by simp⟩
  | unknown => exact ⟨h, by simp [Step.change]⟩
  | stale hop htake => exact ⟨h.mono (mem_of_mapTake htake).2.2.2, by simp [Step.change]⟩
  | deleted htable hop htake =>
    obtain ⟨ht, halias⟩ := hmem htable
    refine ⟨h.mono (mem_of_mapTake htake).2.2.2, ?_⟩
    simp [Step.change, ht, (hget htake).2 _ ht halias]
  | @created t sh row htable hafter hop hrow htake =>
    obtain ⟨ht, halias⟩ := hmem htable
    refine ⟨h.add fun _ _ _ => .inr (.inr rfl), ?_⟩
    -- a new row of a table over one keyspace goes there
    have hreach : t.reaches ctx (if t.pw then [] else t.ks) := by
      cases hpw : t.pw
      · exact .inr (.inl rfl)
      · exact .inl hpw
    simp [Step.change, putOf, ht, hreach]
  | @changed t sh row e map' htable hafter hop hrow htake =>
    obtain ⟨ht, halias⟩ := hmem htable
    obtain ⟨hlen, hreach⟩ := hget htake
    refine ⟨(h.mono (mem_of_mapTake htake).2.2.2).add fun t' ht' halias' => ?_, ?_⟩
    · -- a row on file stays in its keyspace
      rw [snprintf_of_lt hlen]
      exact hreach t' ht' halias'
    · dsimp only
      split <;> simp [Step.change, putOf, ht, hreach t ht halias]

/-- Every change of a run is within the reach of its table. -/
theorem changes_within {tables : List Table} {after : List (Shadow D)} {map : List RowRec}
    (h : RecordsWithin ctx tables map) (events : List Event) :
    ∀ c ∈ planned ctx tables after map events, c.table ∈ tables ∧ c.table.reaches ctx c.ks := by
  induction events generalizing map with
  | nil => simp [planned, plan]
  | cons ev events ih =>
    obtain ⟨hmap, hsteps⟩ := planEvent_within h after ev
    intro c hc
    rw [planned, plan, List.filterMap_append, List.mem_append] at hc
    rcases hc with hc | hc
    · obtain ⟨st, hst, hchange⟩ := List.mem_filterMap.mp hc
      exact hsteps st hst c hchange
    · exact ih hmap c hc

/-! ## The tables of a statement -/

omit [Doubles D] in
theorem bare_withColumns (t : Table) (docs : List (Fetched D)) : (withColumns t docs).bare = t.bare := by
  rw [withColumns]
  induction docs generalizing t with
  | nil => rfl
  | cons f docs ih => exact ih _

/-- The tables of a statement are those of its references, with columns added. -/
theorem addsColumns_statementTables (sql : CString) :
    AddsColumns ((collectRefs sql).map fun t => { t with cols := [(cstr "id", false)] })
      (statementTables sql) := by
  rw [statementTables]
  split
  · exact addsColumns_scanInsertFrom ..
  · exact addsColumns_scanUpdateFrom ..
  · exact .refl _

/-- The tables of a statement are its references. -/
theorem map_bare_statementTables (sql : CString) :
    (statementTables sql).map Table.bare = collectRefs sql := by
  rw [(addsColumns_statementTables sql).map_bare, List.map_map]
  exact (List.map_congr_left fun t ht => (collected_collectRefs sql).bare ht).trans
    (List.map_id _)

/-- One more table of a materialisation. -/
theorem materializeNext_eq_some {s : σ} {m m' : Materialized D} {t : Table}
    (h : materializeNext ctx s m t = some m') :
    ∃ text, createSql (withColumns t (fetchDocs ctx.backend s t)) = some text ∧
      ctx.sqlite.creates text = true ∧
      m' = ⟨m.tables ++ [withColumns t (fetchDocs ctx.backend s t)],
        m.shadows ++ [(materialize ctx.codec (withColumns t (fetchDocs ctx.backend s t))
          (fetchDocs ctx.backend s t) m.map).1],
        (materialize ctx.codec (withColumns t (fetchDocs ctx.backend s t))
          (fetchDocs ctx.backend s t) m.map).2⟩ := by
  simp only [materializeNext] at h
  split at h
  · cases h
  · rename_i text htext
    split at h
    · exact ⟨text, htext, ‹_›, (Option.some.inj h).symm⟩
    · cases h

/-- The row records come after those that are there, and do not depend on them. -/
theorem foldl_insertDoc (codec : Codec D) (t : Table) (docs : List (Fetched D))
    (rows : List (ShadowRow D)) (map : List RowRec) :
    docs.foldl (insertDoc codec t) (rows, map) =
      ((docs.foldl (insertDoc codec t) (rows, [])).1,
        map ++ (docs.foldl (insertDoc codec t) (rows, [])).2) := by
  induction docs using List.reverseRecOn with
  | nil => simp
  | append_singleton docs f ih =>
    rw [List.foldl_concat, List.foldl_concat, ih]
    simp [insertDoc, mapAddKs]

variable (ctx) in
/-- The table of a reference. -/
def tableOf (s : σ) (t : Table) : Table := withColumns t (fetchDocs ctx.backend s t)

variable (ctx) in
theorem bare_tableOf (s : σ) (t : Table) : (tableOf ctx s t).bare = t.bare :=
  bare_withColumns t (fetchDocs ctx.backend s t)

@[simp] theorem part_tableOf (s : σ) (t : Table) : (tableOf ctx s t).part = t.part := by
  have hbare := congrArg Table.part (bare_tableOf ctx s t)
  exact hbare

@[simp] theorem tableAlias_tableOf (s : σ) (t : Table) :
    (tableOf ctx s t).tableAlias = t.tableAlias := by
  have hbare := congrArg Table.tableAlias (bare_tableOf ctx s t)
  exact hbare

variable (ctx) in
/-- The shadow table of a reference. -/
def shadowOf (s : σ) (t : Table) : Shadow D :=
  (materialize ctx.codec (tableOf ctx s t) (fetchDocs ctx.backend s t) []).1

variable (ctx) in
/-- The row records of a reference. -/
def recordsOf (s : σ) (t : Table) : List RowRec :=
  (materialize ctx.codec (tableOf ctx s t) (fetchDocs ctx.backend s t) []).2

/-- The records of a reference carry its alias and name the keyspaces of its documents. -/
theorem mem_recordsOf {s : σ} {t : Table} {e : RowRec} (he : e ∈ recordsOf ctx s t) :
    e.table = t.tableAlias ∧ ∃ f ∈ fetchDocs ctx.backend s t, e.ks = snprintf 128 f.ks := by
  have hfold : ∀ docs : List (Fetched D),
      e ∈ (docs.foldl (insertDoc ctx.codec (tableOf ctx s t)) ([], [])).2 →
      e.table = t.tableAlias ∧ ∃ f ∈ docs, e.ks = snprintf 128 f.ks := by
    intro docs
    induction docs using List.reverseRecOn with
    | nil => exact fun h => absurd h List.not_mem_nil
    | append_singleton docs f ih =>
      intro h
      rw [List.foldl_concat] at h
      rcases List.mem_append.mp h with h | h
      · obtain ⟨htable, g, hg, hks⟩ := ih h
        exact ⟨htable, g, List.mem_append_left _ hg, hks⟩
      · rw [List.mem_singleton] at h
        subst h
        exact ⟨tableAlias_tableOf s t, f, by simp, rfl⟩
  exact hfold _ he

/-- The documents of a table belong to keyspaces within its reach. -/
theorem reaches_of_mem_fetchDocs {s : σ} {t : Table} {f : Fetched D}
    (hf : f ∈ fetchDocs ctx.backend s t) : t.reaches ctx f.ks := by
  rw [fetchDocs] at hf
  split at hf
  · exact .inl ‹_›
  · obtain ⟨r, -, rfl⟩ := List.mem_map.mp hf
    exact .inr (.inl rfl)

theorem name_shadowOf (s : σ) (t : Table) : (shadowOf ctx s t).name = t.tableAlias :=
  tableAlias_tableOf s t

/-- A row is that of a document. -/
def IsRowOf (codec : Codec D) (t : Table) (f : Fetched D) (row : ShadowRow D) : Prop :=
  row.id = .text f.id ∧ row.values = docValues codec t.names f.doc

/-- Every row of a shadow table is that of a document. -/
theorem exists_isRowOf {s : σ} {t : Table} {row : ShadowRow D}
    (hrow : row ∈ (shadowOf ctx s t).rows) :
    ∃ f ∈ fetchDocs ctx.backend s t, IsRowOf ctx.codec (tableOf ctx s t) f row := by
  have hfold : ∀ docs : List (Fetched D),
      row ∈ (docs.foldl (insertDoc ctx.codec (tableOf ctx s t)) ([], [])).1 →
      ∃ f ∈ docs, IsRowOf ctx.codec (tableOf ctx s t) f row := by
    intro docs
    induction docs using List.reverseRecOn with
    | nil => exact fun h => absurd h List.not_mem_nil
    | append_singleton docs f ih =>
      intro h
      rw [List.foldl_concat] at h
      rcases List.mem_append.mp h with h | h
      · obtain ⟨g, hg, hrow⟩ := ih (List.mem_filter.mp h).1
        exact ⟨g, List.mem_append_left _ hg, hrow⟩
      · rw [List.mem_singleton] at h
        subst h
        exact ⟨f, by simp, rfl, rfl⟩
  exact hfold _ hrow

/-- What a materialisation of references makes. -/
structure Materialized.Of (ctx : Ctx σ D) (s : σ) (refs : List Table) (m : Materialized D) :
    Prop where
  tables : m.tables = refs.map (tableOf ctx s)
  shadows : m.shadows = refs.map (shadowOf ctx s)
  map : m.map = refs.flatMap (recordsOf ctx s)

theorem Materialized.of_materializeAll {s : σ} {refs : List Table} {m : Materialized D}
    (h : materializeAll ctx s refs = some m) : Materialized.Of ctx s refs m := by
  rw [materializeAll] at h
  induction refs using List.reverseRecOn generalizing m with
  | nil =>
    obtain rfl := Option.some.inj h
    exact ⟨rfl, rfl, rfl⟩
  | append_singleton refs t ih =>
    rw [List.foldlM_append] at h
    obtain ⟨m₀, h₀, h⟩ := Option.bind_eq_some_iff.mp h
    obtain ⟨m₁, h₁, h⟩ := Option.bind_eq_some_iff.mp h
    obtain rfl := Option.some.inj h
    obtain ⟨htables, hshadows, hmap⟩ := ih h₀
    obtain ⟨text, -, -, rfl⟩ := materializeNext_eq_some h₁
    refine ⟨by simp [htables, tableOf], ?_, ?_⟩
    · simp [hshadows, shadowOf, tableOf, materialize, foldl_insertDoc _ _ _ _ m₀.map]
    · simp [hmap, recordsOf, tableOf, materialize, foldl_insertDoc _ _ _ _ (List.flatMap _ _)]

/-- The tables of a materialisation are the references of the statement. -/
theorem Materialized.Of.map_bare {s : σ} {sql : CString} {m : Materialized D}
    (h : m.Of ctx s (statementTables sql)) : m.tables.map Table.bare = collectRefs sql := by
  rw [h.tables, List.map_map, ← map_bare_statementTables]
  exact List.map_congr_left fun t _ => bare_tableOf ctx s t

theorem reaches_bare {t : Table} {ks : CString} : t.bare.reaches ctx ks ↔ t.reaches ctx ks := Iff.rfl

/-- The records of a statement's tables are within their reach. -/
theorem Materialized.Of.within {s : σ} {sql : CString} {m : Materialized D}
    (h : m.Of ctx s (statementTables sql)) : RecordsWithin ctx m.tables m.map := by
  have hcol := collected_collectRefs sql
  have hmem : ∀ t ∈ m.tables, t.bare ∈ collectRefs sql := fun t ht =>
    h.map_bare ▸ List.mem_map_of_mem ht
  have hmem' : ∀ t ∈ statementTables sql, t.bare ∈ collectRefs sql := fun t ht =>
    map_bare_statementTables sql ▸ List.mem_map_of_mem ht
  intro e he
  obtain ⟨t₀, ht₀, he⟩ := List.mem_flatMap.mp (h.map ▸ he)
  obtain ⟨htable, f, hf, hks⟩ := mem_recordsOf he
  refine ⟨hks ▸ length_snprintf_lt (by decide) _, fun t ht halias => ?_⟩
  -- the table of the record is the one with its alias
  have hbare : t.bare = t₀.bare :=
    hcol.eq_of_alias (hmem t ht) (hmem' t₀ ht₀) (halias.trans htable)
  rw [← reaches_bare, hbare, reaches_bare, hks]
  rcases reaches_of_mem_fetchDocs hf with hpw | hown | hjunk
  · exact .inl hpw
  · have hlen : t₀.bare.ks.length < 128 := hcol.ks_length (hmem' t₀ ht₀)
    refine .inr (.inl ?_)
    rw [hown]
    exact snprintf_of_lt hlen
  · refine .inr (.inr ?_)
    rw [hjunk]
    exact snprintf_of_lt (length_snprintf_lt (by decide) _)

/-! ## The plan of a statement -/

variable (ctx) in
/-- An answer, or the steps of the write-back. -/
def statementPlan (sql : CString) (groups : UInt64) (trusted : Bool) (s : σ) :
    Except (Result D) (List (Step D)) :=
  match refusal ctx sql groups trusted s with
  | some r => .error r
  | none =>
    match materializeAll ctx s (statementTables sql) with
    | none => .error (500, none)
    | some m =>
      match prepareStatement ctx sql m.shadows with
      | .error body => .error (400, body)
      | .ok p =>
        let run := p.run m.shadows
        if !(classifyStatement sql).isDml then .error (selectResult p run)
        else
          let events := trapped m.tables run.events
          match commits run events with
          | .error msg => .error (400, errorResponse msg)
          | .ok () => .ok (plan ctx m.tables run.after m.map events)

variable (ctx) in
/-- The changes a statement sends. -/
def statementChanges (sql : CString) (groups : UInt64) (trusted : Bool) (s : σ) :
    List (Change D) :=
  match statementPlan ctx sql groups trusted s with
  | .error _ => []
  | .ok steps => steps.filterMap Step.change

/-- The execution is its plan, carried out. -/
theorem edbEqlExecute_eq (sql : CString) (groups : UInt64) (trusted : Bool) (s : σ) :
    edbEqlExecute ctx sql groups trusted s =
      match statementPlan ctx sql groups trusted s with
      | .error r => (r, s)
      | .ok steps =>
        let r := steps.foldl (Replay.take ctx) ⟨[], [], [], s⟩
        (dmlResult (classifyStatement sql) r.applied r.failed, r.state) := by
  rw [edbEqlExecute, statementPlan]
  cases refusal ctx sql groups trusted s with
  | some r => rfl
  | none =>
    dsimp only
    cases materializeAll ctx s (statementTables sql) with
    | none => rfl
    | some m =>
      dsimp only
      cases prepareStatement ctx sql m.shadows with
      | error body => rfl
      | ok p =>
        dsimp only
        by_cases hdml : (!(classifyStatement sql).isDml) = true
        · rw [if_pos hdml, if_pos hdml]
        · rw [if_neg hdml, if_neg hdml]
          cases commits (p.run m.shadows) (trapped m.tables (p.run m.shadows).events) with
          | error msg => rfl
          -- the events are replayed from their plan, with the records on file beside it
          | ok u =>
            obtain ⟨map, hr⟩ := processEvents_eq ctx m.tables (p.run m.shadows).after m.map
              (trapped m.tables (p.run m.shadows).events) s
            dsimp only
            rw [hr, foldl_take_map ctx _ ⟨[], [], [], s⟩ m.map]

/-- What a statement that is carried out went through. -/
structure Carried (ctx : Ctx σ D) (sql : CString) (groups : UInt64) (trusted : Bool) (s : σ)
    (m : Materialized D) (p : Prepared D) : Prop where
  allowed : refusal ctx sql groups trusted s = none
  tables : materializeAll ctx s (statementTables sql) = some m
  prepared : prepareStatement ctx sql m.shadows = .ok p
  isDml : (classifyStatement sql).isDml = true
  commits : commits (p.run m.shadows) (trapped m.tables (p.run m.shadows).events) = .ok ()

theorem statementPlan_eq_ok {sql : CString} {groups : UInt64} {trusted : Bool} {s : σ}
    {steps : List (Step D)} (h : statementPlan ctx sql groups trusted s = .ok steps) :
    ∃ m p, Carried ctx sql groups trusted s m p ∧
      steps = plan ctx m.tables (p.run m.shadows).after m.map
        (trapped m.tables (p.run m.shadows).events) := by
  rw [statementPlan] at h
  split at h
  · cases h
  · rename_i hallowed
    split at h
    · cases h
    · rename_i m hm
      split at h
      · cases h
      · rename_i p hp
        dsimp only at h
        split at h
        · cases h
        · rename_i hdml
          split at h
          · cases h
          · rename_i hc
            refine ⟨m, p, ⟨hallowed, hm, hp, by simpa using hdml, hc⟩, ?_⟩
            exact (Except.ok.inj h).symm

/-- Every change of a statement goes to a shard one of its references reaches. -/
theorem statementChanges_within {sql : CString} {groups : UInt64} {trusted : Bool} {s : σ}
    {c : Change D} (hc : c ∈ statementChanges ctx sql groups trusted s) :
    c.table.bare ∈ collectRefs sql ∧ c.table.reaches ctx c.ks := by
  rw [statementChanges] at hc
  cases hplan : statementPlan ctx sql groups trusted s with
  | error r =>
    rw [hplan] at hc
    cases hc
  | ok steps =>
    rw [hplan] at hc
    obtain ⟨m, p, hcarried, rfl⟩ := statementPlan_eq_ok hplan
    have hof := Materialized.of_materializeAll hcarried.tables
    obtain ⟨hmem, hreach⟩ := changes_within hof.within _ c hc
    exact ⟨hof.map_bare ▸ List.mem_map_of_mem hmem, hreach⟩

end EpsilonDB.Eql
