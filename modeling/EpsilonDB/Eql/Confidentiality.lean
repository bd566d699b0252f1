import EpsilonDB.Api.Isolation
import EpsilonDB.Eql.Landing
import EpsilonDB.Lib.Keys

/-!
# What a statement tells about a partition its caller may not read

The permission of a statement follows from its first word, and it is asked of every reference
alike: an INSERT that selects from a partition needs CREATE there, and no READ.

- `recordsAt`: the row records of one shadow table, all that its events look at.
- `othersOnly`: the changes that come to other partitions.
- `plan_alike`: two write-backs that agree but for the tables of one partition send the same
  changes to the others.
- `DifferOnlyIn`: two stores with the same records outside one partition.
- `Contained`: what a statement writes back stays in the partitions it names, and runs no code.
- `Undisturbed`: a statement returns the same rows over both, sends other partitions the same
  changes and leaves their shards the same.
- `undisturbed_iff`: whatever the database engine, that is so where the statement references
  nothing else, or is shown the same tables.
- `insert_select_copies_secret`: an INSERT … SELECT copies what its caller may not read.
-/

namespace EpsilonDB.Eql

variable {σ D : Type} [Doubles D]

/-! ## Row records of one table -/

/-- The row records of one shadow table. -/
def recordsAt (table : CString) (map : List RowRec) : List RowRec :=
  map.filter fun e => e.table = table

theorem mapTake_recordsAt (map : List RowRec) (table : CString) (rowid : Int) :
    mapTake (recordsAt table map) table rowid =
      (mapTake map table rowid).map fun q => (q.1, recordsAt table q.2) := by
  induction map with
  | nil => rfl
  | cons e map ih =>
    by_cases he : e.table = table
    · have hcons : recordsAt table (e :: map) = e :: recordsAt table map :=
        List.filter_cons_of_pos (by simpa using he)
      rw [hcons, mapTake, mapTake, ih]
      cases mapTake map table rowid with
      | some q =>
        simp only [Option.map_some]
        rw [show recordsAt table (e :: q.2) = e :: recordsAt table q.2 from
          List.filter_cons_of_pos (by simpa using he)]
      | none =>
        simp only [Option.map_none]
        split <;> rfl
    · have hcons : ∀ m, recordsAt table (e :: m) = recordsAt table m := fun m =>
        List.filter_cons_of_neg (by simpa using he)
      rw [hcons, mapTake, ih]
      cases mapTake map table rowid with
      | some q => simp only [Option.map_some, hcons]
      | none =>
        have hneg : ¬ (e.table = table ∧ e.rowid = rowid) := fun h => he h.1
        simp only [Option.map_none, if_neg hneg]

/-- Taking a record leaves those of other tables. -/
theorem recordsAt_of_mapTake {map map' : List RowRec} {table other : CString} {rowid : Int}
    {e : RowRec} (h : mapTake map table rowid = some (e, map')) (hne : other ≠ table) :
    recordsAt other map' = recordsAt other map := by
  induction map generalizing map' with
  | nil => cases h
  | cons x map ih =>
    rw [mapTake] at h
    split at h
    · rename_i r es hr
      obtain ⟨rfl, rfl⟩ := Prod.mk.inj (Option.some.inj h)
      have hrest := ih hr
      rw [recordsAt, List.filter_cons, ← recordsAt, hrest, recordsAt, recordsAt, List.filter_cons]
    · split at h
      · rename_i hx
        obtain ⟨rfl, rfl⟩ := Prod.mk.inj (Option.some.inj h)
        exact (List.filter_cons_of_neg (by simpa [hx.1] using hne.symm)).symm
      · cases h

theorem recordsAt_mapAddKs (map : List RowRec) (table other id ks : CString) (rowid : Int) :
    recordsAt other (mapAddKs map table rowid id ks) =
      recordsAt other map ++
        if table = other then [⟨table, rowid, snprintf 512 id, snprintf 128 ks⟩] else [] := by
  rw [recordsAt, mapAddKs, List.filter_append, ← recordsAt]
  congr 1
  by_cases h : table = other
  · rw [if_pos h]
    exact List.filter_cons_of_pos (by simpa using h)
  · rw [if_neg h]
    exact List.filter_cons_of_neg (by simpa using h)

/-! ## Events of one table -/

variable {ctx : Ctx σ D}

/-- An event leaves the records of other tables. -/
theorem recordsAt_planEvent (tables : List Table) (after : List (Shadow D)) (map : List RowRec)
    (ev : Event) {other : CString} (hne : other ≠ ev.table) :
    recordsAt other (planEvent ctx tables after map ev).1 = recordsAt other map := by
  have hadd : ∀ m id ks, recordsAt other (mapAddKs m ev.table ev.rowid id ks) = recordsAt other m := by
    intro m id ks
    rw [recordsAt_mapAddKs, if_neg hne.symm, List.append_nil]
  have hend := planEvent_end ctx tables after map ev
  generalize planEvent ctx tables after map ev = q at hend ⊢
  cases hend with
  | ignored | unknown => rfl
  | stale hop htake => exact recordsAt_of_mapTake htake hne
  | deleted htable hop htake => exact recordsAt_of_mapTake htake hne
  | created => exact hadd _ _ _
  | changed htable hafter hop hrow htake =>
    exact (hadd _ _ _).trans (recordsAt_of_mapTake htake hne)

variable (ctx) in
/-- The steps of an event, and what it leaves of its table's records, depend on its table and
on these records. -/
theorem planEvent_congr {tables tables' : List Table} (after : List (Shadow D))
    {map map' : List RowRec} (ev : Event)
    (htable : tables.find? (fun t => t.tableAlias = ev.table) =
      tables'.find? fun t => t.tableAlias = ev.table)
    (hmap : recordsAt ev.table map = recordsAt ev.table map') :
    (planEvent ctx tables after map ev).2 = (planEvent ctx tables' after map' ev).2 ∧
      recordsAt ev.table (planEvent ctx tables after map ev).1 =
        recordsAt ev.table (planEvent ctx tables' after map' ev).1 := by
  have htake := mapTake_recordsAt map ev.table ev.rowid
  rw [hmap, mapTake_recordsAt] at htake
  rw [planEvent, planEvent, htable]
  revert htake
  -- all that the event does depends on the table and on what is on file for its row
  generalize mapTake map ev.table ev.rowid = q
  generalize mapTake map' ev.table ev.rowid = q'
  intro htake
  cases tables'.find? fun t => t.tableAlias = ev.table with
  | none => exact ⟨rfl, hmap⟩
  | some t =>
    cases after.find? fun sh => sh.name = ev.table with
    | none => exact ⟨rfl, hmap⟩
    | some sh =>
      cases q with
      | none =>
        cases q' with
        -- the same row cannot be on file in one and not in the other
        | some q' => cases htake
        | none =>
          cases ev.op with
          | delete => exact ⟨rfl, hmap⟩
          | insert | update =>
            dsimp only
            cases readRow sh ev.rowid with
            | none => exact ⟨rfl, hmap⟩
            | some row => exact ⟨rfl, by simp only [recordsAt_mapAddKs, hmap]⟩
      | some q =>
        cases q' with
        | none => cases htake
        | some q' =>
          obtain ⟨e, m⟩ := q
          obtain ⟨e', m'⟩ := q'
          obtain ⟨rfl, hrest⟩ : e' = e ∧ recordsAt ev.table m' = recordsAt ev.table m := by
            simpa using htake
          cases ev.op with
          | delete => exact ⟨rfl, hrest.symm⟩
          | insert | update =>
            dsimp only
            cases readRow sh ev.rowid with
            | none => exact ⟨rfl, hrest.symm⟩
            | some row => exact ⟨rfl, by simp only [recordsAt_mapAddKs, hrest]⟩

/-! ## Write-backs that agree off a partition -/

/-- The changes that come to other partitions. -/
def othersOnly (B : Backend σ D) (part : CString) (cs : List (Change D)) : List (Change D) :=
  cs.filter fun c => c.partition B ≠ part

/-- The changes for the tables of other partitions. -/
def meantForOthers (part : CString) (cs : List (Change D)) : List (Change D) :=
  cs.filter fun c => c.table.part ≠ part

omit [Doubles D] in
/-- Where every change stays in the partition of its table, it is the same. -/
theorem othersOnly_eq {B : Backend σ D} {part : CString} {cs : List (Change D)}
    (h : ∀ c ∈ cs, c.partition B = c.table.part) :
    othersOnly B part cs = meantForOthers part cs :=
  List.filter_congr fun c hc => by rw [h c hc]

/-- The alias is that of a table of the partition. -/
def Hidden (part : CString) (tables : List Table) (table : CString) : Prop :=
  ∃ t, tables.find? (fun t => t.tableAlias = table) = some t ∧ t.part = part

/-- The events of a hidden table change no other partition. -/
theorem meantForOthers_planEvent {part : CString} {tables : List Table} {ev : Event}
    (h : Hidden part tables ev.table) (after : List (Shadow D)) (map : List RowRec) :
    meantForOthers part ((planEvent ctx tables after map ev).2.filterMap Step.change) = [] := by
  obtain ⟨t, htable, hpart⟩ := h
  refine List.filter_eq_nil_iff.mpr fun c hc => ?_
  have ht : t = c.table := Option.some.inj (htable.symm.trans (put_of_planEvent ctx hc).1)
  simp [← ht, hpart]

theorem planned_singleton (tables : List Table) (after : List (Shadow D)) (map : List RowRec)
    (ev : Event) :
    planned ctx tables after map [ev] =
      (planEvent ctx tables after map ev).2.filterMap Step.change := by
  rw [planned, plan]
  simp [plan]

/-- Two write-backs that agree but for the tables of a partition send the others the same
changes. -/
theorem plan_alike {part : CString} {tables tables' : List Table} (after : List (Shadow D))
    (htables : ∀ a, ¬ Hidden part tables a →
      tables.find? (fun t => t.tableAlias = a) = tables'.find? fun t => t.tableAlias = a)
    (hhidden : ∀ a, Hidden part tables a → Hidden part tables' a) (events : List Event)
    {map map' : List RowRec}
    (hmap : ∀ a, ¬ Hidden part tables a → recordsAt a map = recordsAt a map') :
    meantForOthers part (planned ctx tables after map events) =
      meantForOthers part (planned ctx tables' after map' events) := by
  induction events generalizing map map' with
  | nil => rfl
  | cons ev events ih =>
    have hother : ∀ a, ¬ Hidden part tables a → a ≠ ev.table →
        recordsAt a (planEvent ctx tables after map ev).1 =
          recordsAt a (planEvent ctx tables' after map' ev).1 := fun a ha hne => by
      rw [recordsAt_planEvent _ _ _ _ hne, recordsAt_planEvent _ _ _ _ hne, hmap a ha]
    have hsplit : ∀ ts m, meantForOthers part (planned ctx ts after m (ev :: events)) =
        meantForOthers part ((planEvent ctx ts after m ev).2.filterMap Step.change) ++
          meantForOthers part (planned ctx ts after (planEvent ctx ts after m ev).1 events) := by
      intro ts m
      rw [planned, plan, List.filterMap_append, meantForOthers, List.filter_append]
      rfl
    rw [hsplit, hsplit]
    -- an event of a hidden table sends nothing elsewhere
    by_cases h : Hidden part tables ev.table
    · rw [meantForOthers_planEvent h, meantForOthers_planEvent (hhidden _ h)]
      exact ih fun a ha => hother a ha fun ha' => ha (ha' ▸ h)
    · -- another one is planned alike
      obtain ⟨hsteps, hrecords⟩ := planEvent_congr ctx after ev (htables _ h) (hmap _ h)
      rw [hsteps]
      congr 1
      refine ih fun a ha => ?_
      by_cases ha' : a = ev.table
      · rw [ha']
        exact hrecords
      · exact hother a ha ha'

/-! ## Two stores -/

/-- The keys that only this partition's records are under. -/
def partitionOnlyKeys (B : Backend σ D) (part : CString) : Set CString :=
  { key | key ∉ registryKeys B ∧ ∀ p ks, p ≠ part → B.shardKey p ks ≠ key }

/-- The stores differ in the records of one partition only. -/
def DifferOnlyIn (B : Backend σ D) (part : CString) (s s' : σ) : Prop :=
  AgreeOff B.view (partitionOnlyKeys B part) s s'

section TwoStores

variable {part : CString} {s s' : σ}

omit [Doubles D] in
theorem disjoint_partitionOnlyKeys (B : Backend σ D) (part : CString) :
    Disjoint (registryKeys B) (partitionOnlyKeys B part) :=
  Set.disjoint_left.mpr fun _ hkey h => h.1 hkey

theorem DifferOnlyIn.sameDecisions {B : Backend σ D} (h : DifferOnlyIn B part s s') :
    SameDecisions B s s' :=
  .of_agreeOff (disjoint_partitionOnlyKeys B part) h

/-- The references to other partitions have the same documents. -/
theorem DifferOnlyIn.fetchDocs_eq (h : DifferOnlyIn ctx.backend part s s') {t : Table}
    (ht : t.part ≠ part) : fetchDocs ctx.backend s t = fetchDocs ctx.backend s' t :=
  fetchDocs_congr (fun ks _ hkey => hkey.2 t.part ks ht rfl) h.sameDecisions h

theorem find?_tables {m : Materialized D} {refs : List Table} (hof : m.Of ctx s refs)
    (a : CString) :
    m.tables.find? (fun t => t.tableAlias = a) =
      (refs.find? fun t => t.tableAlias = a).map (tableOf ctx s) := by
  rw [hof.tables, List.find?_map]
  congr 2
  funext t
  simp

theorem hidden_iff {m : Materialized D} {refs : List Table} (hof : m.Of ctx s refs)
    (a : CString) : Hidden part m.tables a ↔ Hidden part refs a := by
  rw [Hidden, find?_tables hof, Hidden]
  constructor
  · rintro ⟨t', ht', hpart'⟩
    obtain ⟨t, ht, rfl⟩ := Option.map_eq_some_iff.mp ht'
    exact ⟨t, ht, (part_tableOf s t).symm.trans hpart'⟩
  · rintro ⟨t, ht, hpart'⟩
    exact ⟨tableOf ctx s t, by rw [ht]; rfl, (part_tableOf s t).trans hpart'⟩

/-- Two materialisations of the same references. -/
theorem materialized_alike {sql : CString} {m m' : Materialized D}
    (h : DifferOnlyIn ctx.backend part s s') (hof : m.Of ctx s (statementTables sql))
    (hof' : m'.Of ctx s' (statementTables sql)) (a : CString) (ha : ¬ Hidden part m.tables a) :
    m.tables.find? (fun t => t.tableAlias = a) = m'.tables.find? (fun t => t.tableAlias = a) ∧
      recordsAt a m.map = recordsAt a m'.map := by
  have hcol := collected_collectRefs sql
  rw [hidden_iff hof] at ha
  have hpart : ∀ t ∈ statementTables sql, t.tableAlias = a → t.part ≠ part := by
    intro t ht halias hpart
    obtain ⟨t', ht', halias', hfind⟩ := Keys.exists_find? ht halias
    -- a table is known by its alias
    have hbare : t.bare = t'.bare := hcol.eq_of_alias (bare_mem_collectRefs ht)
      (bare_mem_collectRefs ht') (halias.trans halias'.symm)
    exact ha ⟨t', hfind, (congrArg Table.part hbare).symm.trans hpart⟩
  have hdocs : ∀ t ∈ statementTables sql, t.tableAlias = a →
      fetchDocs ctx.backend s t = fetchDocs ctx.backend s' t := fun t ht halias =>
    h.fetchDocs_eq (hpart t ht halias)
  refine ⟨?_, ?_⟩
  · rw [find?_tables hof, find?_tables hof']
    cases hfind : (statementTables sql).find? fun t => t.tableAlias = a with
    | none => rfl
    | some t =>
      have halias : t.tableAlias = a := by simpa using List.find?_some hfind
      simp only [Option.map_some, tableOf, hdocs t (List.mem_of_find?_eq_some hfind) halias]
  · rw [hof.map, hof'.map, recordsAt, recordsAt, List.filter_flatMap, List.filter_flatMap]
    refine List.flatMap_congr fun t ht => ?_
    by_cases halias : t.tableAlias = a
    · rw [recordsOf, recordsOf, tableOf, tableOf, hdocs t ht halias]
    · have hnil : ∀ s, (recordsOf ctx s t).filter (fun e => e.table = a) = [] := fun s =>
        List.filter_eq_nil_iff.mpr fun e he => by
          simpa [(mem_recordsOf he).1] using halias
      rw [hnil, hnil]

end TwoStores

/-! ## What a statement sends -/

/-- The changes of a statement over its materialised tables. -/
def sentFor (ctx : Ctx σ D) (sql : CString) (m : Materialized D) : List (Change D) :=
  match prepareStatement ctx sql m.shadows with
  | .error _ => []
  | .ok p =>
    let run := p.run m.shadows
    let events := trapped m.tables run.events
    if (classifyStatement sql).isDml then
      match commits run events with
      | .error _ => []
      | .ok () => planned ctx m.tables run.after m.map events
    else []

theorem statementChanges_eq {sql : CString} {groups : UInt64} {trusted : Bool} {s : σ}
    (hallowed : refusal ctx sql groups trusted s = none) :
    statementChanges ctx sql groups trusted s =
      match materializeAll ctx s (statementTables sql) with
      | none => []
      | some m => sentFor ctx sql m := by
  rw [statementChanges, statementPlan, hallowed]
  dsimp only
  cases materializeAll ctx s (statementTables sql) with
  | none => rfl
  | some m =>
    dsimp only
    rw [sentFor]
    cases prepareStatement ctx sql m.shadows with
    | error body => rfl
    | ok p =>
      dsimp only
      cases (classifyStatement sql).isDml with
      | false => rfl
      | true =>
        simp only [Bool.not_true, Bool.false_eq_true, if_false, if_true]
        cases commits (p.run m.shadows) (trapped m.tables (p.run m.shadows).events) <;> rfl

/-- A statement that is not refused has its permission on every reference. -/
theorem allowed_of_refusal {sql : CString} {groups : UInt64} {s : σ}
    (hallowed : refusal ctx sql groups false s = none) {t : Table} (ht : t ∈ collectRefs sql) :
    partitionAllows ctx.backend s t.db t.part groups (classifyStatement sql).permission =
      true := by
  simp only [refusal] at hallowed
  split at hallowed
  · cases hallowed
  · split at hallowed
    · cases hallowed
    · split at hallowed
      · cases hallowed
      · split at hallowed
        · cases hallowed
        · rename_i hany
          rw [List.any_eq_true, not_exists] at hany
          simpa [permDenied] using fun h => hany t ⟨ht, h⟩

/-- Only a statement that writes gets by without READ. -/
theorem isDml_of_denied {sql : CString} {groups : UInt64} {s : σ}
    (hallowed : refusal ctx sql groups false s = none) {t : Table} (ht : t ∈ collectRefs sql)
    (hread : partitionAllows ctx.backend s t.db t.part groups .read = false) :
    (classifyStatement sql).isDml = true := by
  have hperm := allowed_of_refusal hallowed ht
  cases hkind : classifyStatement sql with
  | insert | update | delete => rfl
  | select | other =>
    rw [hkind] at hperm
    exact absurd (hread.symm.trans hperm) (by decide)

/-- A run over tables of the other partitions alone is the same over both stores. -/
theorem sentFor_alike {sql part : CString} {s s' : σ} {m m' : Materialized D}
    (h : DifferOnlyIn ctx.backend part s s') (hof : m.Of ctx s (statementTables sql))
    (hof' : m'.Of ctx s' (statementTables sql)) (hshadows : m.shadows = m'.shadows) :
    meantForOthers part (sentFor ctx sql m) = meantForOthers part (sentFor ctx sql m') := by
  have halias : m.tables.map Table.tableAlias = m'.tables.map Table.tableAlias := by
    rw [hof.tables, hof'.tables, List.map_map, List.map_map]
    exact List.map_congr_left fun t _ => by simp
  rw [sentFor, sentFor, ← hshadows]
  cases prepareStatement ctx sql m.shadows with
  | error body => rfl
  | ok p =>
    dsimp only
    rw [trapped, trapped, halias]
    split
    · cases commits _ _ with
      | error msg => rfl
      | ok u =>
        refine plan_alike _ (fun a ha => (materialized_alike h hof hof' a ha).1) (fun a ha => ?_)
          _ (fun a ha => (materialized_alike h hof hof' a ha).2)
        rw [hidden_iff hof']
        rwa [hidden_iff hof] at ha
    · rfl

/-! ## Noninterference -/

/-- The tables an engine is shown. -/
def shown (ctx : Ctx σ D) (sql : CString) (s : σ) : Option (List (Shadow D)) :=
  (materializeAll ctx s (statementTables sql)).map Materialized.shadows

/-- What the statement writes back stays in the partitions of its references, whatever the rows
are, and it runs no code: no node has any for a place of theirs, and neither they nor the registry
write to the shard of the code. -/
structure Contained (ctx : Ctx σ D) (sql : CString) (s : σ) : Prop where
  names : ∀ t ∈ collectRefs sql, ctx.backend.KeepsPartition t.db t.part
  code : (∀ t ∈ collectRefs sql, t.db = systemDb) ∨
    ctx.backend.codeKey ∉ registryKeys ctx.backend ∧ ∀ t ∈ collectRefs sql, ∀ ks,
      ctx.backend.shardKey t.part ks ≠ ctx.backend.codeKey ∧
        (t.reaches ctx ks → ctx.backend.Quiet s t.db t.part ks)

/-- The keys of the shards of other partitions, but for the registry and for what such a shard
shares with this partition. -/
def othersKeys (B : Backend σ D) (part : CString) : Set CString :=
  { key | key ∉ registryKeys B ∧ (∃ p ks, p ≠ part ∧ B.shardKey p ks = key) ∧
      ∀ ks, B.shardKey part ks ≠ key }

/-- The statement returns the same rows over both stores, sends other partitions the same
changes and leaves their shards the same. -/
structure Undisturbed (ctx : Ctx σ D) (sql : CString) (groups : UInt64) (part : CString)
    (s s' : σ) : Prop where
  rows : (classifyStatement sql).isDml = false →
    (edbEqlExecute ctx sql groups false s).1 = (edbEqlExecute ctx sql groups false s').1
  changes : othersOnly ctx.backend part (statementChanges ctx sql groups false s) =
    othersOnly ctx.backend part (statementChanges ctx sql groups false s')
  shards : ∀ key ∈ othersKeys ctx.backend part,
    ctx.backend.view (edbEqlExecute ctx sql groups false s).2 key =
      ctx.backend.view (edbEqlExecute ctx sql groups false s').2 key

section Contained

variable {sql part : CString} {groups : UInt64} {s s' : σ}

omit [Doubles D] in
theorem registryKeys_subset_compl (B : Backend σ D) (part : CString) :
    registryKeys B ⊆ (othersKeys B part)ᶜ := fun _ hkey h => h.1 hkey

/-- Stores that differ in one partition have the same shards of the others. -/
theorem DifferOnlyIn.agreeOff (h : DifferOnlyIn ctx.backend part s s') :
    AgreeOff ctx.backend.view (othersKeys ctx.backend part)ᶜ s s' := by
  intro key hkey
  obtain ⟨-, ⟨p, ks, hp, hkey⟩, -⟩ := not_not.mp hkey
  exact h key fun hpart => hpart.2 p ks hp hkey

/-- No change leaves the partition of its table. -/
theorem Contained.partition (h : Contained ctx sql s) {s₁ : σ} {c : Change D}
    (hc : c ∈ statementChanges ctx sql groups false s₁) :
    c.partition ctx.backend = c.table.part :=
  partition_of_keeps (h.names c.table.bare (statementChanges_within hc).1)

theorem Contained.unattended (h : Contained ctx sql s) (groups : UInt64) :
    Unattended ctx.backend s (statementChanges ctx sql groups false s) := by
  refine h.code.imp (fun hsystem c hc => hsystem c.table.bare (statementChanges_within hc).1)
    fun ⟨hreg, hcode⟩ => ⟨hreg, fun c hc => ?_⟩
  have hwithin := statementChanges_within hc
  have hquiet := hcode c.table.bare hwithin.1
  refine ⟨fun p hp => ?_, (hquiet c.ks).2 hwithin.2⟩
  have hpart : p.partition = c.table.part :=
    (partition_of_place hp).symm.trans (h.partition hc)
  rw [hpart]
  exact (hquiet p.keyspace).1

/-- The other store has the same code. -/
theorem Contained.other (h : Contained ctx sql s) (hdiffer : DifferOnlyIn ctx.backend part s s')
    (hpart : ∃ t ∈ collectRefs sql, t.part = part) : Contained ctx sql s' := by
  refine ⟨h.names, h.code.imp_right fun ⟨hreg, hcode⟩ => ⟨hreg, fun t ht ks => ?_⟩⟩
  obtain ⟨t₀, ht₀, rfl⟩ := hpart
  -- the code is in another partition than the one that differs
  have hview : ctx.backend.view s ctx.backend.codeKey = ctx.backend.view s' ctx.backend.codeKey :=
    hdiffer _ fun hkey => hkey.2 systemDb cfgCode
      (fun heq => (hcode t₀ ht₀ cfgCode).1 (by rw [← heq]; rfl)) rfl
  exact ⟨(hcode t ht ks).1, fun hks => (quiet_congr hview).mp ((hcode t ht ks).2 hks)⟩

/-- Statements that send other partitions the same changes leave their shards the same. -/
theorem shards_alike (h : DifferOnlyIn ctx.backend part s s') (hcontained : Contained ctx sql s)
    (hcontained' : Contained ctx sql s')
    (hsame : othersOnly ctx.backend part (statementChanges ctx sql groups false s) =
      othersOnly ctx.backend part (statementChanges ctx sql groups false s')) :
    ∀ key ∈ othersKeys ctx.backend part,
      ctx.backend.view (edbEqlExecute ctx sql groups false s).2 key =
        ctx.backend.view (edbEqlExecute ctx sql groups false s').2 key := by
  intro key hkey
  rw [edbEqlExecute_snd, edbEqlExecute_snd, sendAll_eq_plain (hcontained.unattended groups),
    sendAll_eq_plain (hcontained'.unattended groups)]
  refine sendAll_alike (registryKeys_subset_compl _ part) hsame (fun c _ hc p hp hothers => ?_)
    h.agreeOff key (not_not.mpr hkey)
  -- a change of this partition touches no shard that is looked at
  have hpart : p.partition = part := by
    rw [← partition_of_place hp]
    simpa using hc
  exact hothers.2.2 p.keyspace (by rw [hpart])

end Contained

/-- The statement that inserts a row into a table when it is shown certain others. -/
def tellingStatement (seen : List (Shadow D)) (table : CString) : Prepared D where
  actions := []
  readonly := false
  tail := []
  columns := []
  run shadows :=
    if shadows = seen then
      ⟨[], .done, [⟨table, [], [⟨0, .null, []⟩]⟩], [⟨table, .insert, 0⟩]⟩
    else ⟨[], .done, [], []⟩

/-- The engine for which every text is this statement. -/
def tellingSqlite (e : Sqlite D) (seen : List (Shadow D)) (table : CString) : Sqlite D where
  creates := e.creates
  prepare _ _ := .ok (tellingStatement seen table)
  authError := e.authError
  realText := e.realText

/-- What it sends tells whether it was shown them. -/
theorem sentFor_telling {sql : CString} {e : Sqlite D} {seen : List (Shadow D)} {table : CString}
    (he : ctx.sqlite = tellingSqlite e seen table) (hdml : (classifyStatement sql).isDml = true)
    (m : Materialized D) :
    sentFor ctx sql m =
      if m.shadows = seen then
        planned ctx m.tables [⟨table, [], [⟨0, .null, []⟩]⟩] m.map
          (trapped m.tables [⟨table, .insert, 0⟩])
      else [] := by
  have hprepare : prepareStatement ctx sql m.shadows = .ok (tellingStatement seen table) := by
    rw [prepareStatement, he]
    rfl
  have hlength : ¬ maxEvents < (trapped m.tables [⟨table, .insert, 0⟩]).length := by
    have hle := List.length_filter_le (fun ev : Event => ev.table ∈ m.tables.map Table.tableAlias)
      [⟨table, .insert, 0⟩]
    exact not_lt.mpr (hle.trans (show 1 ≤ maxEvents by decide))
  rw [sentFor, hprepare]
  dsimp only
  rw [if_pos hdml]
  by_cases hseen : m.shadows = seen
  · have hrun : (tellingStatement seen table).run m.shadows =
        ⟨[], .done, [⟨table, [], [⟨0, .null, []⟩]⟩], [⟨table, .insert, 0⟩]⟩ := if_pos hseen
    rw [hrun, if_pos hseen]
    simp only [commits, if_neg hlength, ne_eq, not_true_eq_false, if_false]
  · have hrun : (tellingStatement seen table).run m.shadows = ⟨[], .done, [], []⟩ := if_neg hseen
    rw [hrun, if_neg hseen]
    rfl

/-- A table of a materialisation is found by its alias. -/
theorem exists_find?_tables {sql : CString} {s : σ} {m : Materialized D}
    (hof : m.Of ctx s (statementTables sql)) {t : Table} (ht : t ∈ collectRefs sql) :
    ∃ t', m.tables.find? (fun t' => t'.tableAlias = t.tableAlias) = some t' ∧ t'.bare = t := by
  obtain ⟨t₀, ht₀, hbare⟩ : ∃ t₀ ∈ m.tables, t₀.bare = t := by
    have hmem : t ∈ m.tables.map Table.bare := hof.map_bare ▸ ht
    exact List.mem_map.mp hmem
  have halias₀ : t₀.tableAlias = t.tableAlias := by
    rw [← hbare]
    rfl
  obtain ⟨t', ht', halias, hfind⟩ := Keys.exists_find? ht₀ halias₀
  have hmem : t'.bare ∈ collectRefs sql := hof.map_bare ▸ List.mem_map_of_mem ht'
  exact ⟨t', hfind, (collected_collectRefs sql).eq_of_alias hmem ht halias⟩

/-- A statement over the telling engine changes another partition where the engine is shown
what it looks for, and nothing elsewhere. -/
theorem meantForOthers_telling {sql part : CString} {groups : UInt64} {s : σ} {e : Sqlite D}
    {t : Table} {seen : List (Shadow D)}
    (he : ctx.sqlite = tellingSqlite e seen t.tableAlias)
    (hallowed : refusal ctx sql groups false s = none)
    (hdml : (classifyStatement sql).isDml = true) (ht : t ∈ collectRefs sql)
    (hpart : t.part ≠ part) :
    meantForOthers part (statementChanges ctx sql groups false s) ≠ [] ↔
      shown ctx sql s = some seen := by
  rw [statementChanges_eq hallowed, shown]
  cases hm : materializeAll ctx s (statementTables sql) with
  | none => simp [meantForOthers]
  | some m =>
    have hof := Materialized.of_materializeAll hm
    simp only [Option.map_some, Option.some.injEq]
    rw [sentFor_telling he hdml]
    by_cases hseen : m.shadows = seen
    · -- the row of the statement goes where the table lies, which is elsewhere
      rw [if_pos hseen]
      refine iff_of_true (fun hnil => ?_) hseen
      obtain ⟨t', hfind, hbare⟩ := exists_find?_tables hof ht
      have hmem : t.tableAlias ∈ m.tables.map Table.tableAlias := by
        have halias : t'.tableAlias = t.tableAlias := by simpa using List.find?_some hfind
        exact halias ▸ List.mem_map_of_mem (List.mem_of_find?_eq_some hfind)
      have htrapped : trapped m.tables [⟨t.tableAlias, .insert, 0⟩] =
          [⟨t.tableAlias, .insert, 0⟩] := List.filter_cons_of_pos (by simpa using hmem)
      obtain ⟨ks, hput⟩ : ∃ ks, putOf ctx t' ks ⟨0, .null, []⟩ ∈
          (planEvent ctx m.tables [⟨t.tableAlias, [], [⟨0, .null, []⟩]⟩] m.map
            ⟨t.tableAlias, .insert, 0⟩).2.filterMap Step.change :=
        putOf_mem_planEvent ctx hfind (List.find?_cons_of_pos (by simp)) (by simp) rfl m.map
      rw [htrapped, planned_singleton] at hnil
      have hpart' : t'.part ≠ part := fun h => hpart (hbare ▸ h)
      exact List.filter_eq_nil_iff.mp hnil _ hput (decide_eq_true hpart')
    · -- for other tables the statement does nothing
      rw [if_neg hseen]
      exact iff_of_false (fun h => h rfl) hseen

/-- **Noninterference.** A caller without READ on a partition runs a statement that is let
through and contained. Whatever the engine makes of it, it is undisturbed by the records of that
partition if and only if it references nothing else, or is shown the same tables over both
stores. -/
theorem undisturbed_iff {sql part : CString} {groups : UInt64} {s s' : σ}
    (h : DifferOnlyIn ctx.backend part s s') (hcontained : Contained ctx sql s)
    (hallowed : refusal ctx sql groups false s = none)
    (hread : ∃ t ∈ collectRefs sql, t.part = part ∧
      partitionAllows ctx.backend s t.db t.part groups .read = false) :
    (∀ e, Undisturbed { ctx with sqlite := e } sql groups part s s') ↔
      (∀ t ∈ collectRefs sql, t.part = part) ∨
        ∀ e, shown { ctx with sqlite := e } sql s = shown { ctx with sqlite := e } sql s' := by
  obtain ⟨t₀, ht₀, hpart₀, hread⟩ := hread
  have hdml := isDml_of_denied hallowed ht₀ hread
  have hcontained' := hcontained.other h ⟨t₀, ht₀, hpart₀⟩
  have hallowed' : refusal ctx sql groups false s' = none := by
    have hdenied : permDenied ctx s = permDenied ctx s' := by
      funext groups trusted perm t
      rw [permDenied, permDenied, h.sameDecisions.partitionAllows]
    rw [← hallowed, refusal, refusal, hdenied]
  -- nothing leaves its partition, so the changes may be looked at by their tables
  have hkept : ∀ e s₁, othersOnly ctx.backend part
      (statementChanges { ctx with sqlite := e } sql groups false s₁) =
        meantForOthers part (statementChanges { ctx with sqlite := e } sql groups false s₁) :=
    fun e s₁ => othersOnly_eq fun c hc =>
      partition_of_keeps (hcontained.names c.table.bare (statementChanges_within hc).1)
  constructor
  · intro hall
    by_contra hcon
    rw [not_or] at hcon
    obtain ⟨hother, hshown⟩ := hcon
    push Not at hother hshown
    obtain ⟨t, ht, hpart⟩ := hother
    obtain ⟨e, hshown⟩ := hshown
    -- the engine that looks for what one of the stores shows it
    have htell : ∀ seen, shown { ctx with sqlite := e } sql s = some seen ↔
        shown { ctx with sqlite := e } sql s' = some seen := fun seen => by
      let telling : Ctx σ D := { ctx with sqlite := tellingSqlite e seen t.tableAlias }
      have hseen : meantForOthers part (statementChanges telling sql groups false s) ≠ [] ↔
          shown telling sql s = some seen := meantForOthers_telling rfl hallowed hdml ht hpart
      have hseen' : meantForOthers part (statementChanges telling sql groups false s') ≠ [] ↔
          shown telling sql s' = some seen := meantForOthers_telling rfl hallowed' hdml ht hpart
      have hsame := (hall (tellingSqlite e seen t.tableAlias)).changes
      rw [show ({ ctx with sqlite := tellingSqlite e seen t.tableAlias } : Ctx σ D).backend =
        ctx.backend from rfl, hkept, hkept] at hsame
      rw [hsame] at hseen
      exact hseen.symm.trans hseen'
    exact hshown (Option.ext fun seen => htell seen)
  · intro hcases e
    have hsame : othersOnly ctx.backend part
        (statementChanges { ctx with sqlite := e } sql groups false s) =
          othersOnly ctx.backend part
            (statementChanges { ctx with sqlite := e } sql groups false s') := by
      rw [hkept, hkept]
      rcases hcases with hone | hshown
      · have hnil : ∀ s, meantForOthers part
            (statementChanges { ctx with sqlite := e } sql groups false s) = [] := fun s =>
          List.filter_eq_nil_iff.mpr fun c hc => by
            have hpart := hone c.table.bare (statementChanges_within hc).1
            exact not_not.mpr hpart ∘ of_decide_eq_true
        rw [hnil, hnil]
      · have hshown := hshown e
        rw [statementChanges_eq (by exact hallowed), statementChanges_eq (by exact hallowed')]
        rw [shown, shown] at hshown
        cases hm : materializeAll { ctx with sqlite := e } s (statementTables sql) with
        | none =>
          rw [hm] at hshown
          rw [Option.map_eq_none_iff.mp hshown.symm]
        | some m =>
          rw [hm] at hshown
          obtain ⟨m', hm', hshadows⟩ := Option.map_eq_some_iff.mp hshown.symm
          rw [hm']
          exact sentFor_alike h (Materialized.of_materializeAll hm)
            (Materialized.of_materializeAll hm') hshadows.symm
    have hwritten : Contained { ctx with sqlite := e } sql s := ⟨hcontained.names, hcontained.code⟩
    have hwritten' : Contained { ctx with sqlite := e } sql s' :=
      ⟨hcontained'.names, hcontained'.code⟩
    exact {
      rows := fun hkind => absurd (hdml.symm.trans hkind) (by decide)
      changes := hsame
      shards := shards_alike h hwritten hwritten' hsame }

section CopiedSecret

/-- Copy the records of one partition to another. -/
def copySecret : CString := cstr "INSERT INTO a.q.k (id, v) SELECT id, v FROM a.p.k"

/-- The statement as the engine compiles it. -/
def copyStatement : Prepared Int where
  actions := [.other, .dml .insert (cstr "eql_t0") none]
  readonly := false
  tail := []
  columns := []
  run shadows :=
    match shadows with
    | [into, source] =>
      ⟨[], .done, [{ into with rows := source.rows }, source],
        source.rows.map fun r => ⟨into.name, .insert, r.rowid⟩⟩
    | _ => ⟨[], .done, [], []⟩

/-- An engine that knows this statement, for an empty table to copy to. -/
def copySqlite : Sqlite Int where
  creates _ := true
  prepare text _ :=
    if text = cstr "INSERT INTO eql_t0 (id, v) SELECT id, v FROM eql_t1" then .ok copyStatement
    else .error (cstr "syntax error")
  authError := cstr "not authorized"
  realText _ := []

def copyHost : Host (CString → Shard) Int :=
  smallHost [note 1, note 2, partitionRecord (cstr "a") (cstr "p") 0 0 2 0] (by decide +kernel)
    copySqlite

/-- The partition `p` is readable for group 2 only. -/
def unreadable : CString → Shard :=
  (edbPartitionCreate copyHost.backend (cstr "a") (cstr "p") 0 0 2 0 fun _ => ∅).2

/-- A store with a secret in it. -/
def secretStore (n : Int) : CString → Shard :=
  (copyHost.backend.write (.put (cstr "a") (cstr "p") (cstr "k") (cstr "r") (note n) (-1))
    unreadable).2

theorem differOnlyIn_secretStore :
    DifferOnlyIn copyHost.backend (cstr "p") (secretStore 1) (secretStore 2) := by
  intro key hkey
  have hne : key ≠ joinedKey (cstr "p") (cstr "k") := by
    rintro rfl
    refine hkey ⟨?_, fun p ks hp heq => hp ?_⟩
    · rintro ⟨ks, hks, heq⟩
      have hall : ∀ ks ∈ [cfgPartitions, cfgKeyspaces],
          joinedKey systemDb ks ≠ joinedKey (cstr "p") (cstr "k") := by decide +kernel
      exact hall ks hks heq
    · have heq : p ++ [58] ++ ks = [112, 58, 107] := heq
      have hp' : cstr "p" = [112] := by decide
      rcases p with _ | ⟨a, _ | ⟨b, _ | ⟨c, p⟩⟩⟩ <;> simp_all
  have hwrite : ∀ n, secretStore n key = unreadable key := fun n => Function.update_of_ne hne _ _
  exact (hwrite 1).trans (hwrite 2).symm

/-- A caller who may not read a partition copies its records to where they may be read. -/
theorem insert_select_copies_secret :
    DifferOnlyIn copyHost.backend (cstr "p") (secretStore 1) (secretStore 2) ∧
      refusal copyHost.ctx copySecret 1 false (secretStore 1) = none ∧
      partitionAllows copyHost.backend (secretStore 1) (cstr "a") (cstr "p") 1 .read = false ∧
      ¬ Undisturbed copyHost.ctx copySecret 1 (cstr "p") (secretStore 1) (secretStore 2) := by
  refine ⟨differOnlyIn_secretStore, ?_, by decide +kernel, fun h => ?_⟩
  · exact Option.isNone_iff_eq_none.mp (by decide +kernel)
  · have htexts := congrArg (List.map fun c => c.value.map Json.text) h.changes
    exact absurd htexts (by decide +kernel)

/-- The records that are deleted. -/
def deleteSecret : CString := cstr "DELETE FROM a.p.k WHERE v > 1"

theorem contained_delete : Contained copyHost.ctx deleteSecret (secretStore 1) := by
  have hnone : (copyHost.ctx.backend.all (secretStore 1) systemDb cfgCode).isEmpty = true := by
    decide +kernel
  refine ⟨fun t _ => keepsPartition_local t.db t.part,
    .inr ⟨codeKey_smallHost copySqlite, fun t ht ks =>
      ⟨?_, fun _ => quiet_smallHost copySqlite hnone _ _ _⟩⟩⟩
  -- the two keys begin with different letters
  have hpart : ∀ t ∈ collectRefs deleteSecret, t.part = cstr "p" := by decide +kernel
  rw [hpart t ht]
  intro hkey
  have hhead : some (112 : UInt8) = some 95 := congrArg List.head? hkey
  exact absurd hhead (by decide)

/-- A caller who may delete the records of a partition deletes them unread. -/
theorem undisturbed_delete :
    Undisturbed copyHost.ctx deleteSecret 1 (cstr "p") (secretStore 1) (secretStore 2) := by
  have hallowed : refusal copyHost.ctx deleteSecret 1 false (secretStore 1) = none :=
    Option.isNone_iff_eq_none.mp (by decide +kernel)
  have hread : ∃ t ∈ collectRefs deleteSecret, t.part = cstr "p" ∧
      partitionAllows copyHost.ctx.backend (secretStore 1) t.db t.part 1 .read = false := by
    decide +kernel
  exact (undisturbed_iff differOnlyIn_secretStore contained_delete hallowed hread).mpr
    (.inl (by decide +kernel)) copySqlite

end CopiedSecret

end EpsilonDB.Eql
