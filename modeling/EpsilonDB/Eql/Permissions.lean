import EpsilonDB.Eql.Confidentiality

/-!
# What a write-back may do, and what its caller may

REST decides per record: a put needs UPDATE where the record exists and CREATE where it does
not, a delete needs DELETE. A statement is let through on the permission of its first word,
before anything is known of the rows it will change. What counts is the record that a change
comes to in the store: spliced into a change text, the names of a statement may be read as others.

- `Change.restPermission`: what REST asks for a change of a record.
- `RestAllows`: REST would let every change of a statement through.
- `eventFits`: an event comes to records that ask REST for nothing but the permission of the
  statement's class, or the caller has what they ask for.
- `restAllows_iff`: REST allows the changes if and only if every event fits, one after the
  other. A DELETE always fits.
- `replace_overwrites`: a REPLACE overwrites a record its caller may not update.
-/

namespace EpsilonDB.Eql

variable {σ D : Type} [Doubles D]

/-- What REST asks for a change of the record, in the store before the statement. -/
def Change.restPermission (B : Backend σ D) (s : σ) (c : Change D) (p : Place) : Permission :=
  match c.value with
  | some _ => if (B.get s p.partition p.keyspace p.id).isSome then .update else .create
  | none => .delete

/-- The change puts a record, or the one it deletes exists. -/
def Change.Effective (B : Backend σ D) (s : σ) (c : Change D) (p : Place) : Prop :=
  c.value.isSome = true ∨ (B.get s p.partition p.keyspace p.id).isSome = true

/-- REST lets the change through at the record it comes to, if it comes to any: under the masks
of that record's names the caller has what REST asks for it. -/
def Change.Allowed (B : Backend σ D) (s : σ) (groups : UInt64) (c : Change D) : Prop :=
  ∀ p ∈ B.place c.write, c.Effective B s p →
    partitionAllows B s p.db p.partition groups (c.restPermission B s p) = true

/-- REST would let every change of the statement through, each judged by the record that it
overwrites, deletes or creates. -/
def RestAllows (ctx : Ctx σ D) (sql : CString) (groups : UInt64) (s : σ) : Prop :=
  ∀ c ∈ statementChanges ctx sql groups false s, c.Allowed ctx.backend s groups

/-- SQLite reports row changes of the one class the authorizer let through. -/
def Sqlite.ReportsAllowed (e : Sqlite D) : Prop :=
  ∀ text tables p op, e.prepare text tables = .ok p →
    p.actions.all (denyAuthorizer (tables.map Prod.fst) op) = true →
    ∀ shadows, ∀ ev ∈ (p.run shadows).events, ev.table ∈ tables.map Prod.fst → some ev.op = op

section Events

variable (ctx : Ctx σ D) (s : σ) (groups : UInt64) (kind : Kind)

/-- The record that a put comes to is one of the table's own partition and asks for the permission
of the class, or the caller has what it asks for. -/
def putFits (c : Change D) : Bool :=
  match ctx.backend.place c.write with
  | none => true
  | some p =>
    (p.db = c.table.db && p.partition = c.table.part &&
        c.restPermission ctx.backend s p = kind.permission) ||
      partitionAllows ctx.backend s p.db p.partition groups (c.restPermission ctx.backend s p)

/-- There is no record that a delete comes to, or the caller may delete it. -/
def deleteFits (c : Change D) : Bool :=
  match ctx.backend.place c.write with
  | none => true
  | some p => !(ctx.backend.get s p.partition p.keyspace p.id).isSome ||
      partitionAllows ctx.backend s p.db p.partition groups .delete

/-- An event fits the class: its row is put where no other permission is needed, and leaves no
record behind that the caller may not delete. -/
def eventFits (tables : List Table) (after : List (Shadow D)) (map : List RowRec)
    (ev : Event) : Bool :=
  match tables.find? fun t => t.tableAlias = ev.table, after.find? fun sh => sh.name = ev.table with
  | some t, some sh =>
    match ev.op with
    | .delete => true
    | .insert | .update =>
      match readRow sh ev.rowid, mapTake map ev.table ev.rowid with
      | none, _ => true
      | some row, none => putFits ctx s groups kind (putOf ctx t (if t.pw then [] else t.ks) row)
      | some row, some (e, _) =>
        putFits ctx s groups kind (putOf ctx t e.ks row) &&
          (e.id = snprintf 512 (columnText ctx row.id) ||
            deleteFits ctx s groups ⟨t, e.ks, e.id, none⟩)
  | _, _ => true

/-- The events fit one after the other, each with the row records the ones before it left. -/
def eventsFit (tables : List Table) (after : List (Shadow D)) : List RowRec → List Event → Bool
  | _, [] => true
  | map, ev :: events =>
    eventFits ctx s groups kind tables after map ev &&
      eventsFit tables after (planEvent ctx tables after map ev).1 events

variable {ctx s groups kind}

/-- The put of a row is allowed where it fits, and only there. -/
theorem allowed_put_iff {t : Table} {ks : CString} {row : ShadowRow D}
    (hclass : partitionAllows ctx.backend s t.db t.part groups kind.permission = true) :
    (putOf ctx t ks row).Allowed ctx.backend s groups ↔
      putFits ctx s groups kind (putOf ctx t ks row) = true := by
  rw [Change.Allowed, putFits]
  cases ctx.backend.place (putOf ctx t ks row).write with
  | none => exact iff_of_true (fun p hp => nomatch hp) rfl
  | some p =>
    simp only [Option.mem_some_iff, forall_eq', Bool.or_eq_true, Bool.and_eq_true,
      decide_eq_true_eq]
    constructor
    · exact fun h => .inr (h (.inl rfl))
    · rintro (⟨⟨hdb, hpart⟩, hperm⟩ | h) _
      · -- the class was asked of the table, whose partition this is
        rw [hperm, show p.db = t.db from hdb, show p.partition = t.part from hpart]
        exact hclass
      · exact h

theorem allowed_delete_iff {t : Table} {ks id : CString} :
    (⟨t, ks, id, none⟩ : Change D).Allowed ctx.backend s groups ↔
      deleteFits ctx s groups ⟨t, ks, id, none⟩ = true := by
  rw [Change.Allowed, deleteFits]
  cases ctx.backend.place (⟨t, ks, id, none⟩ : Change D).write with
  | none => exact iff_of_true (fun p hp => nomatch hp) rfl
  | some p =>
    cases hget : (ctx.backend.get s p.partition p.keyspace p.id).isSome <;>
      simp [Change.Effective, Change.restPermission, hget]

/-- A delete comes to the record it names. -/
theorem allowed_delete_of_class {t : Table} {ks id : CString}
    (hclass : partitionAllows ctx.backend s t.db t.part groups .delete = true) :
    (⟨t, ks, id, none⟩ : Change D).Allowed ctx.backend s groups := by
  intro p hp _
  rw [ctx.backend.place_of_safe _ p (ctx.backend.safe_of_escaped _ rfl) hp]
  exact hclass

/-- The changes of one event. -/
theorem allowed_planEvent_iff {tables : List Table} {after : List (Shadow D)}
    {map : List RowRec} {ev : Event} (hkind : some ev.op = kind.allowOp)
    (hclass : ∀ t ∈ tables,
      partitionAllows ctx.backend s t.db t.part groups kind.permission = true) :
    (∀ c ∈ (planEvent ctx tables after map ev).2.filterMap Step.change,
        c.Allowed ctx.backend s groups) ↔
      eventFits ctx s groups kind tables after map ev = true := by
  rw [planEvent, eventFits]
  cases htable : tables.find? fun t => t.tableAlias = ev.table with
  | none => simp
  | some t =>
    have ht := hclass t (List.mem_of_find?_eq_some htable)
    cases after.find? fun sh => sh.name = ev.table with
    | none => simp
    | some sh =>
      cases hop : ev.op with
      | delete =>
        -- a DELETE is of the class that was let through, for the row's own partition
        obtain rfl : kind = .delete := by
          rw [hop] at hkind
          cases kind <;> first | rfl | cases hkind
        dsimp only
        cases mapTake map ev.table ev.rowid with
        | none => simp [Step.change]
        | some q =>
          have hallowed : (⟨t, q.1.ks, q.1.id, none⟩ : Change D).Allowed ctx.backend s groups :=
            allowed_delete_of_class ht
          simp [Step.change, hallowed]
      | insert | update =>
        -- a put, and a deletion before it where the id of the row is another one
        dsimp only
        cases readRow sh ev.rowid with
        | none => cases mapTake map ev.table ev.rowid <;> simp [Step.change]
        | some row =>
          cases mapTake map ev.table ev.rowid with
          | none => simpa [Step.change] using allowed_put_iff ht
          | some q =>
            dsimp only
            by_cases hid : q.1.id = snprintf 512 (columnText ctx row.id)
            · simpa [Step.change, hid] using allowed_put_iff ht
            · rw [if_pos hid, decide_eq_false hid, Bool.false_or, Bool.and_eq_true,
                ← allowed_delete_iff, ← allowed_put_iff ht, and_comm]
              simp [Step.change, putOf]

/-- The changes of a run. -/
theorem allowed_planned_iff {tables : List Table} {after : List (Shadow D)}
    (hclass : ∀ t ∈ tables,
      partitionAllows ctx.backend s t.db t.part groups kind.permission = true)
    (events : List Event) (hops : ∀ ev ∈ events, some ev.op = kind.allowOp) (map : List RowRec) :
    (∀ c ∈ planned ctx tables after map events, c.Allowed ctx.backend s groups) ↔
      eventsFit ctx s groups kind tables after map events = true := by
  induction events generalizing map with
  | nil => simp [planned, plan, eventsFit]
  | cons ev events ih =>
    obtain ⟨hop, hops⟩ := List.forall_mem_cons.mp hops
    have hsplit : planned ctx tables after map (ev :: events) =
        (planEvent ctx tables after map ev).2.filterMap Step.change ++
          planned ctx tables after (planEvent ctx tables after map ev).1 events := by
      rw [planned, plan, List.filterMap_append]
      rfl
    rw [hsplit, List.forall_mem_append, allowed_planEvent_iff hop hclass, ih hops, eventsFit,
      Bool.and_eq_true]

end Events

/-! ## Statements -/

theorem Carried.changes_eq {ctx : Ctx σ D} {sql : CString} {groups : UInt64} {trusted : Bool}
    {s : σ} {m : Materialized D} {p : Prepared D} (h : Carried ctx sql groups trusted s m p) :
    statementChanges ctx sql groups trusted s =
      planned ctx m.tables (p.run m.shadows).after m.map
        (trapped m.tables (p.run m.shadows).events) := by
  rw [statementChanges_eq h.allowed, h.tables]
  dsimp only
  rw [sentFor, h.prepared]
  dsimp only
  rw [if_pos h.isDml, h.commits]

/-- The authorizer let the actions of a prepared statement through. -/
theorem actions_of_prepare {ctx : Ctx σ D} {sql : CString} {shadows : List (Shadow D)}
    {p : Prepared D} (h : prepareStatement ctx sql shadows = .ok p) :
    ctx.sqlite.prepare (rewriteSql (statementTables sql) sql)
        (shadows.map fun sh => (sh.name, cstr "id" :: sh.cols)) = .ok p ∧
      p.actions.all (denyAuthorizer (shadows.map Shadow.name) (classifyStatement sql).allowOp) =
        true := by
  simp only [prepareStatement] at h
  split at h
  · cases h
  · rename_i q hq
    split at h
    · cases h
    · rename_i hall
      split at h
      · cases h
      · obtain rfl := Except.ok.inj h
        exact ⟨hq, by simpa using hall⟩

/-- A statement that passes the authorizer and is the only one of its text is run. -/
theorem prepareStatement_eq_ok {ctx : Ctx σ D} {sql text : CString} {shadows : List (Shadow D)}
    {p : Prepared D} (htext : rewriteSql (statementTables sql) sql = text)
    (hprepare : ctx.sqlite.prepare text
      (shadows.map fun sh => (sh.name, cstr "id" :: sh.cols)) = .ok p)
    (hactions : p.actions.all (denyAuthorizer (shadows.map Shadow.name)
      (classifyStatement sql).allowOp) = true) (htail : p.tail = []) :
    prepareStatement ctx sql shadows = .ok p := by
  rw [prepareStatement, htext, hprepare]
  simp [hactions, htail]

section Carried

variable {ctx : Ctx σ D} {sql : CString} {groups : UInt64} {s : σ} {m : Materialized D}
  {p : Prepared D}

/-- Its events are of its class. -/
theorem Carried.ops {trusted : Bool} (h : Carried ctx sql groups trusted s m p)
    (he : ctx.sqlite.ReportsAllowed) :
    ∀ ev ∈ trapped m.tables (p.run m.shadows).events,
      some ev.op = (classifyStatement sql).allowOp := by
  have hof := Materialized.of_materializeAll h.tables
  obtain ⟨hprepare, hactions⟩ := actions_of_prepare h.prepared
  have hnames : (m.shadows.map fun sh => (sh.name, cstr "id" :: sh.cols)).map Prod.fst =
      m.shadows.map Shadow.name := by
    rw [List.map_map]
    rfl
  have haliases : m.shadows.map Shadow.name = m.tables.map Table.tableAlias := by
    rw [hof.shadows, hof.tables, List.map_map, List.map_map]
    exact List.map_congr_left fun t _ => rfl
  intro ev hev
  obtain ⟨hev, htable⟩ := List.mem_filter.mp hev
  refine he _ _ p _ hprepare (hnames ▸ hactions) m.shadows ev hev ?_
  rw [hnames, haliases]
  simpa using htable

/-- The caller has the permission of its class on its tables. -/
theorem Carried.class_allowed (h : Carried ctx sql groups false s m p) :
    ∀ t ∈ m.tables, partitionAllows ctx.backend s t.db t.part groups
      (classifyStatement sql).permission = true := fun t ht => by
  have hof := Materialized.of_materializeAll h.tables
  have hmem : t.bare ∈ collectRefs sql := hof.map_bare ▸ List.mem_map_of_mem ht
  exact allowed_of_refusal (t := t.bare) h.allowed hmem

/-- **EQL and REST** ask the same permissions of a statement that is carried out if and only if
every row event fits the class of the statement, one after the other. -/
theorem restAllows_iff (he : ctx.sqlite.ReportsAllowed)
    (h : Carried ctx sql groups false s m p) :
    RestAllows ctx sql groups s ↔
      eventsFit ctx s groups (classifyStatement sql) m.tables (p.run m.shadows).after m.map
        (trapped m.tables (p.run m.shadows).events) = true := by
  rw [RestAllows, h.changes_eq]
  exact allowed_planned_iff h.class_allowed _ (h.ops he) m.map

/-- The events of a DELETE fit. -/
theorem eventsFit_delete {tables : List Table} {after : List (Shadow D)} {kind : Kind}
    (events : List Event) (hops : ∀ ev ∈ events, ev.op = .delete) (map : List RowRec) :
    eventsFit ctx s groups kind tables after map events = true := by
  induction events generalizing map with
  | nil => rfl
  | cons ev events ih =>
    obtain ⟨hop, hops⟩ := List.forall_mem_cons.mp hops
    rw [eventsFit, ih hops, Bool.and_true, eventFits, hop]
    split <;> rfl

/-- REST allows the changes of a DELETE. -/
theorem restAllows_delete (he : ctx.sqlite.ReportsAllowed)
    (h : Carried ctx sql groups false s m p) (hdelete : classifyStatement sql = .delete) :
    RestAllows ctx sql groups s := by
  have hops := h.ops he
  rw [hdelete] at hops
  rw [RestAllows, h.changes_eq]
  exact (allowed_planned_iff h.class_allowed _ (h.ops he) m.map).mpr
    (eventsFit_delete _ (fun ev hev => Option.some.inj (hops ev hev)) m.map)

end Carried

/-! ## A REPLACE -/

section Replace

/-- Put a record, whether it is there or not. -/
def replaceSql : CString := cstr "REPLACE INTO a.p.k (id, v) VALUES ('r', 2)"

/-- The statement as the engine compiles it: the row that has the id goes, and the engine does
not report it. -/
def replaceStatement : Prepared Int where
  actions := [.dml .insert (cstr "eql_t0") none]
  readonly := false
  tail := []
  columns := []
  run shadows :=
    match shadows with
    | [sh] =>
      let rowid := maxRowid sh.rows + 1
      let kept := sh.rows.filter fun r => r.id ≠ .text (cstr "r")
      ⟨[], .done, [{ sh with rows := kept ++ [⟨rowid, .text (cstr "r"), [.int 2]⟩] }],
        [⟨cstr "eql_t0", .insert, rowid⟩]⟩
    | _ => ⟨[], .done, [], []⟩

def replaceSqlite : Sqlite Int where
  creates _ := true
  prepare text _ :=
    if text = cstr "REPLACE INTO eql_t0 (id, v) VALUES ('r', 2)" then .ok replaceStatement
    else .error (cstr "syntax error")
  authError := cstr "not authorized"
  realText _ := []

theorem reportsAllowed_replaceSqlite : replaceSqlite.ReportsAllowed := by
  intro text tables p op hp hactions shadows ev hev _
  have hop : op = some .insert := by
    have hall : replaceStatement.actions.all (denyAuthorizer (tables.map Prod.fst) op) = true := by
      simp only [replaceSqlite] at hp
      split at hp
      · rwa [← Except.ok.inj hp] at hactions
      · cases hp
    simp [replaceStatement, denyAuthorizer] at hall
    exact hall.1
  simp only [replaceSqlite] at hp
  split at hp
  · rw [← Except.ok.inj hp] at hev
    simp only [replaceStatement] at hev
    split at hev
    · rw [List.mem_singleton.mp hev, hop]
    · cases hev
  · cases hp

/-- The body of a statement request. -/
def sqlBody (sql : CString) : Json Int := .obj [(cstr "sql", .str sql)]

def sqlRequest (sql : CString) (groups : UInt64) : DataRequest where
  method := cstr "POST"
  path := cstr "/eql"
  query := []
  body := (sqlBody sql).text
  caller := some groups

def replaceHost : Host (CString → Shard) Int :=
  smallHost [note 1, note 2, partitionRecord (cstr "a") (cstr "p") 0 2 0 2, sqlBody replaceSql]
    (by decide +kernel) replaceSqlite

/-- A record in a partition where only group 2 may update and delete. -/
def oneNote : CString → Shard :=
  (handle replaceHost (.rest .put) (putBody "/data/a/p/k/r" 2 (note 1))
    (edbPartitionCreate replaceHost.backend (cstr "a") (cstr "p") 0 2 0 2 fun _ => ∅).2).2

/-- What REST denies the caller, a REPLACE does: the record is overwritten. -/
theorem replace_overwrites :
    (handle replaceHost (.rest .put) (putBody "/data/a/p/k/r" 1 (note 2)) oneNote).1.status =
        403 ∧
      (handle replaceHost .eql (sqlRequest replaceSql 1) oneNote).1.status = 200 ∧
      (handle replaceHost (.rest .collect) (getOf "/data/a/p/k/r" 1)
        (handle replaceHost .eql (sqlRequest replaceSql 1) oneNote).2).1 =
        ⟨200, (note 2).text⟩ ∧
      ¬ RestAllows replaceHost.ctx replaceSql 1 oneNote := by
  refine ⟨by decide +kernel, by decide +kernel, by decide +kernel, fun h => ?_⟩
  obtain ⟨c, hc, p, hp, hput, hdenied⟩ :
      ∃ c ∈ statementChanges replaceHost.ctx replaceSql 1 false oneNote,
        ∃ p ∈ replaceHost.ctx.backend.place c.write, c.value.isSome = true ∧
        partitionAllows replaceHost.ctx.backend oneNote p.db p.partition 1
          (c.restPermission replaceHost.ctx.backend oneNote p) = false := by decide +kernel
  exact absurd ((h c hc p hp (.inl hput)).symm.trans hdenied) (by decide)

theorem materializes_replace :
    (materializeAll replaceHost.ctx oneNote (statementTables replaceSql)).isSome = true := by
  decide +kernel

/-- The tables of the statement. -/
def replaceTables : Materialized Int :=
  (materializeAll replaceHost.ctx oneNote (statementTables replaceSql)).get materializes_replace

theorem carried_replace :
    Carried replaceHost.ctx replaceSql 2 false oneNote replaceTables replaceStatement where
  allowed := Option.isNone_iff_eq_none.mp (by decide +kernel)
  tables := (Option.some_get materializes_replace).symm
  prepared := prepareStatement_eq_ok (by decide +kernel) (if_pos rfl) (by decide +kernel) rfl
  isDml := by decide +kernel
  commits := by decide +kernel

/-- Group 2 may do it over REST as well. -/
theorem restAllows_replace : RestAllows replaceHost.ctx replaceSql 2 oneNote :=
  (restAllows_iff reportsAllowed_replaceSqlite carried_replace).mpr (by decide +kernel)

end Replace

end EpsilonDB.Eql
