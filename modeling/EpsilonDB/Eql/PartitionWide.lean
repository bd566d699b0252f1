import EpsilonDB.Eql.Permissions
import Mathlib.Data.List.Dedup

/-!
# A SELECT over a whole partition

A reference without a keyspace stands for one shadow table, into which the documents of all
registered keyspaces go under their ids. The id is its primary key, and a document replaces
the one before it. The REST query of the partition keeps a list.

- `unionRecords`: the live records of every registered keyspace.
- `fetchDocs_of_pw`: those of them that the table is made of. 64 keyspaces are read, and only
  objects are kept.
- `length_rows`, `rows_of_nodup`: the rows of the table are one for each id.
- `SeesUnion`: `SELECT *` and the REST query answer with every record once.
- `seesUnion_iff`: so they do when the table can be created, no keyspace after the 64th holds a
  record, every record is an object, and no two have the same id.
- `select_misses_a_record`: two keyspaces with a record of the same id.
-/

namespace EpsilonDB.Eql

variable {σ D : Type} [Doubles D]

/-! ## The records of a partition -/

section Records

variable (B : Backend σ D) (s : σ) (db part : CString)

/-- The registered keyspaces of a partition. -/
def allKeyspaces : List CString := partitionKeyspaces B s db part (edbKeyspaceList B s).length

/-- The live records of a keyspace, whatever they hold. -/
def liveRecords (ks : CString) : List (Fetched D) :=
  (B.readQueryMeta s db part ks none).map fun r => ⟨r.1, ks, r.2.2⟩

/-- The live records of every keyspace. -/
def unionRecords : List (Fetched D) := (allKeyspaces B s db part).flatMap (liveRecords B s db part)

/-- The records of the keyspaces that are read. -/
def readRecords : List (Fetched D) :=
  ((allKeyspaces B s db part).take 64).flatMap (liveRecords B s db part)

variable {B s db part}

omit [Doubles D] in
theorem partitionKeyspaces_eq (cap : Nat) :
    partitionKeyspaces B s db part cap = (allKeyspaces B s db part).take cap := by
  have hle := List.length_filter_le
    (fun info : KeyspaceInfo => info.database = db && info.partition = part) (edbKeyspaceList B s)
  rw [allKeyspaces, partitionKeyspaces, partitionKeyspaces, List.take_of_length_le hle,
    List.map_take]

omit [Doubles D] in
/-- The documents of a partition-wide table. -/
theorem fetchDocs_of_pw {t : Table} (hpw : t.pw = true) :
    fetchDocs B s t = (readRecords B s t.db t.part).filter fun f => f.doc.isObject := by
  rw [fetchDocs, if_pos hpw, partitionKeyspaces_eq, readRecords, List.filter_flatMap]
  refine List.flatMap_congr fun ks _ => ?_
  rw [fetchShardDocs, liveRecords, List.filter_map]
  rfl

omit [Doubles D] in
theorem unionRecords_eq :
    unionRecords B s db part = readRecords B s db part ++
      ((allKeyspaces B s db part).drop 64).flatMap (liveRecords B s db part) := by
  rw [unionRecords, readRecords, ← List.flatMap_append, List.take_append_drop]

omit [Doubles D] in
theorem fetchDocs_sublist {t : Table} (hpw : t.pw = true) :
    (fetchDocs B s t).Sublist (unionRecords B s t.db t.part) := by
  rw [fetchDocs_of_pw hpw, unionRecords_eq]
  exact List.filter_sublist.trans (List.sublist_append_left ..)

end Records

/-! ## The rows of the table -/

section Rows

variable {codec : Codec D} {t : Table} {docs : List (Fetched D)}

/-- The rows have different ids, those of the documents. -/
theorem ids_rows (docs : List (Fetched D)) :
    ((docs.foldl (insertDoc codec t) ([], [])).1.map ShadowRow.id).Perm
      (docs.map fun f => SqlValue.text f.id).dedup := by
  have hids : ((docs.foldl (insertDoc codec t) ([], [])).1.map ShadowRow.id).Nodup ∧
      ∀ x, x ∈ (docs.foldl (insertDoc codec t) ([], [])).1.map ShadowRow.id ↔
        x ∈ docs.map fun f => SqlValue.text f.id := by
    induction docs using List.reverseRecOn with
    | nil => simp
    | append_singleton docs f ih =>
      obtain ⟨hnodup, hmem⟩ := ih
      rw [List.foldl_concat]
      dsimp only [insertDoc]
      -- the row that had the id goes
      have hkept : ((docs.foldl (insertDoc codec t) ([], [])).1.filter
          fun r => r.id ≠ .text f.id).map ShadowRow.id =
          ((docs.foldl (insertDoc codec t) ([], [])).1.map ShadowRow.id).filter
            fun x => x ≠ .text f.id := by
        rw [List.filter_map]
        rfl
      rw [List.map_append, hkept, List.map_singleton]
      constructor
      · refine List.nodup_append.mpr ⟨hnodup.filter _, List.nodup_singleton _, ?_⟩
        intro x hx y hy
        rw [List.mem_singleton.mp hy]
        simpa using (List.mem_filter.mp hx).2
      · intro x
        rw [List.mem_append, List.mem_filter, hmem, List.map_append, List.mem_append]
        by_cases hx : x = .text f.id <;> simp [hx]
  exact (List.perm_ext_iff_of_nodup hids.1 (List.nodup_dedup _)).mpr fun x => by
    rw [hids.2, List.mem_dedup]

/-- There are as many rows as there are ids. -/
theorem length_rows (docs : List (Fetched D)) :
    (docs.foldl (insertDoc codec t) ([], [])).1.length = (docs.map Fetched.id).dedup.length := by
  have hids : ((docs.foldl (insertDoc codec t) ([], [])).1.map ShadowRow.id).Perm
      (docs.map fun f => SqlValue.text f.id).dedup := ids_rows docs
  have hlength := hids.length_eq
  have hinj : Function.Injective (SqlValue.text : CString → SqlValue D) :=
    fun _ _ h => SqlValue.text.inj h
  have hmap : (docs.map fun f => SqlValue.text (D := D) f.id) =
      (docs.map Fetched.id).map SqlValue.text := by
    rw [List.map_map]
    rfl
  rw [List.length_map, hmap, List.dedup_map_of_injective hinj, List.length_map] at hlength
  exact hlength

/-- Documents with different ids are rows one after the other. -/
theorem rows_of_nodup (h : (docs.map Fetched.id).Nodup) :
    (docs.foldl (insertDoc codec t) ([], [])).1.map (fun r => r.id :: r.values) =
      docs.map fun f => .text f.id :: docValues codec t.names f.doc := by
  induction docs using List.reverseRecOn with
  | nil => rfl
  | append_singleton docs f ih =>
    rw [List.map_append, List.nodup_append] at h
    obtain ⟨hdocs, -, hfresh⟩ := h
    have hids : ((docs.foldl (insertDoc codec t) ([], [])).1.map ShadowRow.id).Perm
        (docs.map fun f => SqlValue.text f.id).dedup := ids_rows docs
    have hkeep : ((docs.foldl (insertDoc codec t) ([], [])).1.filter
        fun r => r.id ≠ .text f.id) = (docs.foldl (insertDoc codec t) ([], [])).1 := by
      refine List.filter_eq_self.mpr fun r hr => ?_
      have hmem := List.mem_dedup.mp (hids.subset (List.mem_map_of_mem hr))
      obtain ⟨g, hg, hid⟩ := List.mem_map.mp hmem
      have hne := hfresh g.id (List.mem_map_of_mem hg) f.id (by simp)
      simpa [← hid] using hne
    rw [List.foldl_concat]
    dsimp only [insertDoc]
    rw [hkeep, List.map_append, ih hdocs, List.map_append]
    rfl

end Rows

/-! ## The two answers -/

/-- The rows of an answer. -/
def answerRows (r : Result D) : Option (List (Json D)) :=
  if r.1 = 200 then
    match r.2.bind fun body => body.get (cstr "rows") with
    | some (.arr rows) => some rows
    | _ => none
  else none

/-- For the engine the text is `SELECT *` of the one table: a query that runs to its end over
the rows of the table, in any order. -/
def Sqlite.SelectsAll (e : Sqlite D) (text table : CString) : Prop :=
  ∀ cols, ∃ p, e.prepare text [(table, cols)] = .ok p ∧
    (∀ a ∈ p.actions, a = .other) ∧ p.readonly = true ∧ p.tail = [] ∧
    ∀ sh : Shadow D, sh.name = table → cstr "id" :: sh.cols = cols →
      (p.run [sh]).ending = .done ∧
        (p.run [sh]).rows.Perm (sh.rows.map fun r => r.id :: r.values)

section Answers

variable (h : Host σ D) (sql : CString) (groups : UInt64) (trusted : Bool) (t : Table) (s : σ)

/-- The table of the reference, with its first column. -/
def wideTable : Table := { t with cols := [(cstr "id", false)] }

/-- The row that shows a record. -/
def recordRow (f : Fetched D) : Json D :=
  .arr ((.text f.id :: docValues h.codec (tableOf h.ctx s (wideTable t)).names f.doc).map
    columnJson)

/-- `SELECT *` answers with one row for every record of the partition, and the REST query with
the same records. -/
def SeesUnion : Prop :=
  (∃ rows, answerRows (edbEqlExecute h.ctx sql groups trusted s).1 = some rows ∧
      rows.Perm ((unionRecords h.backend s t.db t.part).map (recordRow h t s))) ∧
    (partitionWideQuery h.toServer s t.db t.part none).Perm
      ((unionRecords h.backend s t.db t.part).map fun f => docWithId f.doc f.id)

/-- The records of the partition fit one table. -/
structure Mergeable : Prop where
  creatable : ∃ text, createSql (tableOf h.ctx s (wideTable t)) = some text ∧
    h.sqlite.creates text = true
  reached : ∀ ks ∈ (allKeyspaces h.backend s t.db t.part).drop 64,
    liveRecords h.backend s t.db t.part ks = []
  objects : ∀ f ∈ unionRecords h.backend s t.db t.part, f.doc.isObject = true
  distinct : ((unionRecords h.backend s t.db t.part).map Fetched.id).Nodup

end Answers

section Answered

variable {h : Host σ D} {sql : CString} {groups : UInt64} {trusted : Bool} {t : Table} {s : σ}

theorem statementTables_of_select (hrefs : collectRefs sql = [t])
    (hkind : classifyStatement sql = .select) : statementTables sql = [wideTable t] := by
  rw [statementTables, hkind, hrefs]
  rfl

/-- One table is materialised when it can be created. -/
theorem materializeAll_singleton {ctx : Ctx σ D} {t : Table} :
    (∃ m, materializeAll ctx s [t] = some m) ↔
      ∃ text, createSql (tableOf ctx s t) = some text ∧ ctx.sqlite.creates text = true := by
  rw [materializeAll, List.foldlM_cons, materializeNext, tableOf]
  cases createSql (withColumns t (fetchDocs ctx.backend s t)) with
  | none => simp
  | some text => cases hcreates : ctx.sqlite.creates text <;> simp [hcreates]

theorem answerRows_selectResult {p : Prepared D} {run : Run D} (hread : p.readonly = true)
    (hdone : run.ending = .done) :
    answerRows (selectResult p run) = some (run.rows.map fun row => .arr (row.map columnJson)) := by
  rw [selectResult, hread, hdone]
  rfl

/-- The rows that `SELECT *` answers with are those of the table, when there is one. -/
theorem answerRows_select (hrefs : collectRefs sql = [t])
    (hkind : classifyStatement sql = .select)
    (hselect : h.sqlite.SelectsAll (rewriteSql (statementTables sql) sql) t.tableAlias)
    (hallowed : refusal h.ctx sql groups trusted s = none) :
    ((∃ text, createSql (tableOf h.ctx s (wideTable t)) = some text ∧
        h.sqlite.creates text = true) →
      ∃ rows, answerRows (edbEqlExecute h.ctx sql groups trusted s).1 = some rows ∧
        rows.Perm ((shadowOf h.ctx s (wideTable t)).rows.map fun r =>
          .arr ((r.id :: r.values).map columnJson))) ∧
      (¬ (∃ text, createSql (tableOf h.ctx s (wideTable t)) = some text ∧
          h.sqlite.creates text = true) →
        answerRows (edbEqlExecute h.ctx sql groups trusted s).1 = none) := by
  have htables := statementTables_of_select hrefs hkind
  have hcreate : (∃ m, materializeAll h.ctx s [wideTable t] = some m) ↔ _ :=
    materializeAll_singleton
  have hdml : (classifyStatement sql).isDml = false := by rw [hkind]; rfl
  rw [edbEqlExecute, hallowed, htables]
  constructor
  · intro hcreatable
    -- the table is made and filled, and SQLite gives its rows
    obtain ⟨m, hm⟩ := hcreate.mpr hcreatable
    have hshadows : m.shadows = [shadowOf h.ctx s (wideTable t)] :=
      (Materialized.of_materializeAll hm).shadows
    have hname : (shadowOf h.ctx s (wideTable t)).name = t.tableAlias := name_shadowOf s _
    obtain ⟨p, hp, hactions, hread, htail, hrun⟩ :=
      hselect (cstr "id" :: (shadowOf h.ctx s (wideTable t)).cols)
    obtain ⟨hdone, hrows⟩ := hrun _ hname rfl
    have hprepare : prepareStatement h.ctx sql m.shadows = .ok p := by
      refine prepareStatement_eq_ok rfl ?_ ?_ htail
      · rw [hshadows, List.map_singleton, hname]
        exact hp
      · refine List.all_eq_true.mpr fun a ha => ?_
        rw [hactions a ha]
        rfl
    rw [hm]
    dsimp only
    rw [hprepare]
    dsimp only
    rw [hdml, hshadows, Bool.not_false, if_pos rfl]
    refine ⟨_, answerRows_selectResult hread hdone, ?_⟩
    have hmap := hrows.map fun row => Json.arr (row.map columnJson)
    rwa [List.map_map] at hmap
  · intro hcreatable
    have hnone : materializeAll h.ctx s [wideTable t] = none :=
      Option.eq_none_iff_forall_ne_some.mpr fun m hm => hcreatable (hcreate.mp ⟨m, hm⟩)
    rw [hnone]
    rfl

/-- The REST query answers with the objects among the records that are read. -/
theorem perm_partitionWideQuery :
    (partitionWideQuery h.toServer s t.db t.part none).Perm
      (((readRecords h.backend s t.db t.part).filter fun f => f.doc.isObject).map fun f =>
        docWithId f.doc f.id) := by
  rw [partitionWideQuery, partitionKeyspaces_eq, flattenMetaRows]
  have hsort := (List.perm_insertionSort (fun a b : CString × Int × Json D => b.2.1 ≤ a.2.1)
    (((allKeyspaces h.backend s t.db t.part).take 64).flatMap fun ks =>
      h.backend.readQueryMeta s t.db t.part ks none)).filter fun r => r.2.2.isObject
  refine (hsort.map fun r => docWithId r.2.2 r.1).trans (List.Perm.of_eq ?_)
  rw [readRecords, List.filter_flatMap, List.filter_flatMap, List.map_flatMap, List.map_flatMap]
  refine List.flatMap_congr fun ks _ => ?_
  rw [liveRecords, List.filter_map, List.map_map]
  rfl

/-- The table is made of all the records exactly when they are all read and are objects. -/
theorem fetchDocs_eq_union_iff (hpw : t.pw = true) :
    fetchDocs h.backend s t = unionRecords h.backend s t.db t.part ↔
      (∀ ks ∈ (allKeyspaces h.backend s t.db t.part).drop 64,
          liveRecords h.backend s t.db t.part ks = []) ∧
        ∀ f ∈ unionRecords h.backend s t.db t.part, f.doc.isObject = true := by
  rw [fetchDocs_of_pw hpw]
  constructor
  · intro heq
    have hobjects : ∀ f ∈ unionRecords h.backend s t.db t.part, f.doc.isObject = true := by
      intro f hf
      rw [← heq] at hf
      exact (List.mem_filter.mp hf).2
    refine ⟨?_, hobjects⟩
    have hle := List.length_filter_le (fun f : Fetched D => f.doc.isObject)
      (readRecords h.backend s t.db t.part)
    rw [heq, unionRecords_eq, List.length_append] at hle
    have hrest := List.length_eq_zero_iff.mp (by omega :
      (((allKeyspaces h.backend s t.db t.part).drop 64).flatMap
        (liveRecords h.backend s t.db t.part)).length = 0)
    exact List.flatMap_eq_nil_iff.mp hrest
  · rintro ⟨hreached, hobjects⟩
    rw [unionRecords_eq, List.flatMap_eq_nil_iff.mpr hreached, List.append_nil] at hobjects ⊢
    exact List.filter_eq_self.mpr hobjects

/-- **A partition-wide SELECT sees the union of the keyspaces** exactly when their records fit
one table: it can be created, no keyspace after the 64th holds a record, every record is an
object, and no two have the same id. -/
theorem seesUnion_iff (hrefs : collectRefs sql = [t]) (hpw : t.pw = true)
    (hkind : classifyStatement sql = .select)
    (hselect : h.sqlite.SelectsAll (rewriteSql (statementTables sql) sql) t.tableAlias)
    (hallowed : refusal h.ctx sql groups trusted s = none) :
    SeesUnion h sql groups trusted t s ↔ Mergeable h t s := by
  obtain ⟨hcreated, hfailed⟩ := answerRows_select hrefs hkind hselect hallowed
  have hids : (shadowOf h.ctx s (wideTable t)).rows.length =
      ((fetchDocs h.backend s t).map Fetched.id).dedup.length := length_rows _
  constructor
  · rintro ⟨⟨rows, hanswer, hrows⟩, -⟩
    by_cases hcreatable : ∃ text, createSql (tableOf h.ctx s (wideTable t)) = some text ∧
        h.sqlite.creates text = true
    · obtain ⟨rows', hanswer', hrows'⟩ := hcreated hcreatable
      obtain rfl := Option.some.inj (hanswer.symm.trans hanswer')
      -- there is a row for each id of the table, and as many as there are records
      have hcount := hrows.length_eq
      rw [hrows'.length_eq, List.length_map, List.length_map] at hcount
      have hsub := fetchDocs_sublist (B := h.backend) (s := s) hpw
      have hdedup := List.dedup_sublist ((fetchDocs h.backend s t).map Fetched.id)
      have hle := hdedup.length_le
      rw [List.length_map] at hle
      have hunion := hsub.eq_of_length_le (by omega)
      obtain ⟨hreached, hobjects⟩ := (fetchDocs_eq_union_iff hpw).mp hunion
      refine ⟨hcreatable, hreached, hobjects, ?_⟩
      have hsame := hdedup.eq_of_length_le (by
        rw [List.length_map]
        have := hsub.length_le
        omega)
      rw [← hunion]
      exact List.dedup_eq_self.mp hsame
    · rw [hfailed hcreatable] at hanswer
      cases hanswer
  · rintro ⟨hcreatable, hreached, hobjects, hdistinct⟩
    have hunion := (fetchDocs_eq_union_iff hpw).mpr ⟨hreached, hobjects⟩
    constructor
    · obtain ⟨rows, hanswer, hrows⟩ := hcreated hcreatable
      refine ⟨rows, hanswer, hrows.trans (List.Perm.of_eq ?_)⟩
      have hnodup : ((fetchDocs h.backend s t).map Fetched.id).Nodup := by rwa [hunion]
      have heach : (shadowOf h.ctx s (wideTable t)).rows.map (fun r => r.id :: r.values) = _ :=
        rows_of_nodup hnodup
      have hshow := congrArg (List.map fun row => Json.arr (row.map columnJson)) heach
      rw [List.map_map, List.map_map] at hshow
      exact hshow.trans (congrArg (List.map (recordRow h t s)) hunion)
    · have hread := perm_partitionWideQuery (h := h) (t := t) (s := s)
      rwa [← fetchDocs_of_pw hpw, hunion] at hread

end Answered

/-! ## Two keyspaces -/

section TwoKeyspaces

def selectSql : CString := cstr "SELECT * FROM a.p"

/-- The statement as the engine compiles it. -/
def selectStatement (columns : List CString) : Prepared Int where
  actions := [.other]
  readonly := true
  tail := []
  columns
  run shadows :=
    ⟨shadows.flatMap fun sh => sh.rows.map fun r => r.id :: r.values, .done, shadows, []⟩

def selectSqlite : Sqlite Int where
  creates _ := true
  prepare text tables :=
    if text = cstr "SELECT * FROM eql_t0" then .ok (selectStatement (tables.flatMap Prod.snd))
    else .error (cstr "syntax error")
  authError := cstr "not authorized"
  realText _ := []

theorem selectsAll_selectSqlite :
    selectSqlite.SelectsAll (cstr "SELECT * FROM eql_t0") (cstr "eql_t0") := by
  intro cols
  refine ⟨selectStatement cols, ?_, by simp [selectStatement], rfl, rfl, ?_⟩
  · have hcols : [(cstr "eql_t0", cols)].flatMap Prod.snd = cols := List.append_nil cols
    have hprepare : selectSqlite.prepare (cstr "SELECT * FROM eql_t0") [(cstr "eql_t0", cols)] =
        .ok (selectStatement ([(cstr "eql_t0", cols)].flatMap Prod.snd)) := by
      simp only [selectSqlite, if_true]
    rw [hprepare, hcols]
  · intro sh _ _
    exact ⟨rfl, List.Perm.of_eq (List.append_nil _)⟩

def selectHost : Host (CString → Shard) Int :=
  smallHost [note 1, note 2, sqlBody selectSql, partitionRecord (cstr "a") (cstr "p") 0 0 0 0,
      keyspaceRecord (cstr "a") (cstr "p") (cstr "k"),
      keyspaceRecord (cstr "a") (cstr "p") (cstr "l")]
    (by decide +kernel) selectSqlite

/-- A record in each of two keyspaces. -/
def twoKeyspaces (id : String) : CString → Shard :=
  (handle selectHost (.rest .put) (putBody ("/data/a/p/l/" ++ id) 1 (note 2))
    (handle selectHost (.rest .put) (putBody "/data/a/p/k/r" 1 (note 1)) fun _ => ∅).2).2

/-- The reference to the partition. -/
def partitionRef : Table := mkTable 0 (cstr "a") (cstr "p") []

/-- Of two records with one id the statement shows one, and the REST query both. -/
theorem select_misses_a_record :
    (partitionWideQuery selectHost.toServer (twoKeyspaces "r") (cstr "a") (cstr "p") none).length =
        2 ∧
      (answerRows (edbEqlExecute selectHost.ctx selectSql 1 false (twoKeyspaces "r")).1).map
        List.length = some 1 ∧
      ¬ SeesUnion selectHost selectSql 1 false partitionRef (twoKeyspaces "r") := by
  have hrest : (partitionWideQuery selectHost.toServer (twoKeyspaces "r") (cstr "a") (cstr "p")
      none).length = 2 := by decide +kernel
  have hrows : (answerRows (edbEqlExecute selectHost.ctx selectSql 1 false
      (twoKeyspaces "r")).1).map List.length = some 1 := by decide +kernel
  refine ⟨hrest, hrows, ?_⟩
  rintro ⟨⟨rows, hanswer, hperm⟩, hquery⟩
  have hcount := hquery.length_eq
  have hdb : partitionRef.db = cstr "a" ∧ partitionRef.part = cstr "p" := by decide +kernel
  rw [List.length_map, ← List.length_map (f := recordRow selectHost partitionRef
    (twoKeyspaces "r")), ← hperm.length_eq, hdb.1, hdb.2, hrest] at hcount
  rw [hanswer, Option.map_some, ← hcount] at hrows
  cases hrows

/-- Two ids, and both are there. -/
theorem seesUnion_two_ids :
    SeesUnion selectHost selectSql 1 false partitionRef (twoKeyspaces "q") := by
  refine (seesUnion_iff (by decide +kernel) (by decide +kernel) (by decide +kernel) ?_
    (Option.isNone_iff_eq_none.mp (by decide +kernel))).mpr ?_
  · have htext : rewriteSql (statementTables selectSql) selectSql =
        cstr "SELECT * FROM eql_t0" := by decide +kernel
    have halias : partitionRef.tableAlias = cstr "eql_t0" := by decide +kernel
    rw [htext, halias]
    exact selectsAll_selectSqlite
  · have htable : (createSql (tableOf selectHost.ctx (twoKeyspaces "q")
        (wideTable partitionRef))).isSome = true := by decide +kernel
    obtain ⟨text, htext⟩ := Option.isSome_iff_exists.mp htable
    refine ⟨⟨text, htext, rfl⟩, ?_, ?_, ?_⟩
    · decide +kernel
    · decide +kernel
    · decide +kernel

end TwoKeyspaces

end EpsilonDB.Eql
