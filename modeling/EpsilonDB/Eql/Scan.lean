import EpsilonDB.Engine.CString
import EpsilonDB.Httpd.Http
import Mathlib.Data.List.Nodup

/-!
# The statement scanner (`eql/epsilon_eql.c`)

The engine finds the references of a statement by scanning its text for the words FROM, JOIN,
INTO and UPDATE, and hands the text to SQLite with every reference replaced by the name of
its shadow table. A cursor is the text that is left. SQLite is the parser: what the scanner
does not understand it passes over.

- `readIdent`, `skipSpaces`, `skipQuotedRaw`: the lexical layer. A bracketed identifier is
  skipped up to the next opening bracket.
- `collectRefs`: the shadow tables of a statement, at most 16.
- `classifyStatement`: the class of a statement, by its first word.
- `scanInsertColumns`, `scanUpdateColumns`: the columns a statement names.
- `rewriteSql`: the text SQLite gets. The buffer of twice its length never fills up.
-/

namespace EpsilonDB.Eql

/-- `EQL_MAX_TABLES`. -/
def maxTables : Nat := 16

/-- `EQL_MAX_COLS`. -/
def maxCols : Nat := 256

/-- `eql_table`. A column that carried objects or arrays is marked. -/
structure Table where
  db : CString
  part : CString
  /-- empty for a partition-wide table -/
  ks : CString
  dotted : CString
  tableAlias : CString
  pw : Bool
  cols : List (CString × Bool) := []
deriving DecidableEq

/-- A table but for its columns. -/
def Table.bare (t : Table) : Table := { t with cols := [] }

/-! ## Lexical layer -/

def isIdentChar (c : UInt8) : Bool :=
  isDigit c || (65 ≤ c && c ≤ 90) || (97 ≤ c && c ≤ 122) || c == 95

/-- The text of a `"quoted"` or `` `backticked` `` identifier after its opening quote; only
the double quote is escaped by doubling. -/
def readQuoted (quote : UInt8) : CString → Option (CString × CString)
  | [] => none
  | [c] => if c = quote then some ([], []) else none
  | c :: d :: t =>
    if c = quote then
      if quote = 34 ∧ d = 34 then (readQuoted quote t).map fun r => (34 :: r.1, r.2)
      else some ([], d :: t)
    else (readQuoted quote (d :: t)).map fun r => (c :: r.1, r.2)

/-- `read_ident` into `cap` bytes: the identifier and the text after it. -/
def readIdent (cap : Nat) (s : CString) : Option (CString × CString) :=
  match s with
  | [] => none
  | c :: t =>
    if c = 34 ∨ c = 96 then (readQuoted c t).map fun r => (snprintf cap r.1, r.2)
    else if c = 91 then
      match t.dropWhile fun x => x != 93 with
      | [] => none
      | _ :: rest => some (snprintf cap (t.takeWhile fun x => x != 93), rest)
    else if isIdentChar c then
      some (snprintf cap (s.takeWhile isIdentChar), s.dropWhile isIdentChar)
    else none

/-- What follows the end of a block comment. -/
def afterComment (s : CString) : CString :=
  match bufFind (cstr "*/") s with
  | some i => s.drop (i + 2)
  | none => []

def skipSpacesComments : Nat → CString → CString
  | 0, s => s
  | fuel + 1, s =>
    match s.dropWhile isSpace with
    | 45 :: 45 :: t => skipSpacesComments fuel (t.dropWhile fun c => c != 10)
    | 47 :: 42 :: t => skipSpacesComments fuel (afterComment t)
    | t => t

/-- `skip_spaces_comments`: every comment is at least two bytes long. -/
def skipSpaces (s : CString) : CString := skipSpacesComments s.length s

/-- `skip_quoted_raw` after the opening quote. -/
def skipQuotedRaw (quote : UInt8) : CString → CString
  | [] => []
  | [_] => []
  | c :: d :: t =>
    if c = quote then if d = quote then skipQuotedRaw quote t else d :: t
    else if quote = 39 ∧ c = 92 then skipQuotedRaw quote t
    else skipQuotedRaw quote (d :: t)

/-- The bytes that open a quoted literal. -/
def opensQuote (c : UInt8) : Bool := c == 39 || c == 34 || c == 96 || c == 91

theorem opensQuote_iff {c : UInt8} : opensQuote c = true ↔ c = 39 ∨ c = 34 ∨ c = 96 ∨ c = 91 := by
  simp only [opensQuote, Bool.or_eq_true, beq_iff_eq, or_assoc]

def lower (s : CString) : CString := s.map toLower

/-! ## References -/

/-- `parse_ref2`: the three names, the last one empty for a partition-wide reference, and
where the cursor stops, also when there is no reference. -/
def parseRef (s : CString) : Option (CString × CString × CString) × CString :=
  let s := skipSpaces s
  match readIdent 256 s with
  | none => (none, s)
  | some (db, s) =>
    match skipSpaces s with
    | 46 :: s =>
      let s := skipSpaces s
      match readIdent 256 s with
      | none => (none, s)
      | some (part, s) =>
        match skipSpaces s with
        | 46 :: s =>
          let s := skipSpaces s
          match readIdent 256 s with
          | none => (none, s)
          | some (ks, s) => (some (db, part, ks), s)
        | s => (some (db, part, []), s)
    | s => (none, s)

/-- `same_shard`. -/
def sameShard (t : Table) (db part ks : CString) : Bool := t.db = db && t.part = part && t.ks = ks

/-- `"eql_t%d"`. -/
def aliasName (i : Nat) : CString := cstr "eql_t" ++ cstr (toString i)

/-- The table of the `i`-th reference. -/
def mkTable (i : Nat) (db part ks : CString) : Table :=
  let db := snprintf 128 db
  let part := snprintf 256 part
  let pw := ks = []
  let ks := snprintf 128 ks
  { db, part, ks, pw
    dotted :=
      snprintf 512 (if pw then db ++ cstr "." ++ part else db ++ cstr "." ++ part ++ cstr "." ++ ks)
    tableAlias := aliasName i }

/-- One more reference, unless it is a known one or there are enough. -/
def addRef (tables : List Table) (db part ks : CString) : List Table :=
  if tables.any fun t => sameShard t db part ks && t.pw == decide (ks = []) then tables
  else if tables.length < maxTables then tables ++ [mkTable tables.length db part ks]
  else tables

/-- The optional alias after a reference. A bare word of four or five letters, or of eight
and more, is taken for a keyword. -/
def skipAlias (s : CString) : CString :=
  let t := skipSpaces s
  let word := t.takeWhile isIdentChar
  let rest := t.dropWhile isIdentChar
  if word = [] ∨ 8 ≤ word.length then s
  else if lower word = cstr "as" then
    let t := skipSpaces rest
    if t.takeWhile isIdentChar = [] then s else t.dropWhile isIdentChar
  else if word.length ≠ 4 ∧ word.length ≠ 5 then rest
  else s

/-- The comma-separated sources after a reference. -/
def moreRefs : Nat → List Table → CString → List Table × CString
  | 0, tables, s => (tables, s)
  | fuel + 1, tables, s =>
    match skipSpaces s with
    | 44 :: t =>
      match parseRef t with
      | (some (db, part, ks), rest) => moreRefs fuel (addRef tables db part ks) rest
      | (none, _) => (tables, s)
    | _ => (tables, s)

/-- The words a reference follows. -/
def refWords : List CString := [cstr "from", cstr "join", cstr "into", cstr "update"]

def collectRefsFrom : Nat → List Table → CString → List Table
  | 0, tables, _ => tables
  | fuel + 1, tables, s =>
    match skipSpaces s with
    | [] => tables
    | c :: t =>
      if opensQuote c then collectRefsFrom fuel tables (skipQuotedRaw c t)
      else if !isIdentChar c then collectRefsFrom fuel tables t
      else
        let rest := (c :: t).dropWhile isIdentChar
        if lower ((c :: t).takeWhile isIdentChar) ∈ refWords then
          match parseRef rest with
          | (none, rest) => collectRefsFrom fuel tables rest
          | (some (db, part, ks), rest) =>
            let (tables, rest) := moreRefs rest.length (addRef tables db part ks) (skipAlias rest)
            collectRefsFrom fuel tables rest
        else collectRefsFrom fuel tables rest

/-- `collect_refs`: every round reads at least one byte. -/
def collectRefs (sql : CString) : List Table := collectRefsFrom sql.length [] sql

/-- The tables are those of references, in order, and there are at most `maxTables`. -/
def Collected (tables : List Table) : Prop :=
  tables.length ≤ maxTables ∧
    ∀ i t, tables[i]? = some t → ∃ db part ks, t = mkTable i db part ks

theorem Collected.addRef {tables : List Table} (h : Collected tables) (db part ks : CString) :
    Collected (addRef tables db part ks) := by
  rw [Eql.addRef]
  split
  · exact h
  · split
    · rename_i hroom
      refine ⟨by rw [List.length_append]; exact hroom, fun i t ht => ?_⟩
      rcases Nat.lt_trichotomy i tables.length with hi | rfl | hi
      · rw [List.getElem?_append_left hi] at ht
        exact h.2 i t ht
      · rw [List.getElem?_concat_length] at ht
        exact ⟨db, part, ks, (Option.some.inj ht).symm⟩
      · rw [List.getElem?_eq_none (by rw [List.length_append]; exact hi)] at ht
        cases ht
    · exact h

theorem Collected.moreRefs {tables : List Table} (h : Collected tables) (fuel : Nat)
    (s : CString) : Collected (moreRefs fuel tables s).1 := by
  induction fuel generalizing tables s with
  | zero => exact h
  | succ fuel ih =>
    unfold Eql.moreRefs
    split
    · split
      · exact ih (h.addRef ..) _
      · exact h
    · exact h

theorem Collected.collectRefsFrom {tables : List Table} (h : Collected tables) (fuel : Nat)
    (s : CString) : Collected (collectRefsFrom fuel tables s) := by
  induction fuel generalizing tables s with
  | zero => exact h
  | succ fuel ih =>
    unfold Eql.collectRefsFrom
    split
    · exact h
    · split
      · exact ih h _
      · split
        · exact ih h _
        · dsimp only
          split
          · split
            · exact ih h _
            · exact ih ((h.addRef ..).moreRefs _ _) _
          · exact ih h _

theorem collected_collectRefs (sql : CString) : Collected (collectRefs sql) :=
  Collected.collectRefsFrom ⟨Nat.zero_le _, fun i t ht => by simp at ht⟩ _ _

theorem aliasName_inj {i j : Nat} (hi : i < maxTables) (hj : j < maxTables)
    (h : aliasName i = aliasName j) : i = j := by
  have hall : ∀ i < maxTables, ∀ j < maxTables, aliasName i = aliasName j → i = j := by decide
  exact hall i hi j hj h

/-- A table is known by its alias. -/
theorem Collected.eq_of_alias {tables : List Table} (h : Collected tables) {t t' : Table}
    (ht : t ∈ tables) (ht' : t' ∈ tables) (heq : t.tableAlias = t'.tableAlias) : t = t' := by
  obtain ⟨i, hi, rfl⟩ := List.mem_iff_getElem.mp ht
  obtain ⟨j, hj, rfl⟩ := List.mem_iff_getElem.mp ht'
  obtain ⟨_, _, _, hti⟩ := h.2 i _ (List.getElem?_eq_getElem hi)
  obtain ⟨_, _, _, htj⟩ := h.2 j _ (List.getElem?_eq_getElem hj)
  rw [hti, htj] at heq
  obtain rfl := aliasName_inj (hi.trans_le h.1) (hj.trans_le h.1) heq
  rfl

/-- The aliases are all different. -/
theorem Collected.nodup_aliases {tables : List Table} (h : Collected tables) :
    (tables.map Table.tableAlias).Nodup := by
  have haliases : tables.map Table.tableAlias = (List.range tables.length).map aliasName := by
    refine List.ext_getElem (by simp) fun i hi hi' => ?_
    have hlt : i < tables.length := by simpa using hi
    obtain ⟨_, _, _, ht⟩ := h.2 i _ (List.getElem?_eq_getElem hlt)
    rw [List.getElem_map, ht, List.getElem_map, List.getElem_range]
    rfl
  rw [haliases]
  refine List.Nodup.map_on (fun i hi j hj hij => ?_) List.nodup_range
  exact aliasName_inj ((List.mem_range.mp hi).trans_le h.1) ((List.mem_range.mp hj).trans_le h.1) hij

theorem Collected.bare {tables : List Table} (h : Collected tables) {t : Table}
    (ht : t ∈ tables) : t.bare = t := by
  obtain ⟨i, hi, rfl⟩ := List.mem_iff_getElem.mp ht
  obtain ⟨_, _, _, hti⟩ := h.2 i _ (List.getElem?_eq_getElem hi)
  rw [hti]
  rfl

/-- The name of a keyspace fits its buffer. -/
theorem Collected.ks_length {tables : List Table} (h : Collected tables) {t : Table}
    (ht : t ∈ tables) : t.ks.length < 128 := by
  obtain ⟨i, hi, rfl⟩ := List.mem_iff_getElem.mp ht
  obtain ⟨_, _, ks, hti⟩ := h.2 i _ (List.getElem?_eq_getElem hi)
  rw [hti]
  exact length_snprintf_lt (by decide) ks

/-! ## Classes -/

/-- `eql_kind`. -/
inductive Kind where
  | select
  | insert
  | update
  | delete
  | other
deriving DecidableEq

/-- `classify_statement`. The word is cut to 15 bytes. -/
def classifyStatement (sql : CString) : Kind :=
  let word := lower (((skipSpaces sql).takeWhile isIdentChar).take 15)
  if word = cstr "delete" then .delete
  else if word = cstr "update" then .update
  else if word = cstr "insert" ∨ word = cstr "replace" then .insert
  else if word = cstr "select" ∨ word = cstr "values" ∨ word = cstr "explain" then .select
  else .other

/-- The statement may write. -/
def Kind.isDml : Kind → Bool
  | .insert | .update | .delete => true
  | .select | .other => false

/-! ## Columns a statement names -/

/-- `table_add_column`. -/
def tableAddColumn (t : Table) (name : CString) : Table :=
  if name ∈ t.cols.map Prod.fst then t
  else if t.cols.length < maxCols then { t with cols := t.cols ++ [(snprintf 128 name, false)] }
  else t

/-- Add columns to the first table that is meant. -/
def addColumns (meant : Table → Bool) (names : List CString) : List Table → List Table
  | [] => []
  | t :: ts =>
    if meant t then names.foldl tableAddColumn t :: ts else t :: addColumns meant names ts

theorem bare_tableAddColumn (t : Table) (name : CString) : (tableAddColumn t name).bare = t.bare := by
  rw [tableAddColumn]
  split
  · rfl
  · split <;> rfl

/-- What is read off a table without its columns, a column does not change. -/
theorem tableAddColumn_of_bare {meant : Table → Bool} (h : ∀ t, meant t = meant t.bare)
    (t : Table) (name : CString) : meant (tableAddColumn t name) = meant t := by
  rw [h, bare_tableAddColumn, ← h]

/-- The tables with columns added to some of them. -/
def AddsColumns (tables tables' : List Table) : Prop :=
  List.Forall₂ (fun t t' => ∃ names : List CString, t' = names.foldl tableAddColumn t) tables tables'

theorem AddsColumns.refl (tables : List Table) : AddsColumns tables tables :=
  List.forall₂_same.mpr fun _ _ => ⟨[], rfl⟩

theorem AddsColumns.trans {tables tables' tables'' : List Table} (h : AddsColumns tables tables')
    (h' : AddsColumns tables' tables'') : AddsColumns tables tables'' := by
  induction h generalizing tables'' with
  | nil => exact h'
  | cons ht _ ih =>
    cases h' with
    | cons ht' h' =>
      obtain ⟨names, rfl⟩ := ht
      obtain ⟨names', rfl⟩ := ht'
      exact .cons ⟨names ++ names', by rw [List.foldl_append]⟩ (ih h')

/-- What every added column keeps, the tables keep. -/
theorem AddsColumns.forall {tables tables' : List Table} {P : Table → Prop}
    (h : AddsColumns tables tables') (hP : ∀ t name, P t → P (tableAddColumn t name))
    (htables : ∀ t ∈ tables, P t) : ∀ t ∈ tables', P t := by
  have hnames : ∀ (names : List CString) t, P t → P (names.foldl tableAddColumn t) := by
    intro names
    induction names with
    | nil => exact fun _ h => h
    | cons name names ih => exact fun t h => ih _ (hP t name h)
  induction h with
  | nil => exact htables
  | cons ht _ ih =>
    obtain ⟨names, rfl⟩ := ht
    rw [List.forall_mem_cons] at htables ⊢
    exact ⟨hnames names _ htables.1, ih htables.2⟩

theorem AddsColumns.map_bare {tables tables' : List Table} (h : AddsColumns tables tables') :
    tables'.map Table.bare = tables.map Table.bare := by
  have hnames : ∀ (names : List CString) t, (names.foldl tableAddColumn t).bare = t.bare := by
    intro names
    induction names with
    | nil => exact fun _ => rfl
    | cons name names ih => exact fun t => (ih _).trans (bare_tableAddColumn t name)
  induction h with
  | nil => rfl
  | cons ht _ ih =>
    obtain ⟨names, rfl⟩ := ht
    rw [List.map_cons, List.map_cons, ih, hnames]

theorem addsColumns_addColumns (meant : Table → Bool) (names : List CString)
    (tables : List Table) : AddsColumns tables (addColumns meant names tables) := by
  induction tables with
  | nil => exact .nil
  | cons t tables ih =>
    rw [addColumns]
    split
    · exact .cons ⟨names, rfl⟩ (AddsColumns.refl tables)
    · exact .cons ⟨[], rfl⟩ ih

/-- The column list after INTO and a reference. -/
def insertColumns : Nat → CString → List CString × CString
  | 0, s => ([], s)
  | fuel + 1, s =>
    let s := skipSpaces s
    match readIdent 128 s with
    | none => ([], s)
    | some (col, s) =>
      match skipSpaces s with
      | 44 :: s => let (cols, s) := insertColumns fuel s; (col :: cols, s)
      | s => ([col], s)

def scanInsertFrom : Nat → List Table → CString → List Table
  | 0, tables, _ => tables
  | fuel + 1, tables, s =>
    match skipSpaces s with
    | [] => tables
    | c :: t =>
      if opensQuote c then scanInsertFrom fuel tables (skipQuotedRaw c t)
      else if !isIdentChar c then scanInsertFrom fuel tables t
      else
        let rest := (c :: t).dropWhile isIdentChar
        if lower ((c :: t).takeWhile isIdentChar) = cstr "into" then
          match parseRef rest with
          | (none, rest) => scanInsertFrom fuel tables rest
          | (some (db, part, ks), rest) =>
            if tables.any fun t => sameShard t db part ks then
              match skipSpaces rest with
              | 40 :: rest =>
                let (cols, rest) := insertColumns rest.length rest
                scanInsertFrom fuel (addColumns (fun t => sameShard t db part ks) cols tables) rest
              | rest => scanInsertFrom fuel tables rest
            else scanInsertFrom fuel tables rest
        else scanInsertFrom fuel tables rest

/-- `scan_insert_columns`. -/
def scanInsertColumns (sql : CString) (tables : List Table) : List Table :=
  scanInsertFrom sql.length tables sql

/-- What follows the SET keyword, if there is one. -/
def findSet : Nat → CString → Option CString
  | 0, _ => none
  | fuel + 1, s =>
    let s := skipSpaces s
    match s with
    | [] => none
    | _ :: t =>
      match readIdent 128 s with
      | none => findSet fuel t
      | some (word, rest) =>
        if lower word = cstr "as" then
          let rest := skipSpaces rest
          findSet fuel (((readIdent 128 rest).map Prod.snd).getD rest)
        else if lower word = cstr "set" then some rest
        else findSet fuel rest

/-- The keywords that end a SET clause. -/
def clauseWords : List CString :=
  [cstr "where", cstr "returning", cstr "limit", cstr "order", cstr "offset", cstr "from",
    cstr "select", cstr "values"]

/-- The bare names before an `=` of a SET clause, at parenthesis depth 0. -/
def assignedColumns : Nat → Nat → CString → List CString × CString
  | 0, _, s => ([], s)
  | fuel + 1, depth, s =>
    let s := skipSpaces s
    match s with
    | [] => ([], [])
    | c :: t =>
      if opensQuote c then assignedColumns fuel depth (skipQuotedRaw c t)
      else if c = 40 then assignedColumns fuel (depth + 1) t
      else if c = 41 then assignedColumns fuel (depth - 1) t
      else if !isIdentChar c then assignedColumns fuel depth t
      else
        let col := snprintf 128 (s.takeWhile isIdentChar)
        let rest := s.dropWhile isIdentChar
        if depth = 0 ∧ lower col ∈ clauseWords then ([], rest)
        else match skipSpaces rest with
          | 61 :: rest' =>
            if depth = 0 then let (cols, r) := assignedColumns fuel depth rest'; (col :: cols, r)
            else assignedColumns fuel depth rest
          | _ => assignedColumns fuel depth rest

def scanUpdateFrom : Nat → List Table → CString → List Table
  | 0, tables, _ => tables
  | fuel + 1, tables, s =>
    match skipSpaces s with
    | [] => tables
    | c :: t =>
      if opensQuote c then scanUpdateFrom fuel tables (skipQuotedRaw c t)
      else if !isIdentChar c then scanUpdateFrom fuel tables t
      else
        let rest := (c :: t).dropWhile isIdentChar
        if lower ((c :: t).takeWhile isIdentChar) = cstr "update" then
          match parseRef rest with
          | (none, rest) => scanUpdateFrom fuel tables rest
          | (some (db, part, ks), rest) =>
            let meant := fun t : Table => sameShard t db part ks && t.pw == decide (ks = [])
            if tables.any meant then
              match findSet rest.length rest with
              | none => tables
              | some rest =>
                let (cols, rest) := assignedColumns rest.length 0 rest
                scanUpdateFrom fuel (addColumns meant cols tables) rest
            else scanUpdateFrom fuel tables rest
        else scanUpdateFrom fuel tables rest

/-- `scan_update_columns`. -/
def scanUpdateColumns (sql : CString) (tables : List Table) : List Table :=
  scanUpdateFrom sql.length tables sql

/-- The scanners add columns and nothing else. -/
theorem addsColumns_scanInsertFrom (fuel : Nat) (tables : List Table) (s : CString) :
    AddsColumns tables (scanInsertFrom fuel tables s) := by
  induction fuel generalizing tables s with
  | zero => exact .refl tables
  | succ fuel ih =>
    unfold scanInsertFrom
    split
    · exact .refl tables
    · split
      · exact ih ..
      · split
        · exact ih ..
        · dsimp only
          split
          · split
            · exact ih ..
            · split
              · split
                · exact (addsColumns_addColumns ..).trans (ih ..)
                · exact ih ..
              · exact ih ..
          · exact ih ..

theorem addsColumns_scanUpdateFrom (fuel : Nat) (tables : List Table) (s : CString) :
    AddsColumns tables (scanUpdateFrom fuel tables s) := by
  induction fuel generalizing tables s with
  | zero => exact .refl tables
  | succ fuel ih =>
    unfold scanUpdateFrom
    split
    · exact .refl tables
    · split
      · exact ih ..
      · split
        · exact ih ..
        · dsimp only
          split
          · split
            · exact ih ..
            · split
              · split
                · exact .refl tables
                · exact (addsColumns_addColumns ..).trans (ih ..)
              · exact ih ..
          · exact ih ..

/-! ## The rewritten text -/

/-- `n + 1` identifiers with dots between them, joined by dots, and what follows. -/
def readDotted : Nat → CString → Option (CString × CString)
  | 0, s => readIdent 256 s
  | n + 1, s => do
    let (name, s) ← readIdent 256 s
    match skipSpaces s with
    | 46 :: s => do
      let (names, s) ← readDotted n (skipSpaces s)
      return (name ++ cstr "." ++ names, s)
    | _ => none

/-- The alias a reference at the cursor is replaced by, and what follows the reference. A
two-part reference only stands for a partition-wide table. -/
def matchRef (tables : List Table) (s : CString) : Option (CString × CString) :=
  let three := (readDotted 2 s).bind fun r =>
    (tables.find? fun t => snprintf 512 r.1 = t.dotted).map fun t => (t.tableAlias, r.2)
  match three with
  | some r => some r
  | none => (readDotted 1 s).bind fun r =>
      (tables.find? fun t => t.pw && snprintf 512 r.1 = t.dotted).map fun t => (t.tableAlias, r.2)

/-- The bytes of `s` before the rest `r` of it. -/
def upTo (s r : CString) : CString := s.take (s.length - r.length)

def rewriteFrom (tables : List Table) : Nat → CString → CString
  | 0, _ => []
  | _, [] => []
  | fuel + 1, c :: t =>
    let s := c :: t
    let copy := fun rest : CString => upTo s rest ++ rewriteFrom tables fuel rest
    if c = 39 then copy (skipQuotedRaw c t)
    else if (cstr "--").isPrefixOf s then copy (s.dropWhile fun x => x != 10)
    else if (cstr "/*").isPrefixOf s then copy (afterComment (s.drop 2))
    else if !(opensQuote c || isIdentChar c) then copy t
    else match matchRef tables s with
      | some (name, rest) => name ++ rewriteFrom tables fuel rest
      | none =>
        if opensQuote c then copy (skipQuotedRaw c t) else copy (s.dropWhile isIdentChar)

/-- `rewrite_sql`. -/
def rewriteSql (tables : List Table) (sql : CString) : CString :=
  rewriteFrom tables sql.length sql

end EpsilonDB.Eql
