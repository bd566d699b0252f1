import EpsilonDB.Api.Config
import EpsilonDB.Eql.Scan

/-!
# Shadow tables (`eql/epsilon_eql.c`)

A statement runs on an in-memory copy of the shards it references: one table for each
reference, one column for each key of any of its documents.

- `SqlValue`, `Shadow`: what SQLite stores. From an accepted text SQLite creates columns
  without a type, so they store values as they come.
- `fetchDocs`: the documents of a table with the keyspaces they belong to.
- `unionColumns`, `bindJson`: keys to columns, JSON values to SQL values.
- `createSql`, `materialize`: the table and its rows. A row that takes an id replaces the
  row that had it, and a new row gets the rowid after the largest one.
- `columnJson`, `rowToDoc`: the way back.
-/

namespace EpsilonDB.Eql

variable {σ D : Type} [Doubles D]

/-- A value of an SQLite column. -/
inductive SqlValue (D : Type) where
  | null
  | int (i : Int)
  | real (d : D)
  | text (s : CString)
  | blob (b : Bytes)
deriving DecidableEq

/-- A row and its rowid; the id comes first. -/
structure ShadowRow (D : Type) where
  rowid : Int
  id : SqlValue D
  values : List (SqlValue D)
deriving DecidableEq

/-- A shadow table: the names of the columns after `id`, and the rows by rowid. -/
structure Shadow (D : Type) where
  name : CString
  cols : List CString
  rows : List (ShadowRow D)
deriving DecidableEq

/-! ## Documents -/

/-- A document with its id and the keyspace it is written back to. -/
structure Fetched (D : Type) where
  id : CString
  ks : CString
  doc : Json D

section Fetch

variable (B : Backend σ D)

/-- `fetch_shard_docs`: the documents of one shard that are objects. -/
def fetchShardDocs (s : σ) (db part ks : CString) : List (Fetched D) :=
  ((B.readQueryMeta s db part ks none).filter fun r => r.2.2.isObject).map fun r =>
    ⟨r.1, ks, r.2.2⟩

/-- `fetch_docs`: for a partition-wide table those of the first 64 registered keyspaces. -/
def fetchDocs (s : σ) (t : Table) : List (Fetched D) :=
  if t.pw then
    (partitionKeyspaces B s t.db t.part 64).flatMap fun ks => fetchShardDocs B s t.db t.part ks
  else fetchShardDocs B s t.db t.part t.ks

end Fetch

/-! ## Columns -/

/-- A key that is seen again marks its column when it carries a container. -/
def unionColumn (cols : List (CString × Bool)) (m : CString × Json D) : List (CString × Bool) :=
  match cols with
  | [] => []
  | c :: cs => if c.1 = m.1 then (c.1, c.2 || m.2.isContainer) :: cs else c :: unionColumn cs m

/-- One member of a document: an unseen key gets a column while there is room, its name cut
to 127 bytes. -/
def addMember (cols : List (CString × Bool)) (m : CString × Json D) : List (CString × Bool) :=
  if m.1 ∈ cols.map Prod.fst then unionColumn cols m
  else if cols.length < maxCols then cols ++ [(snprintf 128 m.1, m.2.isContainer)]
  else cols

/-- `union_columns`. -/
def unionColumns (t : Table) (doc : Json D) : Table :=
  { t with cols := doc.members.foldl addMember t.cols }

/-- The table with the columns of all its documents. -/
def withColumns (t : Table) (docs : List (Fetched D)) : Table :=
  docs.foldl (fun t f => unionColumns t f.doc) t

/-- The names of the columns after `id`. -/
def Table.names (t : Table) : List CString := (t.cols.drop 1).map Prod.fst

/-! ## Rows -/

section Rows

variable (codec : Codec D)

/-- `bind_json`: a missing member and null are NULL, a Boolean is 0 or 1, an integral number
an integer, a container its printed text. -/
def bindJson : Option (Json D) → SqlValue D
  | none | some .null => .null
  | some (.bool b) => .int (if b then 1 else 0)
  | some (.num d) =>
    if Doubles.inRange d ∧ d = Doubles.ofInt64 (Doubles.toInt64 d) then .int (Doubles.toInt64 d)
    else .real d
  | some (.str s) => .text s
  | some v => .text (codec.print v)

/-- The text of CREATE TABLE, in 4096 bytes. -/
def createSql (t : Table) : Option CString :=
  let text := cstr "CREATE TABLE \"" ++ t.tableAlias ++ cstr "\" (\"id\" TEXT PRIMARY KEY" ++
    t.names.flatMap fun name => cstr ", \"" ++ name ++ cstr "\""
  if 4096 ≤ text.length then none else some ((text ++ cstr ")").take 4095)

/-- The largest rowid. -/
def maxRowid (rows : List (ShadowRow D)) : Int := rows.foldl (fun n r => max n r.rowid) 0

/-- The values of a document under the columns. -/
def docValues (names : List CString) (doc : Json D) : List (SqlValue D) :=
  names.map fun name => bindJson codec (doc.get name)

/-- `eql_rowrec`: where a row came from. -/
structure RowRec where
  table : CString
  rowid : Int
  id : CString
  ks : CString
deriving DecidableEq

/-- `map_add_ks`. -/
def mapAddKs (map : List RowRec) (table : CString) (rowid : Int) (id ks : CString) :
    List RowRec :=
  map ++ [⟨table, rowid, snprintf 512 id, snprintf 128 ks⟩]

/-- `map_take`: the newest record of a row, taken out. -/
def mapTake (map : List RowRec) (table : CString) (rowid : Int) : Option (RowRec × List RowRec) :=
  match map with
  | [] => none
  | e :: es =>
    match mapTake es table rowid with
    | some (r, es) => some (r, e :: es)
    | none => if e.table = table ∧ e.rowid = rowid then some (e, es) else none

/-- `INSERT OR REPLACE` of a document, and its record. -/
def insertDoc (t : Table) (st : List (ShadowRow D) × List RowRec) (f : Fetched D) :
    List (ShadowRow D) × List RowRec :=
  let rowid := maxRowid st.1 + 1
  (st.1.filter (fun r => r.id ≠ .text f.id) ++
      [⟨rowid, .text f.id, docValues codec t.names f.doc⟩],
    mapAddKs st.2 t.tableAlias rowid f.id f.ks)

/-- `materialize`, for a text SQLite accepts. -/
def materialize (t : Table) (docs : List (Fetched D)) (map : List RowRec) :
    Shadow D × List RowRec :=
  let st := docs.foldl (insertDoc codec t) ([], map)
  (⟨t.tableAlias, t.names, st.1⟩, st.2)

/-! ## The way back -/

/-- The two hexadecimal digits of a byte. -/
def hexByte (b : UInt8) : CString :=
  let digits := cstr "0123456789abcdef"
  [digits.getD (b.toNat / 16) 0, digits.getD (b.toNat % 16) 0]

/-- A column as JSON, the text as it is. -/
def columnJson : SqlValue D → Json D
  | .null => .null
  | .int i => .num (Doubles.ofInt64 i)
  | .real d => .num d
  | .text s => .str s
  | .blob b => .str (b.flatMap hexByte)

/-- A column of a row that is written back: the text of a marked column is parsed. -/
def storedJson (marked : Bool) : SqlValue D → Json D
  | .text s => if marked then (codec.parse s).getD (.str s) else .str s
  | v => columnJson v

/-- `row_to_doc`. -/
def rowToDoc (t : Table) (values : List (SqlValue D)) : Json D :=
  .obj (((t.cols.drop 1).zip values).map fun e => (e.1.1, storedJson codec e.1.2 e.2))

end Rows

end EpsilonDB.Eql
