import EpsilonDB.Engine.Json
import EpsilonDB.Engine.JsonPath
import EpsilonDB.Lib.SqlWhere

/-!
# The live query (`prepare_live_query`)

A list of filters becomes one SQL statement: a text put together from a fragment for each
filter, and values bound to its parameters in a second loop.

- `Filter`, `edbFilters`: what `edb_filters_valid` accepts.
- `buildQuery`: the text, in a buffer of `queryCapacity` bytes; `buildQuery_eq`: nothing of it
  is cut off.
- `filterBindings`, `queryBindings`: the values, in the order in which they are bound.
- `sqlitePrepare`: the statement SQLite makes of a text, within its limits.
- `liveSelect`: the statement of a query; `sqlitePrepare_query`: it is made iff there are at
  most 498 filters.
- `filterBindings_eq`: each parameter is bound to what belongs in its place.
-/

namespace EpsilonDB

variable {D : Type}

/-! ## Filters -/

inductive FilterOp where
  | eq
  | ne
  | gt
  | gte
  | lt
  | lte
deriving DecidableEq

/-- `filter_operator_valid`, and the operator of the name. -/
def filterOperator (name : CString) : Option FilterOp :=
  if name = cstr "eq" then some .eq
  else if name = cstr "ne" then some .ne
  else if name = cstr "gt" then some .gt
  else if name = cstr "gte" then some .gte
  else if name = cstr "lt" then some .lt
  else if name = cstr "lte" then some .lte
  else none

/-- The operators that want a number. -/
def FilterOp.ordering : FilterOp → Bool
  | .eq | .ne => false
  | .gt | .gte | .lt | .lte => true

/-- `cJSON_IsNumber`. -/
def Json.isNumber : Json D → Bool
  | .num _ => true
  | _ => false

/-- A filter that has passed `filter_valid`. -/
structure Filter (D : Type) where
  key : CString
  op : FilterOp
  value : Json D
  key_valid : filterKeyValid key = true
  number : op.ordering = true → value.isNumber = true

/-- `filter_valid`, with the fields it checks. -/
def filterValid (filter : Json D) : Option (Filter D) :=
  match filter.getStr (cstr "key"), (filter.getStr (cstr "operator")).bind filterOperator,
    filter.get (cstr "value") with
  | some key, some op, some value =>
    if h : filterKeyValid key = true ∧ (op.ordering = true → value.isNumber = true) then
      some ⟨key, op, value, h.1, h.2⟩
    else none
  | _, _, _ => none

/-- `edb_filters_valid`: none, one filter, or an array of them. -/
def edbFilters (filters : Option (Json D)) : Option (List (Filter D)) :=
  match filters with
  | none => some []
  | some (.arr xs) => xs.mapM filterValid
  | some (.obj ms) => (filterValid (.obj ms)).map fun f => [f]
  | some _ => none

/-! ## The text -/

/-- The statements the query is prepared for: `edb_shard_ids`, and `collect_values` with and
without `meta`. -/
inductive Reader where
  | ids
  | rows
  | values
deriving DecidableEq

def Reader.select : Reader → CString
  | .ids => cstr "SELECT id FROM Data WHERE"
  | .rows => cstr "SELECT id, value, timestamp FROM Data WHERE"
  | .values => cstr "SELECT value FROM Data WHERE"

def Reader.orderByTimestamp : Reader → Bool
  | .ids => true
  | .rows | .values => false

def liveCondition : CString := cstr " (ttl IS NULL OR ttl >= ?)"

def orderBy : CString := cstr " ORDER BY timestamp ASC"

def sqlOperator : FilterOp → CString
  | .eq => cstr "="
  | .ne => cstr "<>"
  | .gt => cstr ">"
  | .gte => cstr ">="
  | .lt => cstr "<"
  | .lte => cstr "<="

/-- The condition a filter adds; a comparison is printed into 160 bytes. -/
def fragment : FilterOp → CString
  | .eq => cstr " AND json_type(value, ?) IS json_type(?, '$')" ++
      cstr " AND json_extract(value, ?) IS json_extract(?, '$')"
  | .ne => cstr " AND json_type(value, ?) IS NOT NULL" ++
      cstr " AND (json_type(value, ?) IS NOT json_type(?, '$')" ++
      cstr " OR json_extract(value, ?) IS NOT json_extract(?, '$'))"
  | op => snprintf 160 (cstr " AND json_type(value, ?) IN ('integer','real')" ++
      cstr " AND json_extract(value, ?) " ++ sqlOperator op ++ cstr " json_extract(?, '$')")

/-- `strlen(select) + count * 256 + 96`. -/
def queryCapacity (select : CString) (count : Nat) : Nat := select.length + count * 256 + 96

/-- The loop over the filters: the text and its `length` so far. -/
def appendFragments (capacity : Nat) : CString → Nat → List FilterOp → Option (CString × Nat)
  | sql, length, [] => some (sql, length)
  | sql, length, op :: ops =>
    if capacity - length ≤ (fragment op).length then none
    else appendFragments capacity (sql.take length ++ fragment op)
      (length + (fragment op).length) ops

/-- The text of the statement; nothing when a fragment does not fit. -/
def buildQuery (select : CString) (ops : List FilterOp) (orderByTimestamp : Bool) :
    Option CString :=
  if (2 ^ 64 - 1 - select.length - 96) / 256 < ops.length then none
  else
    let capacity := queryCapacity select ops.length
    let start := select ++ liveCondition
    match appendFragments capacity (snprintf capacity start) start.length ops with
    | none => none
    | some (sql, length) =>
      some (if orderByTimestamp then sql.take length ++ snprintf (capacity - length) orderBy
        else sql)

/-- The text as it is meant. -/
def queryText (q : Reader) (ops : List FilterOp) : CString :=
  q.select ++ liveCondition ++ ops.flatMap fragment ++
    if q.orderByTimestamp then orderBy else []

theorem length_fragment_le (op : FilterOp) : (fragment op).length ≤ 141 := by
  cases op <;> decide +kernel

theorem length_flatMap_fragment_le (ops : List FilterOp) :
    (ops.flatMap fragment).length ≤ ops.length * 141 := by
  induction ops with
  | nil => exact Nat.le_refl 0
  | cons op ops ih =>
    have hop := length_fragment_le op
    rw [List.flatMap_cons, List.length_append, List.length_cons]
    omega

/-- The fragments all fit where there are 256 bytes for each. -/
theorem appendFragments_eq {capacity : Nat} {sql : CString} (ops : List FilterOp)
    (hroom : sql.length + ops.length * 256 < capacity) :
    appendFragments capacity sql sql.length ops =
      some (sql ++ ops.flatMap fragment, (sql ++ ops.flatMap fragment).length) := by
  induction ops generalizing sql with
  | nil => simp [appendFragments]
  | cons op ops ih =>
    have hop := length_fragment_le op
    rw [List.length_cons] at hroom
    have hlength : (sql ++ fragment op).length = sql.length + (fragment op).length :=
      List.length_append
    rw [appendFragments, if_neg (by omega), List.take_length, ← hlength, ih (by omega),
      List.flatMap_cons, List.append_assoc]

/-- **The text fits its buffer** and nothing is cut off. -/
theorem buildQuery_eq (q : Reader) {ops : List FilterOp} (hcount : ops.length ≤ 2 ^ 55) :
    buildQuery q.select ops q.orderByTimestamp = some (queryText q ops) ∧
      (queryText q ops).length < queryCapacity q.select ops.length := by
  have hselect : q.select.length ≤ 43 := by cases q <;> decide
  have hlive : liveCondition.length = 26 := by decide
  have horder : orderBy.length = 23 := by decide
  have hfragments := length_flatMap_fragment_le ops
  have hstart : (q.select ++ liveCondition).length = q.select.length + 26 := by
    rw [List.length_append, hlive]
  have hguard : ¬ (2 ^ 64 - 1 - q.select.length - 96) / 256 < ops.length := by omega
  constructor
  · unfold buildQuery
    rw [if_neg hguard]
    dsimp only
    rw [snprintf_of_lt (by rw [hstart, queryCapacity]; omega),
      appendFragments_eq ops (by rw [hstart, queryCapacity]; omega)]
    dsimp only
    rw [queryText]
    cases hordered : q.orderByTimestamp
    · rw [if_neg Bool.false_ne_true, if_neg Bool.false_ne_true, List.append_nil]
    · rw [if_pos rfl, if_pos rfl, List.take_length, snprintf_of_lt]
      rw [List.length_append, hstart, horder, queryCapacity]
      omega
  · rw [queryText, List.length_append, List.length_append, hstart, queryCapacity]
    split
    · rw [horder]
      omega
    · rw [List.length_nil]
      omega

/-! ## The statement -/

/-- `SQLITE_MAX_EXPR_DEPTH`. -/
def maxExprDepth : Nat := 1000

/-- `SQLITE_MAX_VARIABLE_NUMBER`. -/
def maxVariableNumber : Nat := 32766

/-- `sqlite3_prepare_v2`, within the limits of expressions and parameters. -/
def sqlitePrepare (sql : CString) : Option Sql.Select :=
  ((Sql.tokenize sql).bind Sql.parseSelect).filter fun q =>
    decide (q.depth ≤ maxExprDepth) && decide (Sql.allParams q.conds ≤ maxVariableNumber)

/-- `fn(value, ?)`. -/
def atPath (fn : String) : Sql.Operand := .call (cstr fn) (.column (cstr "value")) .param

/-- `fn(?, '$')`. -/
def ofValue (fn : String) : Sql.Operand := .call (cstr fn) .param (.text (cstr "$"))

/-- The comparison the fragment of an operator makes. -/
def FilterOp.comparison : FilterOp → Sql.Comparison
  | .eq => .eq
  | .ne => .ne
  | .gt => .gt
  | .gte => .ge
  | .lt => .lt
  | .lte => .le

/-- The conditions a fragment is the text of. -/
def fragmentConds : FilterOp → List Sql.Cond
  | .eq => [.test (.is (atPath "json_type") (ofValue "json_type")),
      .test (.is (atPath "json_extract") (ofValue "json_extract"))]
  | .ne => [.test (.isNotNull (atPath "json_type")),
      .either (.isNot (atPath "json_type") (ofValue "json_type"))
        (.isNot (atPath "json_extract") (ofValue "json_extract"))]
  | op => [.test (.isIn (atPath "json_type") [cstr "integer", cstr "real"]),
      .test (.compare op.comparison (atPath "json_extract") (ofValue "json_extract"))]

/-- `(ttl IS NULL OR ttl >= ?)`. -/
def liveCond : Sql.Cond :=
  .either (.isNull (.atom (.column (cstr "ttl"))))
    (.compare .ge (.atom (.column (cstr "ttl"))) (.atom .param))

/-- The tokens of a select list, up to the name of the table. -/
def Reader.head : Reader → List Sql.Token
  | .ids => [.keyword .selectK, .name (cstr "id"), .keyword .fromK, .name (cstr "Data")]
  | .rows => [.keyword .selectK, .name (cstr "id"), .comma, .name (cstr "value"), .comma,
      .name (cstr "timestamp"), .keyword .fromK, .name (cstr "Data")]
  | .values => [.keyword .selectK, .name (cstr "value"), .keyword .fromK, .name (cstr "Data")]

/-- The statement of a query. -/
def liveSelect (q : Reader) (ops : List FilterOp) : Sql.Select where
  head := q.head
  conds := liveCond :: ops.flatMap fragmentConds
  orderBy := if q.orderByTimestamp then some (cstr "timestamp") else none

/-! ### Reading the text -/

/-- `fn(value, ?)` in tokens. -/
def atPathTokens (fn : String) : List Sql.Token :=
  [.name (cstr fn), .lparen, .name (cstr "value"), .comma, .param, .rparen]

/-- `fn(?, '$')` in tokens. -/
def ofValueTokens (fn : String) : List Sql.Token :=
  [.name (cstr fn), .lparen, .param, .comma, .text (cstr "$"), .rparen]

/-- The conditions of a fragment with their tokens. -/
def fragmentItems : FilterOp → List (List Sql.Token × Sql.Cond)
  | .eq => [
      (atPathTokens "json_type" ++ .keyword .isK :: ofValueTokens "json_type",
        .test (.is (atPath "json_type") (ofValue "json_type"))),
      (atPathTokens "json_extract" ++ .keyword .isK :: ofValueTokens "json_extract",
        .test (.is (atPath "json_extract") (ofValue "json_extract")))]
  | .ne => [
      (atPathTokens "json_type" ++ [.keyword .isK, .keyword .notK, .keyword .nullK],
        .test (.isNotNull (atPath "json_type"))),
      (.lparen :: atPathTokens "json_type" ++ .keyword .isK :: .keyword .notK ::
          ofValueTokens "json_type" ++ .keyword .orK :: atPathTokens "json_extract" ++
          .keyword .isK :: .keyword .notK :: ofValueTokens "json_extract" ++ [.rparen],
        .either (.isNot (atPath "json_type") (ofValue "json_type"))
          (.isNot (atPath "json_extract") (ofValue "json_extract")))]
  | op => [
      (atPathTokens "json_type" ++ [.keyword .inK, .lparen, .text (cstr "integer"), .comma,
          .text (cstr "real"), .rparen],
        .test (.isIn (atPath "json_type") [cstr "integer", cstr "real"])),
      (atPathTokens "json_extract" ++ .comparison op.comparison :: ofValueTokens "json_extract",
        .test (.compare op.comparison (atPath "json_extract") (ofValue "json_extract")))]

def liveTokens : List Sql.Token :=
  [.lparen, .name (cstr "ttl"), .keyword .isK, .keyword .nullK, .keyword .orK,
    .name (cstr "ttl"), .comparison .ge, .param, .rparen]

theorem run_fragment (op : FilterOp) :
    Sql.run .between (fragment op) = (.between, Sql.joined (fragmentItems op)) := by
  cases op <;> decide +kernel

theorem run_select (q : Reader) :
    Sql.run .between (q.select ++ liveCondition) =
      (.between, q.head ++ .keyword .whereK :: liveTokens) := by
  cases q <;> decide +kernel

theorem reads_liveTokens : Sql.Reads liveTokens liveCond := fun _ => rfl

theorem reads_fragmentItems (op : FilterOp) :
    ∀ i ∈ fragmentItems op, Sql.Reads i.1 i.2 := by
  have hpair : ∀ a b : List Sql.Token × Sql.Cond, Sql.Reads a.1 a.2 → Sql.Reads b.1 b.2 →
      ∀ i ∈ [a, b], Sql.Reads i.1 i.2 := by
    intro a b ha hb i hi
    rcases List.mem_pair.mp hi with rfl | rfl
    · exact ha
    · exact hb
  cases op <;> exact hpair _ _ (fun _ => rfl) (fun _ => rfl)

theorem map_snd_fragmentItems (op : FilterOp) :
    (fragmentItems op).map Prod.snd = fragmentConds op := by
  cases op <;> rfl

theorem joined_flatMap_fragmentItems (ops : List FilterOp) :
    Sql.joined (ops.flatMap fragmentItems) =
      ops.flatMap fun op => Sql.joined (fragmentItems op) := by
  rw [Sql.joined, List.flatMap_assoc]
  rfl

/-- The tokens of the whole text. -/
theorem tokenize_queryText (q : Reader) (ops : List FilterOp) :
    Sql.tokenize (queryText q ops) = some (q.head ++ .keyword .whereK ::
      (liveTokens ++ Sql.joined (ops.flatMap fragmentItems) ++
        if q.orderByTimestamp then [.keyword .orderK, .keyword .byK, .name (cstr "timestamp"),
          .keyword .ascK] else [])) := by
  have hpieces := Sql.run_flatMap run_fragment ops
  rw [← joined_flatMap_fragmentItems] at hpieces
  have hend : Sql.run .between (if q.orderByTimestamp then orderBy else []) =
      if q.orderByTimestamp then (.word (cstr "ASC"), [.keyword .orderK, .keyword .byK,
        .name (cstr "timestamp")]) else (.between, []) := by
    cases q <;> decide +kernel
  rw [queryText, Sql.tokenize, Sql.run_append, Sql.run_append, run_select, hpieces, hend]
  cases q.orderByTimestamp
  · show some _ = some _
    simp
  · have hasc : Sql.finish (.word (cstr "ASC")) = some [.keyword .ascK] := by decide +kernel
    simp [hasc]

/-- SQLite reads the conditions of the fragments, one after the other. -/
theorem parse_queryText (q : Reader) (ops : List FilterOp) :
    (Sql.tokenize (queryText q ops)).bind Sql.parseSelect = some (liveSelect q ops) := by
  rw [tokenize_queryText, Option.bind_some, Sql.parseSelect]
  have hwhere : ∀ ts, Sql.splitWhere (q.head ++ .keyword .whereK :: ts) = some (q.head, ts) := by
    intro ts
    cases q <;> rfl
  have hitems : ∀ i ∈ ops.flatMap fragmentItems, Sql.Reads i.1 i.2 := by
    intro i hi
    obtain ⟨op, -, hop⟩ := List.mem_flatMap.mp hi
    exact reads_fragmentItems op i hop
  have hconds : (ops.flatMap fragmentItems).map Prod.snd = ops.flatMap fragmentConds := by
    rw [List.map_flatMap]
    exact List.flatMap_congr fun op _ => map_snd_fragmentItems op
  have hlength := Sql.length_le_joined (ops.flatMap fragmentItems)
  rw [hwhere]
  dsimp only
  rw [Sql.parseConds_of_reads reads_liveTokens hitems, hconds]
  · dsimp only
    rw [liveSelect]
    cases q.orderByTimestamp <;> rfl
  · cases q.orderByTimestamp <;> simp
  · rw [List.length_append, List.length_append, liveTokens, List.length_cons]
    omega

/-! ### Its limits -/

theorem depthFrom_fragmentConds {h : Nat} (hh : 3 ≤ h) (op : FilterOp) :
    Sql.depthFrom h (fragmentConds op) = h + 2 := by
  cases op <;>
    simp only [fragmentConds, Sql.depthFrom, List.foldl_cons, List.foldl_nil, Sql.Cond.depth,
      Sql.Test.depth, Sql.Operand.depth, atPath, ofValue] <;> omega

/-- Every filter adds two conditions to the left-leaning conjunction. -/
theorem depth_liveSelect (q : Reader) (ops : List FilterOp) :
    (liveSelect q ops).depth = 2 * ops.length + 3 := by
  have hfrom : ∀ h, 3 ≤ h →
      Sql.depthFrom h (ops.flatMap fragmentConds) = h + 2 * ops.length := by
    induction ops with
    | nil => exact fun h _ => rfl
    | cons op ops ih =>
      intro h hh
      rw [List.flatMap_cons, Sql.depthFrom_append, depthFrom_fragmentConds hh,
        ih (h + 2) (by omega), List.length_cons]
      omega
  show Sql.depthFrom liveCond.depth (ops.flatMap fragmentConds) = _
  rw [hfrom liveCond.depth (by decide)]
  show 3 + 2 * ops.length = _
  omega

theorem allParams_fragmentConds_le (op : FilterOp) : Sql.allParams (fragmentConds op) ≤ 5 := by
  cases op <;> decide

theorem allParams_flatMap_le (ops : List FilterOp) :
    Sql.allParams (ops.flatMap fragmentConds) ≤ 5 * ops.length := by
  induction ops with
  | nil => exact Nat.le_refl 0
  | cons op ops ih =>
    have hop := allParams_fragmentConds_le op
    rw [List.flatMap_cons, Sql.allParams_append, List.length_cons]
    omega

/-- **The statement is made** of up to 498 filters: then its tree gets too high. -/
theorem sqlitePrepare_query (q : Reader) (ops : List FilterOp) :
    sqlitePrepare (queryText q ops) =
      if ops.length ≤ 498 then some (liveSelect q ops) else none := by
  have hparams := allParams_flatMap_le ops
  have hall : Sql.allParams (liveSelect q ops).conds =
      1 + Sql.allParams (ops.flatMap fragmentConds) := Sql.allParams_cons _ _
  rw [sqlitePrepare, parse_queryText, Option.filter_some, depth_liveSelect, maxExprDepth,
    maxVariableNumber]
  split
  · next hlimits =>
    rw [if_pos]
    simp only [Bool.and_eq_true, decide_eq_true_eq] at hlimits
    omega
  · next hlimits =>
    rw [if_neg]
    simp only [Bool.and_eq_true, decide_eq_true_eq] at hlimits
    omega

/-! ## The values -/

/-- What `sqlite3_bind_int64` and `sqlite3_bind_text` are given. -/
inductive BoundValue where
  | int (i : Int)
  | text (s : CString)
deriving DecidableEq

/-- `json_path_for_key`. What the code does after it has written past the end of its buffer
is undefined: there is no path then. -/
def boundPath (key : CString) : Option CString :=
  if (jsonPathStores key).length ≤ pathCapacity key then jsonPathForKey key else none

variable [Doubles D] (codec : Codec D)

/-- The values the second loop binds for a filter. -/
def filterBindings (f : Filter D) : Option (List CString) :=
  (boundPath f.key).map fun path =>
    let encodedValue := codec.print f.value
    match f.op with
    | .eq => [path, encodedValue, path, encodedValue]
    | .ne => [path, path, encodedValue, path, encodedValue]
    | .gt | .gte | .lt | .lte => [path, path, encodedValue]

/-- All values, from parameter 1 on. -/
def queryBindings (now : Int) (fs : List (Filter D)) : Option (List BoundValue) :=
  (fs.mapM (filterBindings codec)).map fun values =>
    .int now :: values.flatten.map .text

/-- `prepare_live_query`: the statement and the values of its parameters. -/
def prepareLiveQuery (now : Int) (q : Reader) (filters : Option (Json D)) :
    Option (Sql.Select × List BoundValue) := do
  let fs ← edbFilters filters
  let sql ← buildQuery q.select (fs.map Filter.op) q.orderByTimestamp
  let statement ← sqlitePrepare sql
  let values ← queryBindings codec now fs
  return (statement, values)

/-! ### Their places -/

/-- What belongs at the parameter of a call: a path where the call looks into the row, the
encoded value where it reads that. -/
def operandValues (path encodedValue : CString) : Sql.Operand → List CString
  | .call _ (.column _) .param => [path]
  | .call _ .param (.text _) => [encodedValue]
  | _ => []

def testValues (path encodedValue : CString) : Sql.Test → List CString
  | .isNull x | .isNotNull x | .isIn x _ => operandValues path encodedValue x
  | .is x y | .isNot x y | .compare _ x y =>
    operandValues path encodedValue x ++ operandValues path encodedValue y

def condValues (path encodedValue : CString) : Sql.Cond → List CString
  | .test t => testValues path encodedValue t
  | .either t u => testValues path encodedValue t ++ testValues path encodedValue u

/-- What belongs at the parameters of a filter, in the order of its fragment. -/
def filterValues (f : Filter D) : List CString :=
  (fragmentConds f.op).flatMap (condValues (pathText f.key) (codec.print f.value))

theorem length_filterValues (f : Filter D) :
    (filterValues codec f).length = Sql.allParams (fragmentConds f.op) := by
  rw [filterValues]
  cases f.op <;> rfl

/-- The path is built in its buffer. -/
theorem boundPath_eq {key : CString} (h : filterKeyValid key = true) :
    boundPath key = if key.count 46 < plainBytes key then some (pathText key) else none := by
  have hstores := length_jsonPathStores key
  rw [boundPath, jsonPathForKey_of_valid h, pathCapacity]
  split
  · rw [if_pos (by omega)]
  · rw [if_neg (by omega)]

/-- The path of the key is built in its buffer: there are fewer dots than plain bytes. -/
def Filter.PathFits (f : Filter D) : Prop := f.key.count 46 < plainBytes f.key

instance (f : Filter D) : Decidable f.PathFits :=
  inferInstanceAs (Decidable (f.key.count 46 < plainBytes f.key))

/-- **Each parameter gets what belongs there.** -/
theorem filterBindings_eq (f : Filter D) :
    filterBindings codec f =
      if f.PathFits then some (filterValues codec f) else none := by
  have hpath : boundPath f.key = if f.PathFits then some (pathText f.key) else none :=
    boundPath_eq f.key_valid
  rw [filterBindings, hpath, filterValues]
  by_cases hfits : f.PathFits
  · rw [if_pos hfits, if_pos hfits]
    cases f.op <;> rfl
  · rw [if_neg hfits, if_neg hfits]
    rfl

theorem mapM_filterBindings (fs : List (Filter D)) :
    fs.mapM (filterBindings codec) =
      if ∀ f ∈ fs, f.PathFits then some (fs.map (filterValues codec))
      else none := by
  induction fs with
  | nil =>
    rw [if_pos fun f hf => absurd hf List.not_mem_nil]
    rfl
  | cons f fs ih =>
    rw [List.mapM_cons, filterBindings_eq, ih]
    simp only [List.forall_mem_cons]
    by_cases hf : f.PathFits
    · rw [if_pos hf]
      by_cases hfs : ∀ g ∈ fs, g.PathFits
      · rw [if_pos hfs, if_pos ⟨hf, hfs⟩]
        rfl
      · have hnot : ¬ (f.PathFits ∧ ∀ g ∈ fs, g.PathFits) := fun h => hfs h.2
        rw [if_neg hfs, if_neg hnot]
        rfl
    · have hnot : ¬ (f.PathFits ∧ ∀ g ∈ fs, g.PathFits) := fun h => hf h.1
      rw [if_neg hf, if_neg hnot]
      rfl

/-- The values of a list, in the order of its text. -/
def queryValues (now : Int) (fs : List (Filter D)) : List BoundValue :=
  .int now :: (fs.flatMap (filterValues codec)).map .text

/-- The values are bound when every path is built in its buffer. -/
theorem queryBindings_eq (now : Int) (fs : List (Filter D)) :
    queryBindings codec now fs =
      if ∀ f ∈ fs, f.PathFits then some (queryValues codec now fs) else none := by
  rw [queryBindings, mapM_filterBindings]
  split
  · rw [Option.map_some, queryValues, List.flatMap_def]
  · rfl

/-- **There are as many values as parameters.** -/
theorem length_queryValues (q : Reader) (now : Int) (fs : List (Filter D)) :
    (queryValues codec now fs).length =
      Sql.allParams (liveSelect q (fs.map Filter.op)).conds := by
  have hfilters : (fs.flatMap (filterValues codec)).length =
      Sql.allParams ((fs.map Filter.op).flatMap fragmentConds) := by
    induction fs with
    | nil => rfl
    | cons f fs ih =>
      rw [List.flatMap_cons, List.length_append, length_filterValues, ih, List.map_cons,
        List.flatMap_cons, Sql.allParams_append]
  rw [queryValues, liveSelect, Sql.allParams_cons, List.length_cons, List.length_map, hfilters]
  exact Nat.add_comm _ _

variable {codec}

/-- **The query is prepared** when there are not too many filters and all paths are built. -/
theorem prepareLiveQuery_eq {filters : Option (Json D)} {fs : List (Filter D)}
    (hfilters : edbFilters filters = some fs) {q : Reader}
    (htext : buildQuery q.select (fs.map Filter.op) q.orderByTimestamp =
      some (queryText q (fs.map Filter.op))) (now : Int) :
    prepareLiveQuery codec now q filters =
      if fs.length ≤ 498 ∧ ∀ f ∈ fs, f.PathFits then
        some (liveSelect q (fs.map Filter.op), queryValues codec now fs)
      else none := by
  rw [prepareLiveQuery, hfilters, Option.bind_eq_bind, Option.bind_some, htext,
    Option.bind_eq_bind, Option.bind_some, sqlitePrepare_query, List.length_map,
    queryBindings_eq]
  by_cases hcount : fs.length ≤ 498
  · by_cases hpaths : ∀ f ∈ fs, f.PathFits
    · rw [if_pos hcount, if_pos hpaths, if_pos ⟨hcount, hpaths⟩]
      rfl
    · rw [if_pos hcount, if_neg hpaths, if_neg fun h => hpaths h.2]
      rfl
  · have hnot : ¬ (fs.length ≤ 498 ∧ ∀ f ∈ fs, f.PathFits) := fun h => hcount h.1
    rw [if_neg hcount, if_neg hnot]
    rfl

end EpsilonDB
