import EpsilonDB.Engine.Filters
import EpsilonDB.Engine.Shard

/-!
# What the live query selects (`prepare_live_query`)

The statement is run on the rows of a shard. SQLite's `json_type` and `json_extract` are
taken as documented, on the texts the vendored printer writes.

- `SqlValue`, `jsonType`, `jsonExtract`, `sqlMeaning`: the values of SQL, the two functions,
  and what the clause refers to in a row.
- `Filter.satisfied`: what a filter says about a document, without SQL.
- `Filter.encoded`: what it says with the value that its printed text stands for.
- `selectedRows_eq`: the statement selects the live rows whose documents satisfy the encoded
  filters.
- `CompiledExactly`, `compiledExactly_iff`: the text, the values and the rows are right for a
  list of filters, and when.
-/

namespace EpsilonDB

variable {D : Type}

/-! ## The JSON functions -/

inductive SqlValue (D : Type) where
  | null
  | int (i : Int)
  | num (d : D)
  | text (s : CString)

/-- The element some labels lead to. -/
def Json.at (v : Json D) : List CString → Option (Json D)
  | [] => some v
  | label :: labels =>
    match v.get label with
    | none => none
    | some w => w.at labels

/-- The name of a type; `isInteger` tells the numbers whose texts have neither a point nor an
exponent. -/
def typeName (isInteger : D → Bool) : Json D → CString
  | .null => cstr "null"
  | .bool b => if b then cstr "true" else cstr "false"
  | .num d => if isInteger d then cstr "integer" else cstr "real"
  | .str _ => cstr "text"
  | .arr _ => cstr "array"
  | .obj _ => cstr "object"

/-- The kind of a value, and the kind a type name stands for. -/
def Json.kind : Json D → Nat
  | .null => 0
  | .bool _ => 1
  | .num _ => 2
  | .str _ => 3
  | .arr _ => 4
  | .obj _ => 5

def kindOfName (name : CString) : Nat :=
  if name = cstr "null" then 0
  else if name = cstr "integer" ∨ name = cstr "real" then 2
  else if name = cstr "text" then 3
  else if name = cstr "array" then 4
  else if name = cstr "object" then 5
  else 1

theorem kindOfName_typeName (isInteger : D → Bool) (m : Json D) :
    kindOfName (typeName isInteger m) = m.kind := by
  cases m with
  | null => rfl
  | bool b =>
    show kindOfName (if b then cstr "true" else cstr "false") = 1
    cases b <;> decide
  | num d =>
    show kindOfName (if isInteger d then cstr "integer" else cstr "real") = 2
    cases isInteger d <;> decide
  | str s => rfl
  | arr xs => rfl
  | obj ms => rfl

/-- The number types are those of the numbers. -/
theorem isNumber_of_typeName (isInteger : D → Bool) {m : Json D} :
    (typeName isInteger m = cstr "integer" ∨ typeName isInteger m = cstr "real") ↔
      m.isNumber = true := by
  have hkind : m.kind = 2 ↔ m.isNumber = true := by
    cases m <;> simp [Json.kind, Json.isNumber]
  rw [← hkind, ← kindOfName_typeName isInteger]
  constructor
  · rintro (h | h) <;> rw [h] <;> decide
  · intro h
    cases m with
    | num d =>
      show (if isInteger d then cstr "integer" else cstr "real") = _ ∨
        (if isInteger d then cstr "integer" else cstr "real") = _
      cases isInteger d
      · exact .inr rfl
      · exact .inl rfl
    | null | bool _ | str _ | arr _ | obj _ =>
      rw [kindOfName_typeName] at h
      cases h

/-- The columns of a row that the clause names. -/
def Row.column (r : Row) (name : CString) : SqlValue D :=
  if name = cstr "value" then
    match r.value with
    | none => .null
    | some text => .text text
  else if name = cstr "ttl" then
    match r.ttl with
    | none => .null
    | some t => .int t
  else .null

/-- The value of a parameter. -/
def BoundValue.value : BoundValue → SqlValue D
  | .int i => .int i
  | .text s => .text s

section Functions

variable [Doubles D] (codec : Codec D) (isInteger : D → Bool)

/-- `IS`. -/
def SqlValue.same : SqlValue D → SqlValue D → Bool
  | .null, .null => true
  | .int i, .int j => decide (i = j)
  | .num x, .num y => decide (x = y)
  | .int i, .num y => decide (Doubles.ofInt64 i = y)
  | .num x, .int j => decide (x = Doubles.ofInt64 j)
  | .text s, .text t => decide (s = t)
  | _, _ => false

/-- `IS NULL`. -/
def SqlValue.isNull : SqlValue D → Bool
  | .null => true
  | _ => false

/-- The SQL value of an element: an array or an object is its text. -/
def sqlValue : Json D → SqlValue D
  | .null => .null
  | .bool b => .int (if b then 1 else 0)
  | .num d => .num d
  | .str s => .text s
  | .arr xs => .text (codec.print (.arr xs))
  | .obj ms => .text (codec.print (.obj ms))

/-- The element a path leads to in a JSON text. -/
def jsonElement : SqlValue D → SqlValue D → Option (Json D)
  | .text s, .text path =>
    match codec.parse s, readPath path with
    | some v, some labels => v.at labels
    | _, _ => none
  | _, _ => none

/-- `json_type(X, P)`. -/
def jsonType (x path : SqlValue D) : SqlValue D :=
  match jsonElement codec x path with
  | none => .null
  | some m => .text (typeName isInteger m)

/-- `json_extract(X, P)`. -/
def jsonExtract (x path : SqlValue D) : SqlValue D :=
  match jsonElement codec x path with
  | none => .null
  | some m => sqlValue codec m

/-- The functions the clause calls. -/
def sqlCall (fn : CString) (x y : SqlValue D) : SqlValue D :=
  if fn = cstr "json_type" then jsonType codec isInteger x y
  else if fn = cstr "json_extract" then jsonExtract codec x y
  else .null

theorem sqlCall_type (x y : SqlValue D) :
    sqlCall codec isInteger (cstr "json_type") x y = jsonType codec isInteger x y := by
  rw [sqlCall, if_pos rfl]

theorem sqlCall_extract (x y : SqlValue D) :
    sqlCall codec isInteger (cstr "json_extract") x y = jsonExtract codec x y := by
  have hname : cstr "json_extract" ≠ cstr "json_type" := by decide
  rw [sqlCall, if_neg hname, if_pos rfl]

/-! ### Printed values -/

/-- The value the printed text of a value stands for. -/
def printedValue (v : Json D) : Json D := (codec.parse (codec.print v)).getD .null

/-- The text of a value is JSON that is read and printed again as it is; a number is printed
as a number or, when it is not finite, as null. -/
structure Printable (v : Json D) : Prop where
  parses : codec.parse (codec.print v) = some (printedValue codec v)
  keeps : codec.Keeps (printedValue codec v)
  number : v.isNumber = true →
    (printedValue codec v).isNumber = true ∨ printedValue codec v = .null

/-- A document as the printer leaves it: so are its elements. -/
def Stored (doc : Json D) : Prop := ∀ labels m, doc.at labels = some m → codec.Keeps m

/-- The value of the row is the text of such a document. -/
def StoredRow (r : Row) : Prop :=
  ∀ text, r.value = some text →
    text ≠ [] ∧ ∃ doc, codec.parse text = some doc ∧ Stored codec doc

/-- Every row of the shard is such a row. -/
def StoredShard (sh : Shard) : Prop := ∀ e ∈ sh.entries, StoredRow codec e.2

variable {codec isInteger}

/-- The type of an element as SQL sees it; there may be none. -/
def typeOf (isInteger : D → Bool) (m : Option (Json D)) : SqlValue D :=
  m.elim .null fun v => .text (typeName isInteger v)

/-- Its value. -/
def valueOf (codec : Codec D) (m : Option (Json D)) : SqlValue D := m.elim .null (sqlValue codec)

theorem jsonType_of {x path : SqlValue D} {m : Option (Json D)}
    (h : jsonElement codec x path = m) :
    sqlCall codec isInteger (cstr "json_type") x path = typeOf isInteger m := by
  rw [sqlCall_type, jsonType, h]
  cases m <;> rfl

theorem jsonExtract_of {x path : SqlValue D} {m : Option (Json D)}
    (h : jsonElement codec x path = m) :
    sqlCall codec isInteger (cstr "json_extract") x path = valueOf codec m := by
  rw [sqlCall_extract, jsonExtract, h]
  cases m <;> rfl

/-- The element a key leads to in the row: a row without a value has none. -/
theorem jsonElement_row {r : Row} (h : StoredRow codec r) (key : CString) :
    jsonElement codec (r.column (cstr "value")) (.text (pathText key)) =
      (r.document codec.parse).bind fun doc => doc.at (key.splitOn 46) := by
  rw [Row.column, if_pos rfl, Row.document]
  cases hvalue : r.value with
  | none => rfl
  | some text =>
    obtain ⟨hne, doc, hparse, -⟩ := h text hvalue
    dsimp only
    rw [jsonElement, hparse, readPath_pathText, if_neg hne]
    rfl

theorem stored_document {r : Row} (h : StoredRow codec r) {doc : Json D}
    (hdoc : r.document codec.parse = some doc) : Stored codec doc := by
  rw [Row.document] at hdoc
  cases hvalue : r.value with
  | none =>
    rw [hvalue] at hdoc
    cases hdoc
  | some text =>
    obtain ⟨hne, doc', hparse, hstored⟩ := h text hvalue
    rw [hvalue] at hdoc
    dsimp only at hdoc
    rw [if_neg hne, hparse] at hdoc
    exact Option.some.inj hdoc ▸ hstored

theorem jsonElement_value {v : Json D} (h : Printable codec v) :
    jsonElement codec (.text (codec.print v)) (.text (cstr "$")) =
      some (printedValue codec v) := by
  have hroot : readPath (cstr "$") = some [] := by rfl
  rw [jsonElement, h.parses, hroot]
  rfl

/-- What is printed alike is alike. -/
theorem eq_of_print {m w : Json D} (hm : codec.Keeps m) (hw : codec.Keeps w)
    (h : codec.print m = codec.print w) : m = w := by
  have hread := hm.parse_print
  rw [h, hw.parse_print] at hread
  exact (Option.some.inj hread).symm

/-- Elements of one type with one SQL value are equal. -/
theorem eq_of_same {m w : Json D} (hm : codec.Keeps m) (hw : codec.Keeps w)
    (htype : typeName isInteger m = typeName isInteger w)
    (hsame : (sqlValue codec m).same (sqlValue codec w) = true) : m = w := by
  have hkind := congrArg kindOfName htype
  rw [kindOfName_typeName, kindOfName_typeName] at hkind
  cases m with
  | null => cases w <;> first | rfl | cases hkind
  | bool b =>
    cases w with
    | bool b' =>
      have hname : ∀ b b' : Bool, (if b then cstr "true" else cstr "false") =
          (if b' then cstr "true" else cstr "false") → b = b' := by decide
      rw [hname b b' htype]
    | null | num _ | str _ | arr _ | obj _ => cases hkind
  | num x =>
    cases w with
    | num y => rw [of_decide_eq_true hsame]
    | null | bool _ | str _ | arr _ | obj _ => cases hkind
  | str s =>
    cases w with
    | str s' => rw [of_decide_eq_true hsame]
    | null | bool _ | num _ | arr _ | obj _ => cases hkind
  | arr xs =>
    cases w with
    | arr ys => exact eq_of_print hm hw (of_decide_eq_true hsame)
    | null | bool _ | num _ | str _ | obj _ => cases hkind
  | obj ms =>
    cases w with
    | obj ns => exact eq_of_print hm hw (of_decide_eq_true hsame)
    | null | bool _ | num _ | str _ | arr _ => cases hkind

theorem same_self (m : Json D) : (sqlValue codec m).same (sqlValue codec m) = true := by
  cases m <;> simp [sqlValue, SqlValue.same]

/-- The values of an element and of a filter, as SQL compares them. -/
theorem same_iff {m w : Json D} (hm : codec.Keeps m) (hw : codec.Keeps w) :
    (typeName isInteger m = typeName isInteger w ∧
      (sqlValue codec m).same (sqlValue codec w) = true) ↔ m = w := by
  constructor
  · rintro ⟨htype, hsame⟩
    exact eq_of_same hm hw htype hsame
  · rintro rfl
    exact ⟨rfl, same_self m⟩

/-! ### Lists of filters -/

/-- The conditions of a list, as the reads take them: no filters are no conditions. -/
def conditions (holds : Filter D → Json D → Bool) (fs : List (Filter D)) :
    Option (Json D → Bool) :=
  if fs = [] then none else some fun doc => fs.all fun f => holds f doc

theorem selected_conditions {r : Row} {doc : Json D} (hdoc : r.document codec.parse = some doc)
    (holds : Filter D → Json D → Bool) (fs : List (Filter D)) :
    r.selected codec.parse (conditions holds fs) = fs.all fun f => holds f doc := by
  rw [conditions]
  split
  · next hnil =>
    rw [hnil]
    rfl
  · rw [Row.selected, hdoc]
    rfl

theorem selected_conditions_none {r : Row} (hdoc : r.document codec.parse = none)
    (holds : Filter D → Json D → Bool) (fs : List (Filter D)) :
    r.selected codec.parse (conditions holds fs) = decide (fs = []) := by
  rw [conditions]
  split
  · next hnil => rw [Row.selected, decide_eq_true hnil]
  · next hnil =>
    rw [Row.selected, hdoc, decide_eq_false hnil]
    rfl

end Functions

/-! ## The clause -/

section Clause

variable [LinearOrder D]

/-- A comparison of two values of one kind. -/
def compares {α : Type} [LinearOrder α] : Sql.Comparison → α → α → Bool
  | .eq, x, y => decide (x = y)
  | .ne, x, y => decide (x ≠ y)
  | .lt, x, y => decide (x < y)
  | .le, x, y => decide (x ≤ y)
  | .gt, x, y => decide (y < x)
  | .ge, x, y => decide (y ≤ x)

theorem compares_eq {α : Type} [LinearOrder α] (x y : α) :
    compares .eq x y = true ↔ x = y := by
  simp [compares]

/-- What an operator asks of the element: it is there, and it is the value (an object with its
members in the same order), or is not, or is a number that compares so with it. -/
def FilterOp.holds [Doubles D] (op : FilterOp) (value : Json D) : Option (Json D) → Bool
  | none => false
  | some m =>
    match op with
    | .eq => decide (m = value)
    | .ne => decide (m ≠ value)
    | op =>
      match m, value with
      | .num x, .num y => compares op.comparison x y
      | _, _ => false

variable [Doubles D] (codec : Codec D) (isInteger : D → Bool)

/-- A comparison is true: NULL makes none true, and a number is below every text. -/
def SqlValue.compare (c : Sql.Comparison) : SqlValue D → SqlValue D → Bool
  | .int i, .int j => compares c i j
  | .num x, .num y => compares c x y
  | .int i, .num y => compares c (Doubles.ofInt64 i) y
  | .num x, .int j => compares c x (Doubles.ofInt64 j)
  | .text s, .text t => compares c s t
  | .int _, .text _ | .num _, .text _ => compares c 0 1
  | .text _, .int _ | .text _, .num _ => compares c 1 0
  | .null, _ | _, .null => false

/-- What the clause refers to in a row. -/
def sqlMeaning (r : Row) : Sql.Meaning (SqlValue D) where
  null := .null
  column := r.column
  text := .text
  call := sqlCall codec isInteger
  isNull := SqlValue.isNull
  same := SqlValue.same
  compare := SqlValue.compare

/-- The rows the statement steps through. -/
def selectedRows (statement : Sql.Select) (values : List BoundValue) (sh : Shard) :
    List (CString × Row) :=
  (sh.entries.reverse.map fun e => (e.1, e.2)).filter fun e =>
    Sql.allHold (sqlMeaning codec isInteger e.2) (values.map BoundValue.value) statement.conds

/-- What a filter says about a document. -/
def Filter.satisfied (f : Filter D) (doc : Json D) : Bool :=
  f.op.holds f.value (doc.at (f.key.splitOn 46))

/-- What it says when its value has been printed. -/
def Filter.encoded (f : Filter D) (doc : Json D) : Bool :=
  f.op.holds (printedValue codec f.value) (doc.at (f.key.splitOn 46))

/-- The filters as the reads take them. -/
def filterConditions (fs : List (Filter D)) : Option (Json D → Bool) :=
  conditions Filter.satisfied fs

/-- No stored document tells the filters from their printed values. -/
def PrintingKeeps (fs : List (Filter D)) : Prop :=
  ∀ doc, Stored codec doc →
    (fs.all fun f => f.encoded codec doc) = fs.all fun f => f.satisfied doc

variable {codec isInteger}

/-! ### A fragment -/

/-- What a fragment asks of the types and the values of the element and of the parameter. -/
def asks (op : FilterOp) (rowType rowValue givenType givenValue : SqlValue D) : Bool :=
  match op with
  | .eq => rowType.same givenType && rowValue.same givenValue
  | .ne => !rowType.isNull && (!rowType.same givenType || !rowValue.same givenValue)
  | op => [cstr "integer", cstr "real"].any (fun s => rowType.compare .eq (.text s)) &&
      rowValue.compare op.comparison givenValue

theorem allHold_asks (r : Row) (path enc : CString) (op : FilterOp) :
    Sql.allHold (sqlMeaning codec isInteger r)
      (((fragmentConds op).flatMap (condValues path enc)).map SqlValue.text)
      (fragmentConds op) =
    asks op (sqlCall codec isInteger (cstr "json_type") (r.column (cstr "value")) (.text path))
      (sqlCall codec isInteger (cstr "json_extract") (r.column (cstr "value")) (.text path))
      (sqlCall codec isInteger (cstr "json_type") (.text enc) (.text (cstr "$")))
      (sqlCall codec isInteger (cstr "json_extract") (.text enc) (.text (cstr "$"))) := by
  cases op <;> exact Sql.allHold_pair _ _ _

/-- An element that is a number is what the ordering operators ask for. -/
theorem any_number (m : Json D) :
    ([cstr "integer", cstr "real"].any fun s =>
      (SqlValue.text (typeName isInteger m) : SqlValue D).compare .eq (.text s)) =
      m.isNumber := by
  rw [Bool.eq_iff_iff, ← isNumber_of_typeName isInteger, List.any_cons,
    List.any_cons, List.any_nil, Bool.or_false, Bool.or_eq_true]
  exact Iff.or (compares_eq _ _) (compares_eq _ _)

/-- **A fragment** asks of an element what its operator asks. -/
theorem asks_eq {op : FilterOp} {m : Option (Json D)} {w : Json D}
    (hm : ∀ v ∈ m, codec.Keeps v) (hw : codec.Keeps w)
    (hnumber : op.ordering = true → w.isNumber = true ∨ w = .null) :
    asks op (typeOf isInteger m) (valueOf codec m) (typeOf isInteger (some w))
      (valueOf codec (some w)) = op.holds w m := by
  cases m with
  | none => cases op <;> rfl
  | some v =>
    have hsame : (typeName isInteger v = typeName isInteger w ∧
        (sqlValue codec v).same (sqlValue codec w) = true) ↔ v = w := same_iff (hm v rfl) hw
    have htype : (typeOf isInteger (some v)).same (typeOf isInteger (some w)) =
        decide (typeName isInteger v = typeName isInteger w) := rfl
    cases op with
    | eq =>
      show ((typeOf isInteger (some v)).same (typeOf isInteger (some w)) && _) = decide (v = w)
      rw [htype, Bool.eq_iff_iff, Bool.and_eq_true, decide_eq_true_eq, decide_eq_true_eq]
      exact hsame
    | ne =>
      -- there is an element, so its type is not NULL
      show (true && (!(typeOf isInteger (some v)).same (typeOf isInteger (some w)) || !_)) =
        decide (v ≠ w)
      rw [htype, Bool.true_and, ← Bool.not_and, decide_not, Bool.not_inj_iff, Bool.eq_iff_iff,
        Bool.and_eq_true, decide_eq_true_eq, decide_eq_true_eq]
      exact hsame
    | gt | gte | lt | lte =>
      show (([cstr "integer", cstr "real"].any fun s =>
        (SqlValue.text (typeName isInteger v) : SqlValue D).compare .eq (.text s)) &&
          SqlValue.compare _ (sqlValue codec v) (sqlValue codec w)) = _
      rw [any_number]
      -- a number meets a number, or the null an infinity is printed as
      cases v with
      | num x =>
        cases w with
        | num y => rfl
        | null => rfl
        | bool _ | str _ | arr _ | obj _ => rcases hnumber rfl with h | h <;> cases h
      | null | bool _ | str _ | arr _ | obj _ => rfl

/-! ### The rows -/

/-- A filter's fragment, on a row. -/
theorem allHold_filter {f : Filter D} (hvalue : Printable codec f.value) {r : Row}
    (hr : StoredRow codec r) :
    Sql.allHold (sqlMeaning codec isInteger r) ((filterValues codec f).map SqlValue.text)
      (fragmentConds f.op) =
    f.op.holds (printedValue codec f.value)
      ((r.document codec.parse).bind fun doc => doc.at (f.key.splitOn 46)) := by
  have hkeeps : ∀ v ∈ (r.document codec.parse).bind (fun doc => doc.at (f.key.splitOn 46)),
      codec.Keeps v := by
    intro v hv
    obtain ⟨doc, hdoc, hat⟩ := Option.bind_eq_some_iff.mp hv
    exact stored_document hr hdoc _ v hat
  rw [filterValues, allHold_asks, jsonType_of (jsonElement_row hr f.key),
    jsonExtract_of (jsonElement_row hr f.key), jsonType_of (jsonElement_value hvalue),
    jsonExtract_of (jsonElement_value hvalue)]
  exact asks_eq hkeeps hvalue.keeps fun hop => hvalue.number (f.number hop)

/-- The fragments of all filters, on a row. -/
theorem allHold_filters {fs : List (Filter D)} (hvalues : ∀ f ∈ fs, Printable codec f.value)
    {r : Row} (hr : StoredRow codec r) :
    Sql.allHold (sqlMeaning codec isInteger r)
      ((fs.flatMap (filterValues codec)).map SqlValue.text)
      ((fs.map Filter.op).flatMap fragmentConds) =
    r.selected codec.parse (conditions (Filter.encoded codec) fs) := by
  have hlengths : ∀ f ∈ fs,
      ((filterValues codec f).map SqlValue.text : List (SqlValue D)).length =
        Sql.allParams (fragmentConds f.op) := by
    intro f _
    rw [List.length_map, length_filterValues]
  have hall : (fs.all fun f => Sql.allHold (sqlMeaning codec isInteger r)
      ((filterValues codec f).map SqlValue.text) (fragmentConds f.op)) =
      fs.all fun f => f.op.holds (printedValue codec f.value)
        ((r.document codec.parse).bind fun doc => doc.at (f.key.splitOn 46)) := by
    rw [Bool.eq_iff_iff, List.all_eq_true, List.all_eq_true]
    exact forall₂_congr fun f hf => by rw [allHold_filter (hvalues f hf) hr]
  rw [List.map_flatMap, List.flatMap_map, Sql.allHold_flatMap hlengths, hall]
  cases hdoc : r.document codec.parse with
  | some doc =>
    rw [selected_conditions hdoc]
    rfl
  | none =>
    -- without a document no filter is satisfied
    rw [selected_conditions_none hdoc]
    cases fs <;> rfl

theorem holds_liveCond (r : Row) (now : Int) (vs : List (SqlValue D)) :
    liveCond.holds (sqlMeaning codec isInteger r) (.int now :: vs) = r.live now := by
  have hcolumn : (r.column (cstr "ttl") : SqlValue D) = r.ttl.elim .null .int := by
    have hname : cstr "ttl" ≠ cstr "value" := by decide
    rw [Row.column, if_neg hname, if_pos rfl]
    cases r.ttl <;> rfl
  show ((r.column (cstr "ttl")).isNull || (r.column (cstr "ttl")).compare .ge (.int now)) = _
  rw [hcolumn, Row.live]
  cases r.ttl <;> rfl

/-- **The statement selects** the live rows whose documents satisfy the filters as their
values are encoded. -/
theorem selectedRows_eq {fs : List (Filter D)} (hvalues : ∀ f ∈ fs, Printable codec f.value)
    {sh : Shard} (hsh : StoredShard codec sh) (q : Reader) (now : Int) :
    selectedRows codec isInteger (liveSelect q (fs.map Filter.op))
      (queryValues codec now fs) sh =
    liveRows codec.parse now (conditions (Filter.encoded codec) fs) sh := by
  refine List.filter_congr fun e he => ?_
  obtain ⟨entry, hentry, rfl⟩ := List.mem_map.mp he
  have hlive : liveCond.holds (sqlMeaning codec isInteger entry.2)
      (.int now :: (fs.flatMap (filterValues codec)).map .text) = entry.2.live now :=
    holds_liveCond entry.2 now _
  have hfilters : Sql.allHold (sqlMeaning codec isInteger entry.2)
      ((fs.flatMap (filterValues codec)).map .text) ((fs.map Filter.op).flatMap fragmentConds) =
      entry.2.selected codec.parse (conditions (Filter.encoded codec) fs) :=
    allHold_filters hvalues (hsh entry (List.mem_reverse.mp hentry))
  rw [← hlive, ← hfilters, queryValues, List.map_cons, List.map_map]
  rfl

/-! ## Exact compilation -/

variable (codec isInteger)

/-- A statement and its values are right for the filters. -/
structure StatementExact (now : Int) (fs : List (Filter D)) (statement : Sql.Select)
    (values : List BoundValue) : Prop where
  /-- there are as many placeholders as values -/
  count : Sql.allParams statement.conds = values.length
  /-- the conditions are those of the fragments, and each value is in its place -/
  conds : statement.conds = liveCond :: (fs.map Filter.op).flatMap fragmentConds
  places : values = queryValues codec now fs
  /-- the live rows whose documents satisfy every filter are selected, and no others -/
  selects : ∀ sh, StoredShard codec sh → selectedRows codec isInteger statement values sh =
    liveRows codec.parse now (filterConditions fs) sh

/-- The text fits its buffer with nothing cut off, and the statement made of it is right. -/
structure CompiledExactly (q : Reader) (filters : Option (Json D)) (fs : List (Filter D)) :
    Prop where
  text : buildQuery q.select (fs.map Filter.op) q.orderByTimestamp =
    some (queryText q (fs.map Filter.op))
  fits : (queryText q (fs.map Filter.op)).length < queryCapacity q.select fs.length
  prepared : ∀ now, ∃ statement values,
    prepareLiveQuery codec now q filters = some (statement, values) ∧
      StatementExact codec isInteger now fs statement values

variable {codec isInteger}

/-- Where printing keeps the filters, the encoded ones select the same rows. -/
theorem liveRows_encoded {fs : List (Filter D)} (h : PrintingKeeps codec fs) {sh : Shard}
    (hsh : StoredShard codec sh) (now : Int) :
    liveRows codec.parse now (conditions (Filter.encoded codec) fs) sh =
      liveRows codec.parse now (filterConditions fs) sh := by
  refine List.filter_congr fun e he => ?_
  obtain ⟨entry, hentry, rfl⟩ := List.mem_map.mp he
  refine congrArg (entry.2.live now && ·) ?_
  cases hdoc : entry.2.document codec.parse with
  | none => rw [filterConditions, selected_conditions_none hdoc, selected_conditions_none hdoc]
  | some doc =>
    rw [filterConditions, selected_conditions hdoc, selected_conditions hdoc]
    exact h doc (stored_document (hsh entry (List.mem_reverse.mp hentry)) hdoc)

/-- The shard with one live row, a document. -/
def oneDocument (codec : Codec D) (doc : Json D) : Shard :=
  AList.insert [] (putRow (codec.print doc) (-1) 0 []) ∅

/-- Where it does not, a shard with one row tells. -/
theorem printingKeeps_of_liveRows {fs : List (Filter D)}
    (h : ∀ sh, StoredShard codec sh →
      liveRows codec.parse 0 (conditions (Filter.encoded codec) fs) sh =
        liveRows codec.parse 0 (filterConditions fs) sh) : PrintingKeeps codec fs := by
  intro doc hdoc
  have hkeeps : codec.Keeps doc := hdoc [] doc rfl
  have hstored : StoredShard codec (oneDocument codec doc) := by
    intro e he
    obtain rfl := List.mem_singleton.mp he
    intro text htext
    obtain rfl := Option.some.inj htext
    exact ⟨hkeeps.print_ne, doc, hkeeps.parse_print, hdoc⟩
  have hdocument : (putRow (codec.print doc) (-1) 0 []).document codec.parse = some doc := by
    rw [Row.document, putRow]
    dsimp only
    rw [if_neg hkeeps.print_ne, hkeeps.parse_print]
  have hrows : ∀ holds : Filter D → Json D → Bool,
      liveRows codec.parse 0 (conditions holds fs) (oneDocument codec doc) =
        [(([] : CString), putRow (codec.print doc) (-1) 0 [])].filter fun _ =>
          fs.all fun f => holds f doc := by
    intro holds
    rw [← selected_conditions hdocument]
    rfl
  have htell : ∀ a b : Bool, ([(([] : CString), putRow (codec.print doc) (-1) 0 [])].filter
      fun _ => a) = ([([], putRow (codec.print doc) (-1) 0 [])].filter fun _ => b) → a = b := by
    intro a b hab
    cases a <;> cases b <;> first | rfl | cases hab
  have hsame := h _ hstored
  rw [filterConditions, hrows, hrows] at hsame
  exact htell _ _ hsame

/-- What exact compilation takes. -/
theorem CompiledExactly.conditions {q : Reader} {filters : Option (Json D)}
    {fs : List (Filter D)} (h : CompiledExactly codec isInteger q filters fs)
    (hfilters : edbFilters filters = some fs) (hvalues : ∀ f ∈ fs, Printable codec f.value) :
    fs.length ≤ 498 ∧ (∀ f ∈ fs, f.PathFits) ∧ PrintingKeeps codec fs := by
  have hprepared := h.prepared 0
  rw [prepareLiveQuery_eq hfilters h.text] at hprepared
  obtain ⟨statement, values, hsome, hexact⟩ := hprepared
  split at hsome
  · next hfits =>
    obtain ⟨rfl, rfl⟩ := Prod.mk.inj (Option.some.inj hsome)
    refine ⟨hfits.1, hfits.2, printingKeeps_of_liveRows fun sh hsh => ?_⟩
    have hencoded : selectedRows codec isInteger (liveSelect q (fs.map Filter.op))
        (queryValues codec 0 fs) sh =
        liveRows codec.parse 0 (EpsilonDB.conditions (Filter.encoded codec) fs) sh :=
      selectedRows_eq hvalues hsh q 0
    rw [← hencoded, hexact.selects sh hsh]
  · cases hsome

/-- Values that are read back as they were are kept by printing. -/
theorem printingKeeps_of_keeps {fs : List (Filter D)} (h : ∀ f ∈ fs, codec.Keeps f.value) :
    PrintingKeeps codec fs := by
  intro doc _
  rw [Bool.eq_iff_iff, List.all_eq_true, List.all_eq_true]
  refine forall₂_congr fun f hf => ?_
  rw [Filter.encoded, printedValue, (h f hf).parse_print]
  rfl

/-- **A list is compiled exactly** when it has at most 498 filters, the path of every key fits
its buffer, and no stored document tells the values from what is printed for them; values that
are read back as they were are such. -/
theorem compiledExactly_iff (q : Reader) {filters : Option (Json D)} {fs : List (Filter D)}
    (hfilters : edbFilters filters = some fs) (hvalues : ∀ f ∈ fs, Printable codec f.value) :
    (CompiledExactly codec isInteger q filters fs ↔
      fs.length ≤ 498 ∧ (∀ f ∈ fs, f.PathFits) ∧ PrintingKeeps codec fs) ∧
    ((∀ f ∈ fs, codec.Keeps f.value) → PrintingKeeps codec fs) := by
  refine ⟨⟨fun h => h.conditions hfilters hvalues, ?_⟩, printingKeeps_of_keeps⟩
  rintro ⟨hcount, hpaths, hprinting⟩
  have hlength : (fs.map Filter.op).length ≤ 2 ^ 55 := by
    rw [List.length_map]
    omega
  obtain ⟨htext, hroom⟩ := buildQuery_eq q hlength
  rw [List.length_map] at hroom
  refine ⟨htext, hroom, fun now =>
    ⟨liveSelect q (fs.map Filter.op), queryValues codec now fs, ?_, ?_⟩⟩
  · rw [prepareLiveQuery_eq hfilters htext, if_pos ⟨hcount, hpaths⟩]
  · refine ⟨(length_queryValues codec q now fs).symm, rfl, rfl, fun sh hsh => ?_⟩
    rw [selectedRows_eq hvalues hsh, liveRows_encoded hprinting hsh]

end Clause

/-! ## Two lists -/

/-- A filter in JSON. -/
def filterJson {D : Type} (key operator : String) (value : Json D) : Json D :=
  .obj [(cstr "key", .str (cstr key)), (cstr "operator", .str (cstr operator)),
    (cstr "value", value)]

theorem printable_of_keeps [Doubles D] {codec : Codec D} {v : Json D} (h : codec.Keeps v) :
    Printable codec v := by
  have hprinted : printedValue codec v = v := by
    rw [printedValue, h.parse_print]
    rfl
  refine ⟨?_, ?_, fun hnumber => .inl ?_⟩
  · rw [hprinted, h.parse_print]
  · rw [hprinted]
    exact h
  · rw [hprinted]
    exact hnumber

/-- A codec of two values. -/
def twoValues : Codec Int := tableCodec [.num 3, .null] (by decide)

theorem compiledExactly_twoValues :
    ∃ fs, edbFilters (some (.arr [filterJson "a.b" "gte" (.num (3 : Int)),
        filterJson "c" "ne" .null])) = some fs ∧
      CompiledExactly twoValues (fun _ => true) .ids
        (some (.arr [filterJson "a.b" "gte" (.num 3), filterJson "c" "ne" .null])) fs := by
  let fs : List (Filter Int) := [⟨cstr "a.b", .gte, .num 3, by decide, fun _ => rfl⟩,
    ⟨cstr "c", .ne, .null, by decide, fun h => absurd h (by decide)⟩]
  have hfilters : edbFilters (some (.arr [filterJson "a.b" "gte" (.num (3 : Int)),
      filterJson "c" "ne" .null])) = some fs := by rfl
  have hkeeps : ∀ f ∈ fs, twoValues.Keeps f.value := by decide +kernel
  have hpaths : fs.length ≤ 498 ∧ ∀ f ∈ fs, f.PathFits := by decide
  have hprintable : ∀ f ∈ fs, Printable twoValues f.value :=
    fun f hf => printable_of_keeps (hkeeps f hf)
  refine ⟨fs, hfilters, (compiledExactly_iff .ids hfilters hprintable).1.mpr ?_⟩
  exact ⟨hpaths.1, hpaths.2, printingKeeps_of_keeps hkeeps⟩

/-- `strtod` reads `1e999` as an infinity. -/
instance : Doubles (WithTop Int) where
  decEq := inferInstance
  inRange d := decide (d ≠ ⊤)
  toInt64 d := d.untopD 0
  ofInt64 i := i
  toUInt64 d := d.map fun i => UInt64.ofNat i.toNat

/-- The document `{"a":null}`. -/
def nullDocument : Json (WithTop Int) := .obj [(cstr "a", .null)]

/-- The printer writes an infinity as null; other values have no texts here. -/
def infinityCodec : Codec (WithTop Int) where
  parse s :=
    if s = cstr "null" then some .null
    else if s = cstr "\x7b\"a\":null\x7d" then some nullDocument
    else none
  print v :=
    if v = nullDocument then cstr "\x7b\"a\":null\x7d"
    else if v = .null ∨ v = .num ⊤ then cstr "null"
    else []
  parse_changeText _ _ _ _ _ _ _ _ _ _ _ hparse := by
    rw [if_neg (by simp [changeText, cstr]), if_neg (by simp [changeText, cstr])] at hparse
    cases hparse
  parse_changeText_partition _ _ _ _ _ _ _ _ _ hparse := by
    rw [if_neg (by simp [changeText, cstr]), if_neg (by simp [changeText, cstr])] at hparse
    cases hparse

theorem stored_nullDocument : Stored infinityCodec nullDocument := by
  have hdocument : infinityCodec.Keeps nullDocument := by decide +kernel
  have hnull : infinityCodec.Keeps .null := by decide +kernel
  intro labels m hat
  cases labels with
  | nil =>
    obtain rfl := Option.some.inj hat
    exact hdocument
  | cons label labels =>
    by_cases hlabel : label = cstr "a"
    · subst hlabel
      cases labels with
      | nil =>
        obtain rfl := Option.some.inj hat
        exact hnull
      | cons label labels => cases hat
    · have hget : nullDocument.get label = none := by
        simpa [nullDocument, Json.get_eq_none, Json.members] using hlabel
      rw [Json.at, hget] at hat
      cases hat

theorem printable_infinity : Printable infinityCodec (.num ⊤) := by
  have hprinted : printedValue infinityCodec (.num ⊤) = .null := by decide +kernel
  have hnull : infinityCodec.Keeps .null := by decide +kernel
  exact ⟨by decide +kernel, hprinted ▸ hnull, fun _ => .inr hprinted⟩

/-- **An infinity is compiled as null**: the filter `{"key":"a","operator":"eq","value":1e999}`
selects `{"a":null}`. -/
theorem infinity_is_compiled_as_null :
    ∃ fs, edbFilters (some (filterJson "a" "eq" (.num (⊤ : WithTop Int)))) = some fs ∧
      (∀ f ∈ fs, Printable infinityCodec f.value) ∧
      ¬ CompiledExactly infinityCodec (fun _ => true) .values
        (some (filterJson "a" "eq" (.num (⊤ : WithTop Int)))) fs := by
  let fs : List (Filter (WithTop Int)) := [⟨cstr "a", .eq, .num ⊤, by decide, fun _ => rfl⟩]
  have hfilters : edbFilters (some (filterJson "a" "eq" (.num (⊤ : WithTop Int)))) = some fs := by
    rfl
  have hprintable : ∀ f ∈ fs, Printable infinityCodec f.value := by
    intro f hf
    obtain rfl := List.mem_singleton.mp hf
    exact printable_infinity
  refine ⟨fs, hfilters, hprintable, fun hexact => ?_⟩
  have hkeeps := (hexact.conditions hfilters hprintable).2.2 nullDocument stored_nullDocument
  -- the printed filter accepts the document, the filter itself does not
  revert hkeeps
  decide +kernel

end EpsilonDB
