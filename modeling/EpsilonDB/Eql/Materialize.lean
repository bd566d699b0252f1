import EpsilonDB.Eql.Frame
import EpsilonDB.Eql.PartitionWide
import EpsilonDB.Eql.SqliteTokens

/-!
# Keys that become columns (`eql/epsilon_eql.c`)

`materialize` writes the keys of the documents between quotes into a CREATE TABLE of 4096 bytes,
and binds the values of a document by position. To SQLite `Name` and `name` are one column, and a
quote ends a name.

- `createText`, `SqliteColumns`: the text, and what SQLite makes of it.
- `materializeTable`: the table that the documents go into.
- `columnKeys`: the different keys, in the order they are met.
- `Materializes`: every key of every record is in the column of its name.
- `materializes_iff`: so it is when the keys can be told apart by SQLite and fit their buffers.
-/

namespace EpsilonDB.Eql

variable {D : Type} [Doubles D]

/-! ## The table -/

/-- CREATE TABLE, up to its closing parenthesis. -/
def createText (tableAlias : CString) (names : List CString) : CString :=
  cstr "CREATE TABLE \"" ++ tableAlias ++ cstr "\" (\"id\" TEXT PRIMARY KEY" ++
    names.flatMap fun name => cstr ", \"" ++ name ++ cstr "\""

theorem createSql_eq (t : Table) : createSql t =
    if 4096 ≤ (createText t.tableAlias t.names).length then none
    else some ((createText t.tableAlias t.names ++ cstr ")").take 4095) := rfl

/-- What SQLite makes of such a text: the names of the columns of the table, if there is one
afterwards. -/
structure SqliteColumns (exec : CString → Option (List CString)) : Prop where
  /-- no two columns have the same name but for case -/
  closed : ∀ tableAlias names, 34 ∉ tableAlias → (∀ name ∈ names, 34 ∉ name) →
    names.length < 2000 → exec (createText tableAlias names ++ cstr ")") =
      if (cstr "id" :: names).Pairwise fun a b => strcasecmpEq a b = false
      then some (cstr "id" :: names) else none
  /-- the list of the columns has an end -/
  unclosed : ∀ tableAlias names, 34 ∉ tableAlias → (∀ name ∈ names, 34 ∉ name) →
    exec (createText tableAlias names) = none
  /-- a definition starts with the name of its column; there is no other statement -/
  named : ∀ tableAlias names rest cols, 34 ∉ tableAlias → (∀ name ∈ names, 34 ∉ name) →
    59 ∉ rest → exec (createText tableAlias names ++ cstr ", \"" ++ rest) = some cols →
      cols[names.length + 1]? = (quotedToken 34 rest).map Prod.fst

/-- `materialize`: the INSERT has a value for each column. -/
def materializeTable (exec : CString → Option (List CString)) (codec : Codec D) (t : Table)
    (docs : List (Fetched D)) : Option (Shadow D) := do
  let text ← createSql t
  let cols ← exec text
  if cols.length = t.cols.length then
    return { (materialize codec t docs []).1 with cols := cols.drop 1 }
  else none

/-! ## What it is for -/

/-- The keys of the documents. -/
def keys (docs : List (Fetched D)) : List CString :=
  docs.flatMap fun f => f.doc.members.map Prod.fst

/-- One more key, if it is a new one. -/
def addKey (names : List CString) (key : CString) : List CString :=
  if key ∈ names then names else names ++ [key]

/-- The columns of a table and the keys of the documents. -/
def columnKeys (t : Table) (docs : List (Fetched D)) : List CString :=
  (keys docs).foldl addKey (t.cols.map Prod.fst)

/-- What a row has under a name. -/
def Shadow.value (shadow : Shadow D) (row : ShadowRow D) (name : CString) :
    Option (SqlValue D) :=
  ((cstr "id", row.id) :: shadow.cols.zip row.values).lookup name

/-- The table that is created is one of the documents. -/
structure Materializes (exec : CString → Option (List CString)) (codec : Codec D) (t : Table)
    (docs : List (Fetched D)) (shadow : Shadow D) : Prop where
  created : materializeTable exec codec (withColumns t docs) docs = some shadow
  /-- its columns are those the values are bound for -/
  linedUp : shadow.cols = (withColumns t docs).names
  /-- no key is dropped -/
  kept : ∀ key ∈ keys docs, key ∈ cstr "id" :: shadow.cols
  /-- no two are merged -/
  distinct : (cstr "id" :: shadow.cols).Nodup
  oneRow : ∀ f ∈ docs, ∃! row, row ∈ shadow.rows ∧ row.id = .text f.id
  holds : ∀ f ∈ docs, ∀ row ∈ shadow.rows, row.id = .text f.id → ∀ key v,
    f.doc.get key = some v → shadow.value row key = some (bindJson codec (some v))

/-- SQLite tells the keys apart, and there is room for them. -/
structure Representable (codec : Codec D) (t : Table) (docs : List (Fetched D)) : Prop where
  plain : ∀ name ∈ columnKeys t docs, 34 ∉ name
  short : ∀ key ∈ keys docs, key.length < 128
  few : (columnKeys t docs).length ≤ maxCols
  apart : (columnKeys t docs).Pairwise fun a b => strcasecmpEq a b = false
  fits : (createText t.tableAlias ((columnKeys t docs).drop 1)).length < 4095
  /-- a member `id` is the id of the record -/
  ids : ∀ f ∈ docs, ∀ v, f.doc.get (cstr "id") = some v → bindJson codec (some v) = .text f.id

/-! ## A name with a quote in it -/

section Quotes

variable {n w v rest : CString}

/-- The name in a token is shorter than its text by the quotes that are doubled. -/
theorem quotedToken_eq_append (h : quotedToken 34 n = some (v, rest)) :
    ∃ w, n = w ++ 34 :: rest ∧ rest.head? ≠ some 34 ∧ w.length = v.length + v.count 34 ∧
      w.count 34 = 2 * v.count 34 := by
  fun_induction quotedToken 34 n generalizing v rest with
  | case1 => cases h
  | case2 =>
    cases h
    exact ⟨[], rfl, nofun, rfl, rfl⟩
  | case3 => cases h
  | case4 t ih =>
    obtain ⟨⟨v', rest'⟩, hr, heq⟩ := Option.map_eq_some_iff.mp h
    cases heq
    obtain ⟨w, rfl, hhead, hlength, hcount⟩ := ih hr
    refine ⟨34 :: 34 :: w, rfl, hhead, ?_, ?_⟩
    · simp only [List.length_cons, List.count_cons_self]
      omega
    · simp only [List.count_cons_self]
      omega
  | case5 d t hd =>
    cases h
    exact ⟨[], rfl, fun h => hd (Option.some.inj h), rfl, rfl⟩
  | case6 c d t hc ih =>
    obtain ⟨⟨v', rest'⟩, hr, heq⟩ := Option.map_eq_some_iff.mp h
    cases heq
    obtain ⟨w, hw, hhead, hlength, hcount⟩ := ih hr
    refine ⟨c :: w, by rw [hw]; rfl, hhead, ?_, ?_⟩
    · simp only [List.length_cons, List.count_cons_of_ne hc]
      omega
    · simp only [List.count_cons_of_ne hc]
      omega

/-- **A name with a quote in it** is not the name of the column: either the column's ends
sooner, or it goes on behind the closing quote. -/
theorem not_quote_mem_of_quotedToken {t : CString} (ht : t.head? ≠ some 34)
    (h : quotedToken 34 (n ++ 34 :: t) = some (n, rest)) : 34 ∉ n := by
  obtain ⟨w, htext, hhead, hlength, hcount⟩ := quotedToken_eq_append h
  rcases List.append_eq_append_iff.mp htext with ⟨u, hw, hu⟩ | ⟨u, hn, -⟩
  · cases u with
    | nil =>
      rw [List.append_nil] at hw
      rw [hw] at hlength
      exact List.count_eq_zero.mp (by omega)
    | cons d u =>
      rw [List.cons_append] at hu
      obtain ⟨rfl, hmore⟩ := List.cons.inj hu
      rw [hmore] at ht
      cases u with
      | nil => exact absurd rfl ht
      | cons e u =>
        -- all of it would have to be quotes
        have hc : e ≠ 34 := fun he => ht (congrArg some he)
        rw [hw] at hlength hcount
        simp only [List.length_append, List.length_cons, List.count_append,
          List.count_cons_self, List.count_cons_of_ne hc] at hlength hcount
        have hle : u.count 34 ≤ u.length := List.count_le_length
        omega
  · have hle := congrArg List.length hn
    rw [List.length_append] at hle
    exact List.count_eq_zero.mp (by omega)

/-- A name without one is read to its closing quote. -/
theorem quotedToken_of_plain {t : CString} (hn : 34 ∉ n) (ht : t.head? ≠ some 34) :
    quotedToken 34 (n ++ 34 :: t) = some (n, t) := by
  induction n with
  | nil =>
    cases t with
    | nil => rfl
    | cons d t =>
      have hd : d ≠ 34 := fun h => ht (congrArg some h)
      rw [List.nil_append, quotedToken, if_pos rfl, if_neg hd]
  | cons c n ih =>
    rw [List.mem_cons, not_or] at hn
    obtain ⟨d, u, hmore⟩ := List.exists_cons_of_ne_nil (l := n ++ 34 :: t) (by simp)
    rw [List.cons_append, hmore, quotedToken, if_neg (Ne.symm hn.1), ← hmore, ih hn.2]
    rfl

end Quotes

/-! ## The columns -/

section Columns

variable {names : List CString} {t : Table} {docs : List (Fetched D)}

theorem prefix_addKey (names : List CString) (key : CString) : names <+: addKey names key := by
  unfold addKey
  split
  · exact List.prefix_rfl
  · exact List.prefix_append _ _

theorem prefix_foldl_addKey (names ks : List CString) : names <+: ks.foldl addKey names := by
  induction ks generalizing names with
  | nil => exact List.prefix_rfl
  | cons key ks ih => exact (prefix_addKey names key).trans (ih _)

theorem mem_foldl_addKey {ks : List CString} {name : CString} :
    name ∈ ks.foldl addKey names ↔ name ∈ names ∨ name ∈ ks := by
  induction ks generalizing names with
  | nil => simp
  | cons key ks ih =>
    have hadd : name ∈ addKey names key ↔ name ∈ names ∨ name = key := by
      unfold addKey
      split
      · next hkey => exact ⟨Or.inl, fun h => h.elim id fun h => h ▸ hkey⟩
      · simp
    rw [List.foldl_cons, ih, hadd, List.mem_cons, or_assoc]

theorem nodup_foldl_addKey {ks : List CString} (h : names.Nodup) :
    (ks.foldl addKey names).Nodup := by
  induction ks generalizing names with
  | nil => exact h
  | cons key ks ih =>
    refine ih ?_
    unfold addKey
    split
    · exact h
    · next hkey =>
      rw [List.nodup_append]
      refine ⟨h, List.nodup_singleton key, fun a ha b hb heq => hkey ?_⟩
      rwa [← List.mem_singleton.mp hb, ← heq]

omit [Doubles D] in
theorem map_fst_addMember (cols : List (CString × Bool)) (m : CString × Json D) :
    (addMember cols m).map Prod.fst =
      if m.1 ∈ cols.map Prod.fst then cols.map Prod.fst
      else if cols.length < maxCols then cols.map Prod.fst ++ [snprintf 128 m.1]
      else cols.map Prod.fst := by
  unfold addMember
  split
  · exact map_fst_unionColumn cols m
  · split
    · simp
    · rfl

omit [Doubles D] in
theorem cols_withColumns (t : Table) (docs : List (Fetched D)) :
    (withColumns t docs).cols = (docs.flatMap fun f => f.doc.members).foldl addMember t.cols := by
  induction docs generalizing t with
  | nil => rfl
  | cons f docs ih =>
    rw [List.flatMap_cons, List.foldl_append]
    exact ih (unionColumns t f.doc)

omit [Doubles D] in
theorem keys_eq (docs : List (Fetched D)) :
    keys docs = (docs.flatMap fun f => f.doc.members).map Prod.fst := by
  rw [keys, List.map_flatMap]

omit [Doubles D] in
/-- Keys that fit are columns. -/
theorem map_fst_foldl_addMember {ms : List (CString × Json D)} {cols : List (CString × Bool)}
    (hshort : ∀ m ∈ ms, m.1.length < 128)
    (hfew : ((ms.map Prod.fst).foldl addKey (cols.map Prod.fst)).length ≤ maxCols) :
    (ms.foldl addMember cols).map Prod.fst =
      (ms.map Prod.fst).foldl addKey (cols.map Prod.fst) := by
  induction ms generalizing cols with
  | nil => rfl
  | cons m ms ih =>
    rw [List.forall_mem_cons] at hshort
    have hadd : (addMember cols m).map Prod.fst = addKey (cols.map Prod.fst) m.1 := by
      rw [map_fst_addMember]
      unfold addKey
      split
      · rfl
      · next hkey =>
        have hle := (prefix_foldl_addKey (addKey (cols.map Prod.fst) m.1)
          (ms.map Prod.fst)).length_le
        have hlength : (addKey (cols.map Prod.fst) m.1).length = cols.length + 1 := by
          unfold addKey
          rw [if_neg hkey]
          simp
        rw [List.map_cons, List.foldl_cons] at hfew
        rw [if_pos (by omega), snprintf_of_lt hshort.1]
    rw [List.map_cons, List.foldl_cons, ← hadd] at hfew
    rw [List.map_cons, List.foldl_cons, List.foldl_cons, ← hadd]
    exact ih hshort.2 hfew

omit [Doubles D] in
/-- A member adds a short name at most. -/
theorem map_fst_addMember_cases (cols : List (CString × Bool)) (m : CString × Json D) :
    (addMember cols m).map Prod.fst = cols.map Prod.fst ∨
      ∃ name, name.length < 128 ∧ cols.length < maxCols ∧
        (addMember cols m).map Prod.fst = cols.map Prod.fst ++ [name] := by
  rw [map_fst_addMember]
  split
  · exact Or.inl rfl
  · split
    · next hroom => exact Or.inr ⟨_, length_snprintf_lt (by decide) m.1, hroom, rfl⟩
    · exact Or.inl rfl

/-- The names of the columns of a table fit their buffers. -/
def Bounded (names : List CString) : Prop :=
  names.length ≤ maxCols ∧ ∀ name ∈ names, name.length < 128

theorem Bounded.append {name : CString} (h : Bounded names) (hroom : names.length < maxCols)
    (hname : name.length < 128) : Bounded (names ++ [name]) := by
  refine ⟨by rw [List.length_append]; exact hroom, ?_⟩
  rw [List.forall_mem_append]
  exact ⟨h.2, by simpa using hname⟩

omit [Doubles D] in
/-- What was a column stays one, whatever the documents are. -/
theorem foldl_addMember_bounded (ms : List (CString × Json D)) (cols : List (CString × Bool)) :
    cols.map Prod.fst <+: (ms.foldl addMember cols).map Prod.fst ∧
      (Bounded (cols.map Prod.fst) → Bounded ((ms.foldl addMember cols).map Prod.fst)) := by
  induction ms generalizing cols with
  | nil => exact ⟨List.prefix_rfl, id⟩
  | cons m ms ih =>
    obtain ⟨hbefore, hbounded⟩ := ih (addMember cols m)
    rw [List.foldl_cons]
    rcases map_fst_addMember_cases cols m with heq | ⟨name, hname, hroom, heq⟩
    · rw [heq] at hbefore hbounded
      exact ⟨hbefore, hbounded⟩
    · rw [heq] at hbefore hbounded
      exact ⟨(List.prefix_append _ _).trans hbefore,
        fun h => hbounded (h.append (by rwa [List.length_map]) hname)⟩

/-- The columns that a statement names. -/
theorem bounded_statementTables {sql : CString} (ht : t ∈ statementTables sql) :
    Bounded (t.cols.map Prod.fst) := by
  refine (addsColumns_statementTables sql).forall (P := fun t => Bounded (t.cols.map Prod.fst))
    (fun t name h => ?_) ?_ t ht
  · unfold tableAddColumn
    split
    · exact h
    · split
      · next hroom =>
        show Bounded ((t.cols ++ [(snprintf 128 name, false)]).map Prod.fst)
        rw [List.map_append]
        exact h.append (by rwa [List.length_map]) (length_snprintf_lt (by decide) name)
      · exact h
  · intro t ht
    obtain ⟨t₀, -, rfl⟩ := List.mem_map.mp ht
    show Bounded [cstr "id"]
    exact ⟨by decide, by decide⟩

/-- There is no quote in an alias. -/
theorem alias_plain {sql : CString} (ht : t ∈ statementTables sql) : 34 ∉ t.tableAlias := by
  have hbare : t.bare ∈ collectRefs sql := by
    rw [← map_bare_statementTables]
    exact List.mem_map_of_mem ht
  obtain ⟨i, hi, heq⟩ := List.mem_iff_getElem.mp hbare
  obtain ⟨hlength, htables⟩ := collected_collectRefs sql
  obtain ⟨db, part, ks, hmk⟩ := htables i t.bare (List.getElem?_eq_some_iff.mpr ⟨hi, heq⟩)
  have halias : t.tableAlias = aliasName i := congrArg Table.tableAlias hmk
  have hall : ∀ i < maxTables, 34 ∉ aliasName i := by decide
  rw [halias]
  exact hall i (hi.trans_le hlength)

omit [Doubles D] in
theorem map_fst_withColumns (t : Table) (docs : List (Fetched D)) :
    (withColumns t docs).cols.map Prod.fst =
      ((docs.flatMap fun f => f.doc.members).foldl addMember t.cols).map Prod.fst := by
  rw [cols_withColumns]

omit [Doubles D] in
/-- **The columns are the keys** when every key is short, and there are not too many. -/
theorem map_fst_withColumns_of_short (hshort : ∀ key ∈ keys docs, key.length < 128)
    (hfew : (columnKeys t docs).length ≤ maxCols) :
    (withColumns t docs).cols.map Prod.fst = columnKeys t docs := by
  rw [map_fst_withColumns]
  unfold columnKeys at hfew ⊢
  rw [keys_eq] at hshort hfew ⊢
  exact map_fst_foldl_addMember (fun m hm => hshort _ (List.mem_map_of_mem hm)) hfew

omit [Doubles D] in
/-- They are when no key is dropped, and no two are merged. -/
theorem short_of_kept (ht : Bounded (t.cols.map Prod.fst))
    (hkept : ∀ key ∈ keys docs, key ∈ (withColumns t docs).cols.map Prod.fst)
    (hdistinct : ((withColumns t docs).cols.map Prod.fst).Nodup) :
    (∀ key ∈ keys docs, key.length < 128) ∧ (columnKeys t docs).length ≤ maxCols := by
  obtain ⟨hbefore, hbounded⟩ :=
    foldl_addMember_bounded (docs.flatMap fun f => f.doc.members) t.cols
  rw [← map_fst_withColumns] at hbefore hbounded
  refine ⟨fun key hkey => (hbounded ht).2 key (hkept key hkey), ?_⟩
  have hnodup : (columnKeys t docs).Nodup := nodup_foldl_addKey (hdistinct.sublist hbefore.sublist)
  refine (hnodup.subperm fun name hname => ?_).length_le.trans (hbounded ht).1
  rcases mem_foldl_addKey.mp hname with hname | hname
  · exact hbefore.subset hname
  · exact hkept name hname

omit [Doubles D] in
theorem cols_eq_cons (ht : Headed t.cols) (docs : List (Fetched D)) :
    (withColumns t docs).cols.map Prod.fst = cstr "id" :: (withColumns t docs).names := by
  obtain ⟨marked, rest, hcols, -⟩ := ht.withColumns docs
  rw [Table.names, hcols]
  rfl

end Columns

/-! ## The text -/

section Text

variable {exec : CString → Option (List CString)} {tableAlias : CString} {names : List CString}

/-- What follows the first name with a quote in it. -/
def columnsAfter (names : List CString) : CString :=
  names.flatMap fun name => cstr ", \"" ++ name ++ cstr "\""

theorem createText_append_cons (tableAlias : CString) (pre post : List CString) (n : CString) :
    createText tableAlias (pre ++ n :: post) =
      createText tableAlias pre ++ cstr ", \"" ++ (n ++ 34 :: columnsAfter post) := by
  have hquote : cstr "\"" = [34] := by decide
  simp [createText, columnsAfter, hquote]

theorem head?_columnsAfter (post : List CString) (tail : CString) (ht : tail.head? ≠ some 34) :
    (columnsAfter post ++ tail).head? ≠ some 34 := by
  cases post with
  | nil => exact ht
  | cons n post => exact fun h => absurd (Option.some.inj h) (by decide)

theorem semicolon_not_mem_columnsAfter {post : List CString} (h : ∀ name ∈ post, 59 ∉ name) :
    59 ∉ columnsAfter post := by
  intro hmem
  obtain ⟨name, hname, hmem⟩ := List.mem_flatMap.mp hmem
  have hfixed : 59 ∉ cstr ", \"" ∧ 59 ∉ cstr "\"" := by decide
  rcases List.mem_append.mp hmem with hmem | hmem
  · rcases List.mem_append.mp hmem with hmem | hmem
    · exact hfixed.1 hmem
    · exact h name hname hmem
  · exact hfixed.2 hmem

/-- A table with the columns that its text was to name has no quote in the names. -/
theorem plain_of_exec (hexec : SqliteColumns exec) (halias : 34 ∉ tableAlias) {tail : CString}
    (htail : tail.head? ≠ some 34) (hone : 59 ∉ tail)
    (hsemicolon : (∃ name ∈ names, 34 ∈ name) → ∀ name ∈ names, 59 ∉ name) {cols : List CString}
    (h : exec (createText tableAlias names ++ tail) = some cols) (hcols : cols.drop 1 = names) :
    ∀ name ∈ names, 34 ∉ name := by
  -- the first name with a quote in it, if there is one
  cases hfind : names.find? fun name => 34 ∈ name with
  | none => simpa using hfind
  | some n =>
    obtain ⟨hquote, pre, post, rfl, hpre⟩ := List.find?_eq_some_iff_append.mp hfind
    simp only [decide_eq_true_eq] at hquote
    have hplain : ∀ name ∈ pre, 34 ∉ name := by simpa using hpre
    have hsingle : 59 ∉ n ++ 34 :: (columnsAfter post ++ tail) := by
      have hnames := hsemicolon ⟨n, by simp, hquote⟩
      have hpost : 59 ∉ columnsAfter post :=
        semicolon_not_mem_columnsAfter fun name hname => hnames name (by simp [hname])
      simpa [hpost, hone] using hnames n (by simp)
    have htext : createText tableAlias (pre ++ n :: post) ++ tail =
        createText tableAlias pre ++ cstr ", \"" ++ (n ++ 34 :: (columnsAfter post ++ tail)) := by
      rw [createText_append_cons]
      simp
    rw [htext] at h
    have hnamed := hexec.named tableAlias pre _ cols halias hplain hsingle h
    have hcol : cols[pre.length + 1]? = some n := by
      rw [Nat.add_comm, ← List.getElem?_drop, hcols]
      simp
    rw [hcol] at hnamed
    obtain ⟨⟨v, rest⟩, htoken, rfl⟩ := Option.map_eq_some_iff.mp hnamed.symm
    exact absurd hquote
      (not_quote_mem_of_quotedToken (head?_columnsAfter post tail htail) htoken)

end Text

/-! ## The table and its rows -/

section Table

variable {exec : CString → Option (List CString)} {codec : Codec D} {t : Table}
  {docs : List (Fetched D)} {shadow : Shadow D}

/-- The text is complete, or it lacks its closing parenthesis. -/
theorem createSql_cases {text : CString} (h : createSql t = some text) :
    ((createText t.tableAlias t.names).length < 4095 ∧
        text = createText t.tableAlias t.names ++ cstr ")") ∨
      text = createText t.tableAlias t.names := by
  rw [createSql_eq] at h
  split at h
  · cases h
  · next hlength =>
    rw [← Option.some.inj h]
    by_cases hfits : (createText t.tableAlias t.names).length < 4095
    · refine Or.inl ⟨hfits, List.take_of_length_le ?_⟩
      rw [List.length_append]
      exact hfits
    · exact Or.inr (List.take_left' (by omega))

theorem createSql_of_lt (h : (createText t.tableAlias t.names).length < 4095) :
    createSql t = some (createText t.tableAlias t.names ++ cstr ")") := by
  rw [createSql_eq, if_neg (by omega), List.take_of_length_le]
  rw [List.length_append]
  exact h

theorem materializeTable_eq_some (h : materializeTable exec codec t docs = some shadow) :
    ∃ text cols, createSql t = some text ∧ exec text = some cols ∧
      shadow = { (materialize codec t docs []).1 with cols := cols.drop 1 } := by
  obtain ⟨text, htext, h⟩ := Option.bind_eq_some_iff.mp h
  obtain ⟨cols, hcols, h⟩ := Option.bind_eq_some_iff.mp h
  split at h
  · exact ⟨text, cols, htext, hcols, (Option.some.inj h).symm⟩
  · cases h

/-- **The columns of the table** are its keys only where SQLite can tell them apart. -/
theorem Materializes.apart_of_linedUp (hexec : SqliteColumns exec) {sql : CString}
    (ht : t ∈ statementTables sql)
    (hone : (∃ name ∈ columnKeys t docs, 34 ∈ name) → ∀ name ∈ columnKeys t docs, 59 ∉ name)
    (h : Materializes exec codec t docs shadow)
    (hkeys : cstr "id" :: (withColumns t docs).names = columnKeys t docs) :
    (∀ name ∈ columnKeys t docs, 34 ∉ name) ∧
      (columnKeys t docs).Pairwise (fun a b => strcasecmpEq a b = false) ∧
      (createText t.tableAlias ((columnKeys t docs).drop 1)).length < 4095 := by
  have halias : (withColumns t docs).tableAlias = t.tableAlias := by
    have hbare := congrArg Table.tableAlias (bare_withColumns t docs)
    exact hbare
  have hquote : 34 ∉ t.tableAlias := alias_plain ht
  obtain ⟨text, cols, htext, hcols, hshadow⟩ := materializeTable_eq_some h.created
  have hdrop : cols.drop 1 = (withColumns t docs).names := by
    rw [← h.linedUp, hshadow]
  have hnames : (columnKeys t docs).drop 1 = (withColumns t docs).names := by
    rw [← hkeys]
    rfl
  have hsemicolon : (∃ name ∈ (withColumns t docs).names, 34 ∈ name) →
      ∀ name ∈ (withColumns t docs).names, 59 ∉ name := by
    rintro ⟨name, hname, hmem⟩ name' hname'
    rw [← hkeys] at hone
    exact hone ⟨name, List.mem_cons_of_mem _ hname, hmem⟩ name' (List.mem_cons_of_mem _ hname')
  have hbounded : (withColumns t docs).names.length < 2000 := by
    have hlength := ((foldl_addMember_bounded (docs.flatMap fun f => f.doc.members) t.cols).2
      (bounded_statementTables ht)).1
    rw [← map_fst_withColumns, cols_eq_cons (headed_statementTables ht),
      List.length_cons] at hlength
    unfold maxCols at hlength
    omega
  rw [← hkeys] at hnames ⊢
  rw [List.drop_one, List.tail_cons]
  -- a statement that fits has its closing bracket; one that is cut has none, and SQLite refuses it
  rcases createSql_cases htext with ⟨hlength, rfl⟩ | rfl
  · rw [halias] at hcols hlength
    have hplain := plain_of_exec hexec hquote (by decide) (by decide) hsemicolon hcols hdrop
    rw [hexec.closed _ _ hquote hplain hbounded] at hcols
    split at hcols
    · next hapart =>
      exact ⟨List.forall_mem_cons.mpr ⟨by decide, hplain⟩, hapart, hlength⟩
    · cases hcols
  · rw [halias, ← List.append_nil (createText _ _)] at hcols
    have hplain := plain_of_exec hexec hquote (by decide) (by decide) hsemicolon hcols hdrop
    rw [List.append_nil, hexec.unclosed _ _ hquote hplain] at hcols
    cases hcols

/-- The names that SQLite tells apart are different. -/
theorem nodup_of_apart {names : List CString}
    (h : names.Pairwise fun a b => strcasecmpEq a b = false) : names.Nodup := by
  refine h.imp fun {a b} hab heq => ?_
  rw [heq, strcasecmpEq, beq_self_eq_true] at hab
  cases hab

omit [Doubles D] in
theorem lookup_zip_map {names : List CString} {g : CString → SqlValue D} {key : CString}
    (h : key ∈ names) : (names.zip (names.map g)).lookup key = some (g key) := by
  induction names with
  | nil => cases h
  | cons name names ih =>
    rw [List.map_cons, List.zip_cons_cons, List.lookup_cons]
    split
    · next heq => rw [beq_iff_eq.mp heq]
    · next hne =>
      refine ih ((List.mem_cons.mp h).resolve_left ?_)
      rintro rfl
      simp at hne

/-- The rows of records with different ids, under columns of any names. -/
theorem rows_of_record (hdocs : (docs.map Fetched.id).Nodup) {names : List CString}
    (hshadow : shadow = { (materialize codec t docs []).1 with cols := names }) :
    (∀ f ∈ docs, ∃! row, row ∈ shadow.rows ∧ row.id = .text f.id) ∧
      ∀ f ∈ docs, ∀ row ∈ shadow.rows, row.id = .text f.id →
        row.values = docValues codec t.names f.doc := by
  have hrows : shadow.rows.map (fun r => r.id :: r.values) =
      docs.map fun f => .text f.id :: docValues codec t.names f.doc := by
    rw [hshadow]
    exact rows_of_nodup hdocs
  have hids : (shadow.rows.map ShadowRow.id).Nodup := by
    rw [hshadow]
    exact (ids_rows docs).nodup_iff.mpr (List.nodup_dedup _)
  refine ⟨fun f hf => ?_, fun f hf row hrow hid => ?_⟩
  · have hmem : (.text f.id :: docValues codec t.names f.doc) ∈
        shadow.rows.map fun r => r.id :: r.values := by
      rw [hrows]
      exact List.mem_map_of_mem (f := fun f : Fetched D => _ :: _) hf
    obtain ⟨row, hrow, heq⟩ := List.mem_map.mp hmem
    have hid := (List.cons.inj heq).1
    exact ⟨row, ⟨hrow, hid⟩, fun row' h =>
      List.inj_on_of_nodup_map hids h.1 hrow (h.2.trans hid.symm)⟩
  · have hmem : (row.id :: row.values) ∈
        docs.map fun f => .text f.id :: docValues codec t.names f.doc := by
      rw [← hrows]
      exact List.mem_map_of_mem (f := fun r : ShadowRow D => r.id :: r.values) hrow
    obtain ⟨g, hg, heq⟩ := List.mem_map.mp hmem
    obtain ⟨hgid, hvalues⟩ := List.cons.inj heq
    rw [hid] at hgid
    obtain rfl : g = f := List.inj_on_of_nodup_map hdocs hg hf (SqlValue.text.inj hgid)
    exact hvalues.symm

end Table

/-- **Every key is in its column** exactly when SQLite tells the keys apart, they fit, and no
document has another id than its record's. A name with a quote may end the statement, too, if
there is a semicolon. -/
theorem materializes_iff {exec : CString → Option (List CString)} (hexec : SqliteColumns exec)
    (codec : Codec D) {sql : CString} {t : Table} (ht : t ∈ statementTables sql)
    {docs : List (Fetched D)} (hdocs : (docs.map Fetched.id).Nodup)
    (hone : (∃ name ∈ columnKeys t docs, 34 ∈ name) → ∀ name ∈ columnKeys t docs, 59 ∉ name) :
    (∃ shadow, Materializes exec codec t docs shadow) ↔ Representable codec t docs := by
  have hcons : (withColumns t docs).cols.map Prod.fst =
      cstr "id" :: (withColumns t docs).names := cols_eq_cons (headed_statementTables ht) docs
  constructor
  · rintro ⟨shadow, h⟩
    -- the columns that SQLite made are the keys that were asked for, so none was cut or dropped
    have hcols : (withColumns t docs).cols.map Prod.fst = cstr "id" :: shadow.cols := by
      rw [hcons, h.linedUp]
    obtain ⟨hshort, hfew⟩ := short_of_kept (bounded_statementTables ht)
      (fun key hkey => hcols ▸ h.kept key hkey) (hcols ▸ h.distinct)
    have hkeys : cstr "id" :: (withColumns t docs).names = columnKeys t docs := by
      rw [← hcons, map_fst_withColumns_of_short hshort hfew]
    obtain ⟨hplain, hapart, hfits⟩ := h.apart_of_linedUp hexec ht hone hkeys
    -- a member `id` of a document is answered by the id column, so it must be the record's id
    refine ⟨hplain, hshort, hfew, hapart, hfits, fun f hf v hv => ?_⟩
    obtain ⟨row, ⟨hrow, hid⟩, -⟩ := h.oneRow f hf
    have hvalue := h.holds f hf row hrow hid (cstr "id") v hv
    have hlookup : shadow.value row (cstr "id") = some row.id := List.lookup_cons_self
    rw [hlookup, hid] at hvalue
    exact (Option.some.inj hvalue).symm
  · intro h
    -- the statement comes back with the columns asked for, and the rows are filled in
    have hkeys : cstr "id" :: (withColumns t docs).names = columnKeys t docs := by
      rw [← hcons, map_fst_withColumns_of_short h.short h.few]
    have hplain := h.plain
    have hapart := h.apart
    have hfits := h.fits
    have hfew := h.few
    rw [← hkeys] at hplain hapart hfits hfew
    rw [List.drop_one, List.tail_cons] at hfits
    have hbare := congrArg Table.tableAlias (bare_withColumns t docs)
    have halias : (withColumns t docs).tableAlias = t.tableAlias := hbare
    have hcolumns : exec (createText t.tableAlias (withColumns t docs).names ++ cstr ")") =
        some (cstr "id" :: (withColumns t docs).names) := by
      rw [hexec.closed _ _ (alias_plain ht) (List.forall_mem_cons.mp hplain).2, if_pos hapart]
      rw [List.length_cons] at hfew
      unfold maxCols at hfew
      omega
    have hlength : (cstr "id" :: (withColumns t docs).names).length =
        (withColumns t docs).cols.length := by
      rw [← hcons, List.length_map]
    obtain ⟨shadow, hshadow⟩ : ∃ shadow : Shadow D, shadow =
        { (materialize codec (withColumns t docs) docs []).1 with
          cols := (withColumns t docs).names } := ⟨_, rfl⟩
    -- one row for each record, its values in the order of the columns
    obtain ⟨hone, hvalues⟩ := rows_of_record hdocs hshadow
    have hnames : shadow.cols = (withColumns t docs).names := by rw [hshadow]
    refine ⟨shadow, ?_, hnames, fun key hkey => ?_, ?_, hone, ?_⟩
    · rw [materializeTable, createSql_of_lt (by rwa [halias]), halias]
      show (exec _).bind _ = _
      rw [hcolumns, hshadow]
      exact if_pos hlength
    · rw [hnames, hkeys]
      exact mem_foldl_addKey.mpr (Or.inr hkey)
    · rw [hnames, hkeys]
      exact nodup_of_apart h.apart
    · intro f hf row hrow hid key v hv
      by_cases hkey : key = cstr "id"
      · rw [hkey] at hv ⊢
        rw [h.ids f hf v hv, ← hid]
        exact List.lookup_cons_self
      · have hmem : key ∈ cstr "id" :: (withColumns t docs).names := by
          rw [hkeys]
          refine mem_foldl_addKey.mpr (Or.inr (List.mem_flatMap.mpr ⟨f, hf, ?_⟩))
          by_contra hnone
          rw [Json.get_eq_none.mpr hnone] at hv
          cases hv
        have hname := (List.mem_cons.mp hmem).resolve_left hkey
        have hlookup : shadow.value row key = (shadow.cols.zip row.values).lookup key := by
          rw [Shadow.value, List.lookup_cons, beq_eq_false_iff_ne.mpr hkey]
        rw [hlookup, hvalues f hf row hrow hid, hnames, docValues, lookup_zip_map hname, hv]

/-! ## SQLite on lists of quoted names -/

/-- A list of quoted names, to its closing parenthesis. -/
def readColumns : ℕ → CString → Option (List CString)
  | 0, _ => none
  | fuel + 1, s =>
    if s = [41] then some []
    else if (cstr ", \"").isPrefixOf s then do
      let (name, rest) ← quotedToken 34 (s.drop 3)
      let names ← readColumns fuel rest
      return name :: names
    else none

/-- A table without types and constraints. -/
def readCreate (text : CString) : Option (List CString) := do
  let (_, rest) ← quotedToken 34 (text.drop (cstr "CREATE TABLE \"").length)
  let columns := rest.drop (cstr " (\"id\" TEXT PRIMARY KEY").length
  let names ← readColumns (columns.length + 1) columns
  if (cstr "id" :: names).Pairwise fun a b => strcasecmpEq a b = false
  then return cstr "id" :: names else none

section Reading

variable {names : List CString} {tableAlias : CString}

theorem readColumns_quoted (fuel : ℕ) (s : CString) :
    readColumns (fuel + 1) (44 :: 32 :: 34 :: s) =
      (quotedToken 34 s).bind fun r => (readColumns fuel r.2).map (r.1 :: ·) := by
  have hbefore : (cstr ", \"").isPrefixOf (44 :: 32 :: 34 :: s) = true := rfl
  rw [readColumns, if_neg (by simp), if_pos hbefore]
  show (quotedToken 34 s).bind _ = _
  cases quotedToken 34 s with
  | none => rfl
  | some r =>
    show (readColumns fuel r.2).bind _ = (readColumns fuel r.2).map _
    cases readColumns fuel r.2 with
    | none => rfl
    | some names => rfl

theorem length_le_columnsAfter (names : List CString) :
    names.length ≤ (columnsAfter names).length := by
  induction names with
  | nil => exact le_rfl
  | cons name names ih =>
    have htext : columnsAfter (name :: names) =
        cstr ", \"" ++ name ++ cstr "\"" ++ columnsAfter names := List.flatMap_cons
    have hfixed : (cstr "\"").length = 1 := by decide
    rw [htext]
    simp only [List.length_append, List.length_cons, hfixed]
    omega

theorem readColumns_columnsAfter (hplain : ∀ name ∈ names, 34 ∉ name) {tail : CString}
    (htail : tail.head? ≠ some 34) (fuel : ℕ) :
    readColumns (names.length + fuel) (columnsAfter names ++ tail) =
      (readColumns fuel tail).map (names ++ ·) := by
  induction names with
  | nil =>
    show readColumns (0 + fuel) tail = _
    rw [Nat.zero_add]
    exact (Option.map_id' (x := readColumns fuel tail)).symm
  | cons name names ih =>
    rw [List.forall_mem_cons] at hplain
    have hfuel : (name :: names).length + fuel = names.length + fuel + 1 := by
      rw [List.length_cons]
      omega
    have htext : columnsAfter (name :: names) ++ tail =
        44 :: 32 :: 34 :: (name ++ 34 :: (columnsAfter names ++ tail)) := by
      simp [columnsAfter, cstr]
    have htoken : quotedToken 34 (name ++ 34 :: (columnsAfter names ++ tail)) =
        some (name, columnsAfter names ++ tail) :=
      quotedToken_of_plain hplain.1 (head?_columnsAfter names tail htail)
    rw [hfuel, htext, readColumns_quoted, htoken]
    show (readColumns (names.length + fuel) (columnsAfter names ++ tail)).map _ = _
    rw [ih hplain.2, Option.map_map]
    rfl

theorem readCreate_createText (halias : 34 ∉ tableAlias) (hplain : ∀ name ∈ names, 34 ∉ name)
    (tail : CString) (htail : tail.head? ≠ some 34) :
    ∃ fuel, readCreate (createText tableAlias names ++ tail) =
      ((readColumns (fuel + 1) tail).map (names ++ ·)).bind fun names =>
        if (cstr "id" :: names).Pairwise fun a b => strcasecmpEq a b = false
        then some (cstr "id" :: names) else none := by
  have htext : (createText tableAlias names ++ tail).drop (cstr "CREATE TABLE \"").length =
      tableAlias ++ 34 :: (cstr " (\"id\" TEXT PRIMARY KEY" ++ (columnsAfter names ++ tail)) := by
    simp [createText, columnsAfter, cstr]
  have htoken := quotedToken_of_plain (n := tableAlias)
    (t := cstr " (\"id\" TEXT PRIMARY KEY" ++ (columnsAfter names ++ tail)) halias
    (fun h => absurd (Option.some.inj h) (by decide))
  have hlength := length_le_columnsAfter names
  obtain ⟨fuel, hfuel⟩ : ∃ fuel, (columnsAfter names ++ tail).length + 1 =
      names.length + (fuel + 1) := by
    rw [List.length_append]
    exact ⟨(columnsAfter names).length + tail.length - names.length, by omega⟩
  refine ⟨fuel, ?_⟩
  unfold readCreate
  rw [htext, htoken]
  show (readColumns _ (List.drop _ (_ ++ _))).bind _ = _
  rw [List.drop_left' rfl, hfuel, readColumns_columnsAfter hplain htail]
  rfl

/-- So SQLite reads such a list. -/
theorem sqliteColumns_readCreate : SqliteColumns readCreate where
  closed tableAlias names halias hplain _ := by
    obtain ⟨fuel, h⟩ := readCreate_createText halias hplain (cstr ")") (by decide)
    rw [h, readColumns, if_pos (by decide)]
    simp
  unclosed tableAlias names halias hplain := by
    obtain ⟨fuel, h⟩ := readCreate_createText halias hplain [] (by decide)
    rw [List.append_nil] at h
    rw [h]
    rfl
  named tableAlias names rest cols halias hplain _ h := by
    obtain ⟨fuel, heq⟩ := readCreate_createText halias hplain
      (cstr ", \"" ++ rest) (fun h => absurd (Option.some.inj h) (by decide))
    have hread : readColumns (fuel + 1) (cstr ", \"" ++ rest) = _ := readColumns_quoted fuel rest
    rw [List.append_assoc, heq, hread] at h
    obtain ⟨names', hnames, h⟩ := Option.bind_eq_some_iff.mp h
    obtain ⟨more, hmore, rfl⟩ := Option.map_eq_some_iff.mp hnames
    obtain ⟨⟨name, left⟩, htoken, hmore⟩ := Option.bind_eq_some_iff.mp hmore
    obtain ⟨more, -, rfl⟩ := Option.map_eq_some_iff.mp hmore
    split at h
    · rw [← Option.some.inj h, htoken, List.getElem?_cons_succ]
      simp
    · cases h

end Reading

/-- The table of a query. -/
def notesTable : Table :=
  { mkTable 0 (cstr "shop") (cstr "main") (cstr "notes") with cols := [(cstr "id", false)] }

/-- A codec that is not asked. -/
def noCodec : Codec Int := tableCodec [] no_values

/-- Records with different keys. -/
def notes : List (Fetched Int) :=
  [⟨cstr "n1", cstr "notes", .obj [(cstr "title", .str (cstr "tea")), (cstr "stars", .num 5)]⟩,
    ⟨cstr "n2", cstr "notes", .obj [(cstr "stars", .num 3), (cstr "done", .bool true)]⟩]

/-- A record with two keys that differ in case. -/
def caseNotes : List (Fetched Int) :=
  [⟨cstr "n1", cstr "notes", .obj [(cstr "Name", .num 1), (cstr "name", .num 2)]⟩]

theorem notesTable_mem : notesTable ∈ statementTables (cstr "SELECT * FROM shop.main.notes") := by
  decide +kernel

theorem materializes_iff_notes :
    ∃ shadow, Materializes readCreate noCodec notesTable notes shadow := by
  have hids : (notes.map Fetched.id).Nodup := by decide
  refine (materializes_iff sqliteColumns_readCreate noCodec notesTable_mem hids
    fun ⟨name, hname, hquote⟩ => ?_).mpr
    ⟨by decide +kernel, by decide +kernel, by decide +kernel, by decide +kernel,
      by decide +kernel, fun f hf v hv => ?_⟩
  · have hplain : ∀ name ∈ columnKeys notesTable notes, 34 ∉ name := by decide +kernel
    exact absurd hquote (hplain name hname)
  · have hnone : ∀ f ∈ notes, f.doc.get (cstr "id") = none := by decide +kernel
    rw [hnone f hf] at hv
    cases hv

/-- **There is no table** for a document with the keys `Name` and `name`. -/
theorem not_materializes_caseNotes :
    ¬ ∃ shadow, Materializes readCreate noCodec notesTable caseNotes shadow := by
  rintro ⟨shadow, h⟩
  have hnone : materializeTable readCreate noCodec (withColumns notesTable caseNotes) caseNotes =
      none := by
    decide +kernel
  exact absurd (hnone.symm.trans h.created) (by simp)

end EpsilonDB.Eql
