import EpsilonDB.Eql.ScanRest

/-!
# The scanners end (`eql/epsilon_eql.c`)

The scanners with a cursor do what the scanners on the rest of a text do, and so they end. The
cursor is one place shared by nested loops, and a loop that fails puts it back; what decreases
in all of them is the text that is left.

- `Scans`: an outer loop beside its scanner. `Scans.run`: its run; `Scans.advances`: each of its
  turns goes forward.
- `columns_eq`, `set_eq`, `assign_eq`: the inner loops.
- `scanners_end`: `collect_refs`, `scan_insert_columns` and `scan_update_columns` end on every
  text.
-/

namespace EpsilonDB.Eql

open Whiles

namespace EqlScan

variable {sql r t : CString} {c d : UInt8} {fuel : ℕ} {tables : List Table}

/-! ## The outer loops -/

/-- The next word of the rest `r` of a text and where the loop goes on, if the text does not
end there. -/
def wordOf (words : List CString) (r : CString) : Option (Bool × CString) :=
  match skipSpaces r with
  | [] => none
  | c :: t =>
    if opensQuote c then some (false, Eql.skipQuotedRaw c t)
    else if !isIdentChar c then some (false, t)
    else some (decide (lower ((c :: t).takeWhile isIdentChar) ∈ words),
      (c :: t).dropWhile isIdentChar)

/-- Every turn goes on. -/
theorem wordOf_suffix {words : List CString} {found : Bool} {r' : CString}
    (h : wordOf words r = some (found, r')) : r' <:+ r ∧ r'.length < r.length := by
  unfold wordOf at h
  cases hs : skipSpaces r with
  | nil =>
    rw [hs] at h
    cases h
  | cons c t =>
    obtain ⟨hsuffix, hlt⟩ := skipSpaces_cons_lt hs
    have hle := hsuffix.length_le
    rw [hs] at h
    dsimp only at h
    split at h
    · cases h
      have hrest := skipQuotedRaw_suffix c t
      exact ⟨hrest.trans hsuffix, hrest.length_le.trans_lt hlt⟩
    · split at h
      · cases h
        exact ⟨hsuffix, hlt⟩
      · next hident =>
        cases h
        have hc : isIdentChar c = true := by simpa using hident
        have hrest : t.dropWhile isIdentChar <:+ t := List.dropWhile_suffix _
        rw [List.dropWhile_cons_of_pos hc]
        exact ⟨hrest.trans hsuffix, hrest.length_le.trans_lt hlt⟩

theorem nextWord_eq (h : r <:+ sql) (hg : Given sql fuel) {lens : List ℕ} {words : List CString}
    (hlens : ∀ w, lower w ∈ words → w.length ∈ lens) :
    (scanAt sql r).nextWord fuel lens words = .ok ((wordOf words r).elim (.ended (scanAt sql []))
      fun q => if q.1 then .found (scanAt sql q.2) else .other (scanAt sql q.2)) := by
  rw [nextWord, skipSpacesComments_eq h hg, ok_bind, wordOf]
  cases hs : skipSpaces r with
  | nil =>
    rw [if_pos (len_le_scanAt sql)]
    rfl
  | cons c t =>
    have ht : c :: t <:+ sql := hs ▸ (skipSpaces_suffix r).trans h
    rw [if_neg (not_len_le_scanAt ht), byte_pos ht, ok_bind]
    dsimp only
    split
    · rw [skipQuotedRaw_eq ht hg.enough, ok_bind]
      rfl
    · rw [skipWhile_eq ht hg.enough, ok_bind, pos_dropWhile ht, Nat.add_sub_cancel_left]
      cases hident : isIdentChar c with
      | false =>
        have hnone : (c :: t).takeWhile isIdentChar = [] :=
          List.takeWhile_cons_of_neg (by rw [hident]; exact Bool.false_ne_true)
        rw [if_pos (by rw [hnone]; rfl), move_one ht]
        rfl
      | true =>
        have hpos : 0 < ((c :: t).takeWhile isIdentChar).length := by
          rw [List.takeWhile_cons_of_pos hident]
          exact Nat.succ_pos _
        rw [if_neg (by omega)]
        by_cases hword : lower ((c :: t).takeWhile isIdentChar) ∈ words
        · rw [if_neg (fun hne => hne (hlens _ hword)), bytes_takeWhile ht, ok_bind, if_pos hword,
            decide_eq_true hword]
          rfl
        · rw [decide_eq_false hword]
          split
          · rfl
          · rw [bytes_takeWhile ht, ok_bind, if_neg hword]
            rfl

/-- An outer loop on a text: its turn, and the scanner on the rest of the text with a number of
rounds, where every byte has one. -/
structure Scans (turn : Scanning → ScanRun (Turn Scanning Scanning))
    (model : ℕ → List Table → CString → List Table) (sql : CString) : Prop where
  /-- no text is left -/
  ended : ∀ tables, turn ⟨tables, scanAt sql []⟩ = .ok (.done ⟨tables, scanAt sql []⟩)
  model_nil : ∀ k tables, model k tables [] = tables
  /-- a turn comes to the end of the text or goes on behind where it was -/
  step : ∀ tables r, r <:+ sql → r ≠ [] →
    (turn ⟨tables, scanAt sql r⟩ = .ok (.done ⟨tables, scanAt sql []⟩) ∧
      ∀ k, model (k + 1) tables r = tables) ∨
    ∃ tables' r', r' <:+ r ∧ r'.length < r.length ∧
      turn ⟨tables, scanAt sql r⟩ = .ok (.again ⟨tables', scanAt sql r'⟩) ∧
      ∀ k, model (k + 1) tables r = model k tables' r'

/-- Where a turn leaves the scanner. -/
def after : Turn Scanning Scanning → Scanning
  | .again s => s
  | .done s => s

/-- One turn from any place of a text ends, behind that place and not behind the text. -/
def Advances (turn : Scanning → ScanRun (Turn Scanning Scanning)) (sql : CString) : Prop :=
  ∀ tables pos, pos < sql.length → ∃ t, turn ⟨tables, sql, pos⟩ = .ok t ∧
    (after t).sc.sql = sql ∧ pos < (after t).sc.pos ∧ (after t).sc.pos ≤ sql.length

variable {turn : Scanning → ScanRun (Turn Scanning Scanning)}
  {model : ℕ → List Table → CString → List Table}

/-- **The run**: the loop ends at the end of the text, with the tables of the scanner. -/
theorem Scans.run (hs : Scans turn model sql) (hfuel : sql.length < fuel) (tables : List Table) :
    loop turn fuel ⟨tables, sql, 0⟩ = .ok ⟨model sql.length tables sql, scanAt sql []⟩ := by
  have hstart : (⟨tables, sql, 0⟩ : Scanning) = ⟨tables, scanAt sql sql⟩ := by
    rw [scanAt, Nat.sub_self]
  rw [hstart]
  refine loop_eq (x := (sql.length, tables, sql)) (fun x => scanningAt sql x.2)
    (fun x => x.2.2 <:+ sql ∧ x.2.2.length ≤ x.1) Prod.fst
    (fun x => Scanning.mk (model x.1 x.2.1 x.2.2) (scanAt sql []))
    (fun x hx => ?_) ⟨List.suffix_rfl, Nat.le_refl _⟩ hfuel
  obtain ⟨k, tables, r⟩ := x
  obtain ⟨hr, hk⟩ := hx
  dsimp only [scanningAt] at hr hk ⊢
  cases r with
  | nil =>
    left
    rw [hs.ended, hs.model_nil]
  | cons c t =>
    obtain ⟨k, rfl⟩ := Nat.exists_eq_succ_of_ne_zero (show k ≠ 0 by
      rw [List.length_cons] at hk
      omega)
    rcases hs.step tables (c :: t) hr (List.cons_ne_nil c t) with
      ⟨hdone, hmodel⟩ | ⟨tables', r', hsuffix, hlt, hagain, hmodel⟩
    · left
      rw [hdone, hmodel]
    · right
      exact ⟨(k, tables', r'), ⟨hsuffix.trans hr, by dsimp only; omega⟩, Nat.lt_succ_self k,
        by dsimp only; rw [hmodel], hagain⟩

/-- **Every turn goes forward.** -/
theorem Scans.advances (hs : Scans turn model sql) : Advances turn sql := by
  intro tables pos hpos
  have hlen : (sql.drop pos).length = sql.length - pos := List.length_drop
  have hplace : (⟨tables, sql, pos⟩ : Scanning) = ⟨tables, scanAt sql (sql.drop pos)⟩ := by
    rw [scanAt, hlen, Nat.sub_sub_self hpos.le]
  have hne : sql.drop pos ≠ [] := fun hnil => by
    rw [hnil, List.length_nil] at hlen
    omega
  rw [hplace]
  rcases hs.step tables _ (List.drop_suffix pos sql) hne with
    ⟨hdone, -⟩ | ⟨tables', r', -, hlt, hagain, -⟩
  · exact ⟨_, hdone, rfl, by show pos < sql.length - 0; omega, Nat.sub_le _ _⟩
  · refine ⟨_, hagain, rfl, ?_, Nat.sub_le _ _⟩
    show pos < sql.length - r'.length
    omega

/-- An outer loop scans as its model does when what it does behind a word is what the model
does. -/
theorem outerTurn_scans (hg : Given sql fuel) {lens : List ℕ} {words : List CString}
    (hlens : ∀ w, lower w ∈ words → w.length ∈ lens) {found : Scanning → ScanRun Scanning}
    {behind : ℕ → List Table → CString → List Table}
    (hnil : ∀ k tables, model k tables [] = tables)
    (hmodel : ∀ k tables r, model (k + 1) tables r = (wordOf words r).elim tables
      fun q => if q.1 then behind k tables q.2 else model k tables q.2)
    (hfound : ∀ tables r, r <:+ sql → ∃ tables' r', r' <:+ r ∧
      found ⟨tables, scanAt sql r⟩ = .ok ⟨tables', scanAt sql r'⟩ ∧
      ∀ k, behind k tables r = model k tables' r') :
    Scans (outerTurn fuel lens words found) model sql where
  ended tables := by rw [outerTurn, if_neg (not_lt_len_scanAt sql)]
  model_nil := hnil
  step tables r hr hne := by
    obtain ⟨c, t, rfl⟩ := List.exists_cons_of_ne_nil hne
    rw [outerTurn, if_pos (lt_len_scanAt hr)]
    dsimp only
    rw [nextWord_eq hr hg hlens, ok_bind]
    cases hword : wordOf words (c :: t) with
    | none => exact Or.inl ⟨rfl, fun k => by rw [hmodel, hword]; rfl⟩
    | some q =>
      obtain ⟨isFound, r'⟩ := q
      obtain ⟨hsuffix, hlt⟩ := wordOf_suffix hword
      right
      cases isFound with
      | false => exact ⟨tables, r', hsuffix, hlt, rfl, fun k => by rw [hmodel, hword]; rfl⟩
      | true =>
        obtain ⟨tables', r'', hrest, hrun, hsame⟩ := hfound tables r' (hsuffix.trans hr)
        refine ⟨tables', r'', hrest.trans hsuffix, hrest.length_le.trans_lt hlt, ?_,
          fun k => ?_⟩
        · show (found ⟨tables, scanAt sql r'⟩ >>= fun s => Except.ok (Turn.again s)) = _
          rw [hrun]
          rfl
        · rw [hmodel, hword, ← hsame]
          rfl

/-- What a scanner does behind a word is what its model does when both read a reference first and
agree on what comes behind it. -/
theorem found_of_ref (hg : Given sql fuel) {found : Scanning → ScanRun Scanning}
    {behind : ℕ → List Table → CString → List Table}
    (hnone : ∀ tables r rest, Eql.parseRef r = (none, rest) →
      (scanAt sql r).parseRef fuel = .ok (none, scanAt sql rest) →
      found ⟨tables, scanAt sql r⟩ = .ok ⟨tables, scanAt sql rest⟩ ∧
        ∀ k, behind k tables r = model k tables rest)
    (hsome : ∀ tables r db part ks rest, rest <:+ sql →
      Eql.parseRef r = (some (db, part, ks), rest) →
      (scanAt sql r).parseRef fuel = .ok (some (db, part, ks), scanAt sql rest) →
      ∃ tables' r', r' <:+ rest ∧ found ⟨tables, scanAt sql r⟩ = .ok ⟨tables', scanAt sql r'⟩ ∧
        ∀ k, behind k tables r = model k tables' r')
    (tables : List Table) (r : CString) (hr : r <:+ sql) : ∃ tables' r', r' <:+ r ∧
      found ⟨tables, scanAt sql r⟩ = .ok ⟨tables', scanAt sql r'⟩ ∧
      ∀ k, behind k tables r = model k tables' r' := by
  have hparse := parseRef_suffix r
  have hrun := parseRef_eq hr hg
  cases href : Eql.parseRef r with
  | mk names rest =>
    rw [href] at hparse hrun
    cases names with
    | none => exact ⟨tables, rest, hparse, hnone tables r rest href hrun⟩
    | some names =>
      obtain ⟨db, part, ks⟩ := names
      obtain ⟨tables', r', hsuffix, hfound⟩ :=
        hsome tables r db part ks rest (hparse.trans hr) href hrun
      exact ⟨tables', r', hsuffix.trans hparse, hfound⟩

/-! ## References -/

/-- What `collectRefsFrom` does behind a word. -/
def collectBehind (k : ℕ) (tables : List Table) (r : CString) : List Table :=
  (Eql.parseRef r).1.elim (collectRefsFrom k tables (Eql.parseRef r).2) fun names =>
    collectRefsFrom k
      (more (addRef tables names.1 names.2.1 names.2.2) (Eql.skipAlias (Eql.parseRef r).2)).1
      (more (addRef tables names.1 names.2.1 names.2.2) (Eql.skipAlias (Eql.parseRef r).2)).2

theorem collectRefsFrom_word (k : ℕ) (tables : List Table) (r : CString) :
    collectRefsFrom (k + 1) tables r = (wordOf refWords r).elim tables fun q =>
      if q.1 then collectBehind k tables q.2 else collectRefsFrom k tables q.2 := by
  rw [collectRefsFrom, wordOf]
  cases hs : skipSpaces r with
  | nil => rfl
  | cons c t =>
    dsimp only
    split
    · rfl
    · split
      · rfl
      · split
        · next hword =>
          rw [decide_eq_true hword]
          show _ = collectBehind k tables ((c :: t).dropWhile isIdentChar)
          rw [collectBehind]
          cases href : Eql.parseRef ((c :: t).dropWhile isIdentChar) with
          | mk names rest =>
            cases names with
            | none => rfl
            | some names =>
              show collectRefsFrom k (moreRefs rest.length _ _).1 (moreRefs rest.length _ _).2 = _
              rw [moreRefs_fuel (skipAlias_suffix rest).length_le]
              rfl
        · next hword =>
          rw [decide_eq_false hword]
          rfl

/-- The lengths that a scanner asks for are those of its words. -/
theorem length_mem_of_lower {lens : List ℕ} {words : List CString}
    (h : ∀ v ∈ words, v.length ∈ lens) (w : CString) (hw : lower w ∈ words) : w.length ∈ lens := by
  have hlen := h _ hw
  rwa [lower, List.length_map] at hlen

/-- **`collect_refs`** takes its turns. -/
theorem collectTurn_scans (hg : Given sql fuel) :
    Scans (collectTurn fuel) collectRefsFrom sql := by
  refine outerTurn_scans hg (length_mem_of_lower (by decide))
    (fun k tables => by cases k <;> rfl) collectRefsFrom_word
    (found_of_ref hg (fun tables r rest href hrun => ⟨?_, fun k => ?_⟩)
      fun tables r db part ks rest hrest href hrun => ?_)
  · rw [collectFound, hrun]
    rfl
  · rw [collectBehind, href]
    rfl
  · have halias := skipAlias_suffix rest
    let all := more (addRef tables db part ks) (Eql.skipAlias rest)
    have hmore : all.2 <:+ Eql.skipAlias rest := moreRefs_suffix _ _ _
    refine ⟨all.1, all.2, hmore.trans halias, ?_, fun k => ?_⟩
    · rw [collectFound, hrun, ok_bind]
      dsimp only
      rw [skipAlias_eq hrest hg, ok_bind, more_eq (halias.trans hrest) hg]
    · rw [collectBehind, href]
      rfl

/-! ## Columns of an INSERT -/

/-- Columns one by one are the columns together, when a column does not change which table is
meant. -/
theorem addColumns_cons {meant : Table → Bool}
    (hmeant : ∀ t name, meant (tableAddColumn t name) = meant t) (col : CString)
    (cols : List CString) (tables : List Table) :
    addColumns meant cols (addColumns meant [col] tables) = addColumns meant (col :: cols) tables := by
  induction tables with
  | nil => rfl
  | cons t tables ih =>
    rw [addColumns, addColumns]
    split
    · next ht =>
      rw [addColumns, List.foldl_cons, List.foldl_nil, if_pos (by rw [hmeant, ht]), List.foldl_cons]
    · next ht => rw [addColumns, if_neg ht, ih]

theorem addColumns_nil (meant : Table → Bool) (tables : List Table) :
    addColumns meant [] tables = tables := by
  induction tables with
  | nil => rfl
  | cons t tables ih =>
    rw [addColumns, ih]
    split <;> rfl

theorem insertColumns_suffix (k : ℕ) (r : CString) : (insertColumns k r).2 <:+ r := by
  induction k generalizing r with
  | zero => exact List.suffix_rfl
  | succ k ih =>
    have hs := skipSpaces_suffix r
    rw [insertColumns]
    dsimp only
    split
    · exact hs
    · next col r₁ hcol =>
      have h₁ := (readIdent_suffix hcol).1.trans hs
      have hs₁ := (skipSpaces_suffix r₁).trans h₁
      split
      · next r₂ hcomma =>
        rw [hcomma] at hs₁
        exact (ih r₂).trans ((List.suffix_cons _ _).trans hs₁)
      · exact hs₁

theorem columns_eq (h : r <:+ sql) (hg : Given sql fuel) {meant : Table → Bool}
    (hmeant : ∀ t name, meant (tableAddColumn t name) = meant t) :
    loop (columnsTurn fuel meant) fuel ⟨tables, scanAt sql r⟩ =
      .ok ⟨addColumns meant (insertColumns r.length r).1 tables,
        scanAt sql (insertColumns r.length r).2⟩ := by
  -- one column costs one turn, and the fuel that is left bounds the text that is left
  refine loop_eq (x := (r.length, tables, r)) (fun x => scanningAt sql x.2)
    (fun x => x.2.2 <:+ sql ∧ x.2.2.length ≤ x.1 ∧ x.1 ≤ sql.length) Prod.fst
    (fun x => scanningAt sql (addColumns meant (insertColumns x.1 x.2.2).1 x.2.1,
      (insertColumns x.1 x.2.2).2))
    (fun x hx => ?_) ⟨h, Nat.le_refl _, h.length_le⟩ (h.length_le.trans_lt hg.enough)
  obtain ⟨k, tables, r⟩ := x
  obtain ⟨hr, hk, hle⟩ := hx
  dsimp only [scanningAt] at hr hk hle ⊢
  have hs := (skipSpaces_suffix r).trans hr
  rw [columnsTurn, skipSpacesComments_eq hr hg, ok_bind, readIdent_eq hs hg.enough, ok_bind]
  cases k with
  | zero =>
    obtain rfl := List.eq_nil_of_length_eq_zero (Nat.le_zero.mp hk)
    left
    rw [insertColumns, addColumns_nil]
    rfl
  | succ k =>
    rw [insertColumns]
    dsimp only
    cases hcol : Eql.readIdent 128 (skipSpaces r) with
    | none =>
      -- no name: the list ends here
      left
      rw [addColumns_nil]
      rfl
    | some q =>
      -- a name goes on only behind a comma
      obtain ⟨col, r₁⟩ := q
      have hread := readIdent_suffix hcol
      have hspaces := (skipSpaces_suffix r).length_le
      have h₁ := hread.1.trans hs
      have hs₁ := skipSpaces_suffix r₁
      have hgap := hs₁.trans h₁
      dsimp only [Option.map]
      rw [skipSpacesComments_eq h₁ hg, ok_bind]
      cases hnext : skipSpaces r₁ with
      | nil =>
        left
        rw [if_neg (not_lt_len_scanAt sql)]
      | cons c t =>
        rw [hnext] at hs₁ hgap
        have hle₁ := hs₁.length_le
        rw [List.length_cons] at hle₁
        rw [if_pos (lt_len_scanAt hgap), byte_pos hgap, ok_bind, move_one hgap]
        by_cases hc : c = 44
        · right
          subst hc
          refine ⟨(k, addColumns meant [col] tables, t),
            ⟨suffix_tail hgap, by dsimp only; omega, by dsimp only; omega⟩, Nat.lt_succ_self k, ?_,
            rfl⟩
          dsimp only
          rw [addColumns_cons hmeant]
          rfl
        · left
          rw [if_neg hc]
          split
          · next heq => exact absurd (List.cons.inj heq).1 hc
          · rfl

/-- What `scanInsertFrom` does behind a word. -/
def insertBehind (k : ℕ) (tables : List Table) (r : CString) : List Table :=
  let rest := (Eql.parseRef r).2
  (Eql.parseRef r).1.elim (scanInsertFrom k tables rest) fun names =>
    let meant := fun t => sameShard t names.1 names.2.1 names.2.2
    if tables.any meant then
      let cols := (skipSpaces rest).tail
      if (skipSpaces rest).head? = some 40 then
        scanInsertFrom k (addColumns meant (insertColumns cols.length cols).1 tables)
          (insertColumns cols.length cols).2
      else scanInsertFrom k tables (skipSpaces rest)
    else scanInsertFrom k tables rest

theorem scanInsertFrom_word (k : ℕ) (tables : List Table) (r : CString) :
    scanInsertFrom (k + 1) tables r = (wordOf [cstr "into"] r).elim tables fun q =>
      if q.1 then insertBehind k tables q.2 else scanInsertFrom k tables q.2 := by
  rw [scanInsertFrom, wordOf]
  cases hs : skipSpaces r with
  | nil => rfl
  | cons c t =>
    dsimp only
    split
    · rfl
    · split
      · rfl
      · split
        · next hword =>
          rw [decide_eq_true (List.mem_singleton.mpr hword)]
          show _ = insertBehind k tables ((c :: t).dropWhile isIdentChar)
          rw [insertBehind]
          cases href : Eql.parseRef ((c :: t).dropWhile isIdentChar) with
          | mk names rest =>
            cases names with
            | none => rfl
            | some names =>
              dsimp only [Option.elim]
              split
              · split
                · next heq =>
                  rw [heq]
                  rfl
                · next hne =>
                  have hhead : ¬(skipSpaces rest).head? = some 40 := by
                    intro hhead
                    obtain ⟨t, ht⟩ := List.head?_eq_some_iff.mp hhead
                    exact hne t ht
                  rw [if_neg hhead]
              · rfl
        · next hword =>
          rw [decide_eq_false (fun h => hword (List.mem_singleton.mp h))]
          rfl

/-- **`scan_insert_columns`** takes its turns. -/
theorem insertTurn_scans (hg : Given sql fuel) :
    Scans (insertTurn fuel) scanInsertFrom sql := by
  refine outerTurn_scans hg (length_mem_of_lower (by decide))
    (fun k tables => by cases k <;> rfl) scanInsertFrom_word
    (found_of_ref hg (fun tables r rest href hrun => ⟨?_, fun k => ?_⟩)
      fun tables r db part ks rest hrest href hrun => ?_)
  · rw [insertFound, hrun]
    rfl
  · rw [insertBehind, href]
    rfl
  let meant := fun t => sameShard t db part ks
  have hmeant : ∀ t name, meant (tableAddColumn t name) = meant t :=
    tableAddColumn_of_bare fun _ => rfl
  have hbehind : ∀ k, insertBehind k tables r =
      if tables.any meant then
        if (skipSpaces rest).head? = some 40 then
          scanInsertFrom k (addColumns meant (insertColumns (skipSpaces rest).tail.length
            (skipSpaces rest).tail).1 tables) (insertColumns (skipSpaces rest).tail.length
            (skipSpaces rest).tail).2
        else scanInsertFrom k tables (skipSpaces rest)
      else scanInsertFrom k tables rest := by
    intro k
    rw [insertBehind, href]
    rfl
  rw [insertFound, hrun, ok_bind]
  dsimp only
  cases hany : tables.any meant with
  | false =>
    refine ⟨tables, rest, List.suffix_rfl, ?_, fun k => by rw [hbehind, hany]; rfl⟩
    rw [if_pos (by decide)]
  | true =>
    have hs := skipSpaces_suffix rest
    rw [if_neg (by decide), skipSpacesComments_eq hrest hg, ok_bind]
    cases hnext : skipSpaces rest with
    | nil =>
      refine ⟨tables, [], List.nil_suffix, ?_, fun k => by rw [hbehind, hany, hnext]; rfl⟩
      rw [if_pos (len_le_scanAt sql)]
    | cons c t =>
      rw [hnext] at hs
      have hcursor := hs.trans hrest
      rw [if_neg (not_len_le_scanAt hcursor), byte_pos hcursor, ok_bind, move_one hcursor]
      by_cases hc : c = 40
      · subst hc
        have hcols := insertColumns_suffix t.length t
        refine ⟨addColumns meant (insertColumns t.length t).1 tables, (insertColumns t.length t).2,
          hcols.trans ((List.suffix_cons _ _).trans hs), ?_, fun k => ?_⟩
        · rw [if_neg (fun hne => hne rfl)]
          exact columns_eq (suffix_tail hcursor) hg hmeant
        · rw [hbehind, hany, hnext]
          rfl
      · refine ⟨tables, c :: t, hs, by rw [if_pos hc], fun k => ?_⟩
        have hhead : ¬(c :: t).head? = some 40 := fun h => hc (Option.some.inj h)
        rw [hbehind, hany, hnext, if_pos rfl, if_neg hhead]

/-! ## Assignments of an UPDATE -/

theorem findSet_suffix {k : ℕ} {r' : CString} (h : findSet k r = some r') : r' <:+ r := by
  induction k generalizing r with
  | zero => cases h
  | succ k ih =>
    have hs := skipSpaces_suffix r
    cases hnext : skipSpaces r with
    | nil =>
      unfold findSet at h
      rw [hnext] at h
      cases h
    | cons c t =>
      rw [hnext] at hs
      rw [findSet_succ hnext] at h
      cases hword : Eql.readIdent 128 (c :: t) with
      | none =>
        rw [hword] at h
        exact (ih h).trans ((List.suffix_cons _ _).trans hs)
      | some q =>
        obtain ⟨word, r₁⟩ := q
        have h₁ := (readIdent_suffix hword).1.trans hs
        have hs₁ := (skipSpaces_suffix r₁).trans h₁
        rw [hword] at h
        dsimp only at h
        split at h
        · cases hname : Eql.readIdent 128 (skipSpaces r₁) with
          | none =>
            rw [hname] at h
            exact (ih h).trans hs₁
          | some q =>
            rw [hname] at h
            exact (ih h).trans ((readIdent_suffix hname).1.trans hs₁)
        · split at h
          · cases h
            exact h₁
          · exact (ih h).trans h₁

/-- The search for SET, which leaves the cursor behind the word or at the end of the text. -/
theorem set_eq (h : r <:+ sql) (hg : Given sql fuel) :
    loop (setTurn fuel) fuel (scanAt sql r) =
      .ok ((findSet r.length r).elim (false, scanAt sql []) fun rest => (true, scanAt sql rest)) := by
  refine loop_eq (x := (r.length, r)) (fun x => scanAt sql x.2)
    (fun x => x.2 <:+ sql ∧ x.2.length ≤ x.1) Prod.fst
    (fun x => (findSet x.1 x.2).elim (false, scanAt sql []) fun rest => (true, scanAt sql rest))
    (fun x hx => ?_) ⟨h, Nat.le_refl _⟩ (h.length_le.trans_lt hg.enough)
  obtain ⟨k, r⟩ := x
  obtain ⟨hr, hk⟩ := hx
  dsimp only at hr hk ⊢
  have hs := (skipSpaces_suffix r).trans hr
  rw [setTurn, skipSpacesComments_eq hr hg, ok_bind]
  cases hnext : skipSpaces r with
  | nil =>
    left
    have hnone : findSet k r = none := by
      cases k with
      | zero => rfl
      | succ k =>
        unfold findSet
        rw [hnext]
    rw [if_pos (len_le_scanAt sql), hnone]
    rfl
  | cons c t =>
    have hlt := (skipSpaces_cons_lt hnext).2
    obtain ⟨k, rfl⟩ := Nat.exists_eq_succ_of_ne_zero (show k ≠ 0 by omega)
    rw [hnext] at hs
    rw [if_neg (not_len_le_scanAt hs), readIdent_eq hs hg.enough, ok_bind, findSet_succ hnext]
    cases hword : Eql.readIdent 128 (c :: t) with
    | none =>
      right
      refine ⟨(k, t), ⟨suffix_tail hs, by dsimp only; omega⟩, Nat.lt_succ_self k, rfl, ?_⟩
      dsimp only [Option.map]
      rw [move_one hs]
    | some q =>
      obtain ⟨word, r₁⟩ := q
      obtain ⟨hread, hshort⟩ := readIdent_suffix hword
      have h₁ := hread.trans hs
      have hs₁ := (skipSpaces_suffix r₁).trans h₁
      have hle := (skipSpaces_suffix r₁).length_le
      rw [List.length_cons] at hshort
      dsimp only [Option.map]
      split
      · right
        rw [skipSpacesComments_eq h₁ hg, ok_bind, readIdent_eq hs₁ hg.enough, ok_bind]
        cases hname : Eql.readIdent 128 (skipSpaces r₁) with
        | none =>
          exact ⟨(k, skipSpaces r₁), ⟨hs₁, by dsimp only; omega⟩, Nat.lt_succ_self k, rfl, rfl⟩
        | some q =>
          have hname := readIdent_suffix hname
          exact ⟨(k, q.2), ⟨hname.1.trans hs₁, by dsimp only; omega⟩, Nat.lt_succ_self k, rfl, rfl⟩
      · split
        · exact Or.inl rfl
        · exact Or.inr ⟨(k, r₁), ⟨h₁, by dsimp only; omega⟩, Nat.lt_succ_self k, rfl, rfl⟩

theorem assignedColumns_nil {k depth : ℕ} (h : skipSpaces r = []) :
    assignedColumns (k + 1) depth r = ([], []) := by
  unfold assignedColumns
  rw [h]

/-- What the loop over the assignments works on, when `x` has the rounds that are left, the
depth, the tables and the rest of the text. -/
def assigningAt (sql : CString) (x : ℕ × ℕ × List Table × CString) : Assigning :=
  ⟨x.2.2.1, scanAt sql x.2.2.2, x.2.1⟩

/-- A turn at a word: the next clause, a name with an `=` behind it, or neither. -/
theorem assignTurn_word {depth : ℕ} (hr : r <:+ sql) (hg : Given sql fuel)
    (hnext : skipSpaces r = c :: t) (hident : isIdentChar c = true) (meant : Table → Bool)
    {col rest : CString} (hcol : snprintf 128 ((c :: t).takeWhile isIdentChar) = col)
    (hrest : (c :: t).dropWhile isIdentChar = rest) :
    assignTurn fuel meant ⟨tables, scanAt sql r, depth⟩ =
      .ok (if depth = 0 ∧ lower col ∈ clauseWords then .done ⟨tables, scanAt sql rest⟩
        else if depth = 0 ∧ (skipSpaces rest).head? = some 61 then
          .again ⟨addColumns meant [col] tables, scanAt sql (skipSpaces rest).tail, depth⟩
        else .again ⟨tables, scanAt sql rest, depth⟩) := by
  have hs : c :: t <:+ sql := hnext ▸ (skipSpaces_suffix r).trans hr
  have hcur : rest <:+ sql := hrest ▸ (List.dropWhile_suffix _).trans hs
  have hgap := (skipSpaces_suffix rest).trans hcur
  have hcomma : c ≠ 44 := ne_of_test hident (by decide)
  obtain ⟨hquote, hopen, hclose⟩ := plain_of_ident hident
  rw [assignTurn, skipSpacesComments_eq hr hg, ok_bind, hnext, if_neg (not_len_le_scanAt hs),
    byte_pos hs, ok_bind, hquote, hident, if_neg (by decide), if_neg hopen, if_neg hclose,
    if_neg (fun h => hcomma h.1), if_neg (by decide), readIdent_eq hs hg.enough,
    readIdent_bare hident, ok_bind, hcol, hrest]
  dsimp only [Option.map]
  split
  · rfl
  · rw [skipSpacesComments_eq hcur hg, ok_bind]
    cases hbehind : skipSpaces rest with
    | nil =>
      rw [if_neg (fun h => not_lt_len_scanAt sql h.2), if_neg (fun h => by cases h.2)]
    | cons e u =>
      rw [hbehind] at hgap
      by_cases hdepth : depth = 0
      · rw [if_pos ⟨hdepth, lt_len_scanAt hgap⟩, byte_pos hgap, ok_bind, move_one hgap]
        by_cases hequals : e = 61
        · rw [if_pos hequals, if_pos ⟨hdepth, congrArg some hequals⟩]
          rfl
        · rw [if_neg hequals, if_neg (fun h => hequals (Option.some.inj h.2))]
      · rw [if_neg (fun h => hdepth h.1), if_neg (fun h => hdepth h.1)]

theorem assign_eq (h : r <:+ sql) (hg : Given sql fuel) {meant : Table → Bool}
    (hmeant : ∀ t name, meant (tableAddColumn t name) = meant t) :
    loop (assignTurn fuel meant) fuel ⟨tables, scanAt sql r, 0⟩ =
      .ok ⟨addColumns meant (assignedColumns r.length 0 r).1 tables,
        scanAt sql (assignedColumns r.length 0 r).2⟩ := by
  -- the fuel that is left bounds the text that is left, and every turn takes one of it
  refine loop_eq (x := (r.length, 0, tables, r)) (assigningAt sql)
    (fun x => x.2.2.2 <:+ sql ∧ x.2.2.2.length ≤ x.1) Prod.fst
    (fun x => scanningAt sql (addColumns meant (assignedColumns x.1 x.2.1 x.2.2.2).1 x.2.2.1,
      (assignedColumns x.1 x.2.1 x.2.2.2).2))
    (fun x hx => ?_) ⟨h, Nat.le_refl _⟩ (h.length_le.trans_lt hg.enough)
  obtain ⟨k, depth, tables, r⟩ := x
  obtain ⟨hr, hk⟩ := hx
  dsimp only [assigningAt, scanningAt] at hr hk ⊢
  have hs := (skipSpaces_suffix r).trans hr
  cases hnext : skipSpaces r with
  | nil =>
    -- the end of the text
    left
    have hnone : assignedColumns k depth r = ([], []) := by
      cases k with
      | zero =>
        obtain rfl := List.eq_nil_of_length_eq_zero (Nat.le_zero.mp hk)
        rfl
      | succ k => exact assignedColumns_nil hnext
    rw [assignTurn, skipSpacesComments_eq hr hg, ok_bind, hnext, if_pos (len_le_scanAt sql), hnone,
      addColumns_nil]
  | cons c t =>
    have hlt := (skipSpaces_cons_lt hnext).2
    obtain ⟨k, rfl⟩ := Nat.exists_eq_succ_of_ne_zero (show k ≠ 0 by omega)
    rw [hnext] at hs
    have ht := suffix_tail hs
    have htk : t.length ≤ k := by omega
    cases hident : isIdentChar c with
    | false =>
      -- no name: a literal is skipped, a bracket counts, anything else is one byte
      right
      rw [assignTurn, skipSpacesComments_eq hr hg, ok_bind, hnext, if_neg (not_len_le_scanAt hs),
        byte_pos hs, ok_bind, assignedColumns_succ hnext, hident]
      dsimp only
      rw [move_one hs]
      split
      · have hraw := skipQuotedRaw_suffix c t
        rw [skipQuotedRaw_eq hs hg.enough, ok_bind]
        exact ⟨(k, depth, tables, Eql.skipQuotedRaw c t),
          ⟨hraw.trans ht, hraw.length_le.trans htk⟩, Nat.lt_succ_self k, rfl, rfl⟩
      · split
        · exact ⟨(k, depth + 1, tables, t), ⟨ht, htk⟩, Nat.lt_succ_self k, rfl, rfl⟩
        · split
          · exact ⟨(k, depth - 1, tables, t), ⟨ht, htk⟩, Nat.lt_succ_self k, rfl, rfl⟩
          · refine ⟨(k, depth, tables, t), ⟨ht, htk⟩, Nat.lt_succ_self k, rfl, ?_⟩
            split <;> rfl
    | true =>
      -- a name: the loop ends at a clause word, and takes the name where an `=` follows
      generalize hcol : snprintf 128 ((c :: t).takeWhile isIdentChar) = col
      generalize hrest : (c :: t).dropWhile isIdentChar = rest
      have hword : rest <:+ t := by
        rw [← hrest, List.dropWhile_cons_of_pos hident]
        exact List.dropWhile_suffix _
      have hrestk := hword.length_le.trans htk
      rw [assignTurn_word hr hg hnext hident meant hcol hrest]
      by_cases hstop : depth = 0 ∧ lower col ∈ clauseWords
      · left
        rw [if_pos hstop, assignedColumns_clause k hnext hident (by rw [hcol]; exact hstop), hrest,
          addColumns_nil]
      · right
        rw [if_neg hstop]
        by_cases hequals : depth = 0 ∧ (skipSpaces rest).head? = some 61
        · obtain ⟨rfl, hhead⟩ := hequals
          obtain ⟨u, hu⟩ := List.head?_eq_some_iff.mp hhead
          have hgap := skipSpaces_suffix rest
          rw [hu] at hgap
          have hshort := hgap.length_le
          rw [List.length_cons] at hshort
          refine ⟨(k, 0, addColumns meant [col] tables, u),
            ⟨suffix_tail (hgap.trans (hword.trans ht)), by dsimp only; omega⟩, Nat.lt_succ_self k, ?_,
            by rw [if_pos ⟨rfl, hhead⟩, hu]; rfl⟩
          dsimp only
          rw [assignedColumns_equals k hnext hident (by rw [hcol]; exact fun h => hstop ⟨rfl, h⟩)
            (by rw [hrest]; exact hu), hcol, addColumns_cons hmeant]
        · refine ⟨(k, depth, tables, rest), ⟨hword.trans ht, hrestk⟩, Nat.lt_succ_self k, ?_,
            by rw [if_neg hequals]⟩
          dsimp only
          rw [assignedColumns_word k hnext hident (by rw [hcol]; exact hstop)
            (by rw [hrest]; exact fun hdepth hhead => hequals ⟨hdepth, hhead⟩), hrest]

theorem assignedColumns_suffix (k depth : ℕ) (r : CString) :
    (assignedColumns k depth r).2 <:+ r := by
  induction k generalizing depth r with
  | zero => exact List.suffix_rfl
  | succ k ih =>
    have hs := skipSpaces_suffix r
    cases hnext : skipSpaces r with
    | nil =>
      rw [assignedColumns_nil hnext]
      exact List.nil_suffix
    | cons c t =>
      rw [hnext] at hs
      have ht : t <:+ r := (List.suffix_cons _ _).trans hs
      rw [assignedColumns_succ hnext]
      dsimp only
      split
      · exact (ih _ _).trans ((skipQuotedRaw_suffix c t).trans ht)
      · split
        · exact (ih _ _).trans ht
        · split
          · exact (ih _ _).trans ht
          · split
            · exact (ih _ _).trans ht
            · have hrest : (c :: t).dropWhile isIdentChar <:+ r := (List.dropWhile_suffix _).trans hs
              have hgap := (skipSpaces_suffix ((c :: t).dropWhile isIdentChar)).trans hrest
              split
              · exact hrest
              · split
                · next u heq =>
                  rw [heq] at hgap
                  split
                  · exact (ih _ _).trans ((List.suffix_cons _ _).trans hgap)
                  · exact (ih _ _).trans hrest
                · exact (ih _ _).trans hrest

/-- What `scanUpdateFrom` does behind a word. -/
def updateBehind (k : ℕ) (tables : List Table) (r : CString) : List Table :=
  let rest := (Eql.parseRef r).2
  (Eql.parseRef r).1.elim (scanUpdateFrom k tables rest) fun names =>
    let meant := fun t : Table =>
      sameShard t names.1 names.2.1 names.2.2 && t.pw == decide (names.2.2 = [])
    if tables.any meant then
      (findSet rest.length rest).elim tables fun set =>
        scanUpdateFrom k (addColumns meant (assignedColumns set.length 0 set).1 tables)
          (assignedColumns set.length 0 set).2
    else scanUpdateFrom k tables rest

theorem scanUpdateFrom_word (k : ℕ) (tables : List Table) (r : CString) :
    scanUpdateFrom (k + 1) tables r = (wordOf [cstr "update"] r).elim tables fun q =>
      if q.1 then updateBehind k tables q.2 else scanUpdateFrom k tables q.2 := by
  rw [scanUpdateFrom, wordOf]
  cases hs : skipSpaces r with
  | nil => rfl
  | cons c t =>
    dsimp only
    split
    · rfl
    · split
      · rfl
      · split
        · next hword =>
          rw [decide_eq_true (List.mem_singleton.mpr hword)]
          show _ = updateBehind k tables ((c :: t).dropWhile isIdentChar)
          rw [updateBehind]
          cases href : Eql.parseRef ((c :: t).dropWhile isIdentChar) with
          | mk names rest =>
            cases names with
            | none => rfl
            | some names =>
              dsimp only [Option.elim]
              split
              · cases findSet rest.length rest with
                | none => rfl
                | some set => rfl
              · rfl
        · next hword =>
          rw [decide_eq_false (fun h => hword (List.mem_singleton.mp h))]
          rfl

/-- **`scan_update_columns`** takes its turns. -/
theorem updateTurn_scans (hg : Given sql fuel) :
    Scans (updateTurn fuel) scanUpdateFrom sql := by
  refine outerTurn_scans hg (length_mem_of_lower (by decide))
    (fun k tables => by cases k <;> rfl) scanUpdateFrom_word
    (found_of_ref hg (fun tables r rest href hrun => ⟨?_, fun k => ?_⟩)
      fun tables r db part ks rest hrest href hrun => ?_)
  · rw [updateFound, hrun]
    rfl
  · rw [updateBehind, href]
    rfl
  let meant := fun t : Table => sameShard t db part ks && t.pw == decide (ks = [])
  have hmeant : ∀ t name, meant (tableAddColumn t name) = meant t :=
    tableAddColumn_of_bare fun _ => rfl
  have hbehind : ∀ k, updateBehind k tables r =
      if tables.any meant then
        (findSet rest.length rest).elim tables fun set =>
          scanUpdateFrom k (addColumns meant (assignedColumns set.length 0 set).1 tables)
            (assignedColumns set.length 0 set).2
      else scanUpdateFrom k tables rest := by
    intro k
    rw [updateBehind, href]
    rfl
  rw [updateFound, hrun, ok_bind]
  dsimp only
  cases hany : tables.any meant with
  | false =>
    refine ⟨tables, rest, List.suffix_rfl, ?_, fun k => by rw [hbehind, hany]; rfl⟩
    rw [if_pos (by decide)]
  | true =>
    rw [if_neg (by decide), set_eq hrest hg, ok_bind]
    cases hset : findSet rest.length rest with
    | none =>
      refine ⟨tables, [], List.nil_suffix, rfl, fun k => ?_⟩
      rw [hbehind, hany, hset]
      cases k <;> rfl
    | some set =>
      have hafter := findSet_suffix hset
      have hcols := assignedColumns_suffix set.length 0 set
      refine ⟨addColumns meant (assignedColumns set.length 0 set).1 tables,
        (assignedColumns set.length 0 set).2, hcols.trans hafter, ?_, fun k => ?_⟩
      · exact assign_eq (hafter.trans hrest) hg hmeant
      · rw [hbehind, hany, hset]
        rfl

end EqlScan

/-- **The scanners end** on every text, whatever its quotes and comments are and for every list
of tables: given more turns than the text has bytes, no loop runs out of them, no byte past the
terminator is read, and the tables are those of the scanner without a cursor. Each turn of an
outer loop, from any place of the text, ends behind that place and not behind the text. -/
theorem scanners_end (text : CString) (tables : List Table) (fuel : ℕ)
    (hfuel : (cString text).length < fuel) :
    EqlScan.collectRefs fuel (cString text) tables =
        .ok (collectRefsFrom (cString text).length tables (cString text)) ∧
      EqlScan.scanInsertColumns fuel (cString text) tables =
        .ok (scanInsertColumns (cString text) tables) ∧
      EqlScan.scanUpdateColumns fuel (cString text) tables =
        .ok (scanUpdateColumns (cString text) tables) ∧
      EqlScan.Advances (EqlScan.collectTurn fuel) (cString text) ∧
      EqlScan.Advances (EqlScan.insertTurn fuel) (cString text) ∧
      EqlScan.Advances (EqlScan.updateTurn fuel) (cString text) := by
  have hg : Given (cString text) fuel := ⟨fun h => by
    have hne := List.mem_takeWhile_imp h
    simp at hne, hfuel⟩
  have hcollect := EqlScan.collectTurn_scans hg
  have hinsert := EqlScan.insertTurn_scans hg
  have hupdate := EqlScan.updateTurn_scans hg
  refine ⟨?_, ?_, ?_, hcollect.advances, hinsert.advances, hupdate.advances⟩
  · rw [EqlScan.collectRefs, hcollect.run hfuel]
    rfl
  · rw [EqlScan.scanInsertColumns, hinsert.run hfuel]
    rfl
  · rw [EqlScan.scanUpdateColumns, hupdate.run hfuel]
    rfl

/-- A value that is never closed. -/
theorem scanners_end_open_quote :
    EqlScan.scanUpdateColumns 64 (cString (cstr "update a.b set c = 'd"))
        [mkTable 0 (cstr "a") (cstr "b") []] =
      .ok [tableAddColumn (mkTable 0 (cstr "a") (cstr "b") []) (cstr "c")] := by
  have hend := (scanners_end (cstr "update a.b set c = 'd") [mkTable 0 (cstr "a") (cstr "b") []] 64
    (by decide)).2.2.1
  exact hend.trans (congrArg Except.ok (by decide))

end EpsilonDB.Eql
