import EpsilonDB.Eql.Cursor

/-!
# The buffer of the rewritten text

`rewrite_sql` writes into a buffer of twice the length of the text and fifteen bytes. A byte
that finds it full is dropped, and the loop that copies a block comment stops there for good.
An alias can be longer than its reference: `a.b` becomes `eql_t10`.

- `rewriteInto`: the function with its buffer, which ends or does not.
- `rewriteItem`: what one round reads and writes.
- `length_rewriteFrom_le`: a round writes at most twice what it reads, but for a reference of
  three bytes, and no two of those stand side by side.
- `rewriteInto_complete`: the function ends, with the complete text.
-/

namespace EpsilonDB.Eql

/-- Bytes are written while there is room. -/
def emit (cap : ℕ) (out bytes : CString) : CString := out ++ bytes.take (cap - out.length)

/-- `rewrite_sql` into `cap` bytes, of which `out` are written; nothing when it has not ended
after some rounds. -/
def rewriteInto (tables : List Table) (cap : ℕ) : ℕ → CString → CString → Option CString
  | _, out, [] => some out
  | 0, _, _ :: _ => none
  | fuel + 1, out, c :: t =>
    let s := c :: t
    let copy := fun rest : CString =>
      rewriteInto tables cap fuel (emit cap out (upTo s rest)) rest
    if c = 39 then copy (skipQuotedRaw c t)
    else if (cstr "--").isPrefixOf s then copy (s.dropWhile fun x => x != 10)
    else if (cstr "/*").isPrefixOf s then
      -- the cursor stops where the buffer is full
      let written := (upTo s (afterComment (s.drop 2))).take (cap - out.length)
      rewriteInto tables cap fuel (out ++ written) (s.drop written.length)
    else if !(opensQuote c || isIdentChar c) then copy t
    else match matchRef tables s with
      | some (name, rest) => rewriteInto tables cap fuel (emit cap out name) rest
      | none =>
        if opensQuote c then copy (skipQuotedRaw c t) else copy (s.dropWhile isIdentChar)

/-- What one round writes, and what it leaves to be read. -/
def rewriteItem (tables : List Table) (c : UInt8) (t : CString) : CString × CString :=
  let s := c :: t
  let copy := fun rest : CString => (upTo s rest, rest)
  if c = 39 then copy (skipQuotedRaw c t)
  else if (cstr "--").isPrefixOf s then copy (s.dropWhile fun x => x != 10)
  else if (cstr "/*").isPrefixOf s then copy (afterComment (s.drop 2))
  else if !(opensQuote c || isIdentChar c) then copy t
  else match matchRef tables s with
    | some r => r
    | none =>
      if opensQuote c then copy (skipQuotedRaw c t) else copy (s.dropWhile isIdentChar)

variable {tables : List Table} {s r : CString} {c : UInt8} {t : CString}

/-! ## Rounds -/

theorem rewriteFrom_succ (tables : List Table) (fuel : ℕ) (c : UInt8) (t : CString) :
    rewriteFrom tables (fuel + 1) (c :: t) =
      (rewriteItem tables c t).1 ++ rewriteFrom tables fuel (rewriteItem tables c t).2 := by
  unfold rewriteItem
  rw [rewriteFrom]
  dsimp only
  split
  · rfl
  · split
    · rfl
    · split
      · rfl
      · split
        · rfl
        · split
          · next heq => rw [heq]
          · next heq =>
            rw [heq]
            dsimp only
            split
            · rfl
            · rfl

/-- Where there is room, a round of the buffer is a round. -/
theorem rewriteInto_succ {cap fuel : ℕ} {out : CString}
    (hroom : out.length + (rewriteItem tables c t).1.length ≤ cap) :
    rewriteInto tables cap (fuel + 1) out (c :: t) =
      rewriteInto tables cap fuel (out ++ (rewriteItem tables c t).1)
        (rewriteItem tables c t).2 := by
  have hemit : ∀ bytes : CString, out.length + bytes.length ≤ cap →
      emit cap out bytes = out ++ bytes := by
    intro bytes hbytes
    unfold emit
    rw [List.take_of_length_le (by omega)]
  -- the two loops branch alike; where they write, there is room
  unfold rewriteItem at hroom ⊢
  rw [rewriteInto]
  dsimp only at hroom ⊢
  split
  · next h =>
    rw [if_pos h] at hroom
    rw [hemit _ hroom]
  · next h =>
    rw [if_neg h] at hroom
    split
    · next h1 =>
      rw [if_pos h1] at hroom
      rw [hemit _ hroom]
    · next h1 =>
      rw [if_neg h1] at hroom
      split
      · next h2 =>
        rw [if_pos h2] at hroom
        have hsuffix : afterComment ((c :: t).drop 2) <:+ c :: t :=
          (afterComment_suffix _).trans (List.drop_suffix _ _)
        rw [List.take_of_length_le (by dsimp only at hroom; omega)]
        rw [drop_upTo hsuffix]
      · next h2 =>
        rw [if_neg h2] at hroom
        split
        · next h3 =>
          rw [if_pos h3] at hroom
          rw [hemit _ hroom]
        · next h3 =>
          rw [if_neg h3] at hroom
          split
          · next name rest heq =>
            rw [heq] at hroom ⊢
            rw [hemit _ hroom]
          · next heq =>
            rw [heq] at hroom ⊢
            dsimp only at hroom ⊢
            split
            · next h4 =>
              rw [if_pos h4] at hroom
              rw [hemit _ hroom]
            · next h4 =>
              rw [if_neg h4] at hroom
              rw [hemit _ hroom]

/-! ## What a round takes and writes -/

/-- A dotted name is no shorter than its dots and its first bytes, and one that is no longer
ends where a word ends. -/
theorem readDotted_cases {n : ℕ} {names : CString} (h : readDotted n s = some (names, r)) :
    r <:+ s ∧ (r.length + (2 * n + 2) ≤ s.length ∨
      r.length + (2 * n + 1) = s.length ∧ (∃ c t, s = c :: t ∧ isIdentChar c = true) ∧
        ∀ d ∈ r.head?, isIdentChar d = false) := by
  induction n generalizing s names with
  | zero =>
    obtain ⟨hsuffix, hlong | ⟨hlt, hbare⟩⟩ := readIdent_cases h
    · exact ⟨hsuffix, Or.inl (by omega)⟩
    · by_cases htwo : r.length + 2 ≤ s.length
      · exact ⟨hsuffix, Or.inl (by omega)⟩
      · exact ⟨hsuffix, Or.inr ⟨by omega, hbare⟩⟩
  | succ n ih =>
    rw [readDotted] at h
    obtain ⟨⟨name, s₁⟩, hname, h⟩ := Option.bind_eq_some_iff.mp h
    dsimp only at h
    split at h
    · next s₂ hdot =>
      obtain ⟨⟨names', r'⟩, hrest, h⟩ := Option.bind_eq_some_iff.mp h
      obtain rfl : r' = r := congrArg Prod.snd (Option.some.inj h)
      obtain ⟨hs₂, hlt₂⟩ := skipSpaces_cons_lt hdot
      have hs₃ := skipSpaces_suffix s₂
      obtain ⟨hr, hcases⟩ := ih hrest
      obtain ⟨hs₁, hfirst⟩ := readIdent_cases hname
      refine ⟨hr.trans (hs₃.trans (hs₂.trans hs₁)), ?_⟩
      have hle₃ := hs₃.length_le
      rcases hcases with hlong | ⟨htight, -, hend⟩
      · left
        rcases hfirst with hquoted | ⟨hlt, -⟩
        · omega
        · omega
      · rcases hfirst with hquoted | ⟨hlt, hbare, -⟩
        · exact Or.inl (by omega)
        · by_cases hmore : r'.length + (2 * (n + 1) + 2) ≤ s.length
          · exact Or.inl hmore
          · exact Or.inr ⟨by omega, hbare, hend⟩
    · cases h

/-- **A reference** has four bytes and more, or it is two letters and a dot, and a word ends
there. Its alias is one of the aliases. -/
theorem matchRef_cases {name : CString} (h : matchRef tables s = some (name, r)) :
    (∃ t ∈ tables, t.tableAlias = name) ∧ r <:+ s ∧ (r.length + 4 ≤ s.length ∨
      r.length + 3 = s.length ∧ (∃ c t, s = c :: t ∧ isIdentChar c = true) ∧
        ∀ d ∈ r.head?, isIdentChar d = false) := by
  have hfound : ∀ {n} {p : CString → Table → Bool},
      ((readDotted n s).bind fun r => (tables.find? (p r.1)).map fun t => (t.tableAlias, r.2)) =
        some (name, r) →
      (∃ t ∈ tables, t.tableAlias = name) ∧ ∃ names, readDotted n s = some (names, r) := by
    intro n p h
    obtain ⟨⟨names, r'⟩, hnames, h⟩ := Option.bind_eq_some_iff.mp h
    obtain ⟨t, ht, h⟩ := Option.map_eq_some_iff.mp h
    cases h
    exact ⟨⟨t, List.mem_of_find?_eq_some ht, rfl⟩, names, hnames⟩
  unfold matchRef at h
  dsimp only at h
  split at h
  · next heq =>
    cases h
    obtain ⟨halias, names, hnames⟩ :=
      hfound (p := fun names t => decide (snprintf 512 names = t.dotted)) heq
    obtain ⟨hsuffix, hlong | ⟨htight, -⟩⟩ := readDotted_cases hnames
    · exact ⟨halias, hsuffix, Or.inl (by omega)⟩
    · exact ⟨halias, hsuffix, Or.inl (by omega)⟩
  · obtain ⟨halias, names, hnames⟩ :=
      hfound (p := fun names t => t.pw && decide (snprintf 512 names = t.dotted)) h
    exact ⟨halias, readDotted_cases hnames⟩

/-- A round takes at least a byte. -/
theorem rewriteItem_suffix (tables : List Table) (c : UInt8) (t : CString) :
    (rewriteItem tables c t).2 <:+ c :: t ∧ (rewriteItem tables c t).2.length < t.length + 1 := by
  have hshorter : ∀ {r : CString}, r <:+ t → r <:+ c :: t ∧ r.length < t.length + 1 := fun h =>
    ⟨h.trans (List.suffix_cons _ _), Nat.lt_succ_of_le h.length_le⟩
  unfold rewriteItem
  dsimp only
  split
  · exact hshorter (skipQuotedRaw_suffix _ _)
  · split
    · next hdash =>
      have hc : (c != 10) = true := by
        rw [cstr] at hdash
        simp [List.isPrefixOf] at hdash
        simp [← hdash.1]
      have hdrop : (c :: t).dropWhile (fun x => x != 10) = t.dropWhile fun x => x != 10 :=
        List.dropWhile_cons_of_pos hc
      rw [hdrop]
      exact hshorter (List.dropWhile_suffix _)
    · split
      · exact hshorter ((afterComment_suffix _).trans (List.drop_suffix 1 t))
      · split
        · exact hshorter List.suffix_rfl
        · next hopens =>
          split
          · next r heq =>
            obtain ⟨-, hsuffix, hlong | ⟨htight, -⟩⟩ := matchRef_cases heq
            · exact ⟨hsuffix, by rw [List.length_cons] at hlong; omega⟩
            · exact ⟨hsuffix, by rw [List.length_cons] at htight; omega⟩
          · split
            · exact hshorter (skipQuotedRaw_suffix _ _)
            · next hquote =>
              have hident : isIdentChar c = true := by
                by_contra hnot
                simp [hnot, hquote] at hopens
              rw [List.dropWhile_cons_of_pos hident]
              exact hshorter (List.dropWhile_suffix _)

/-- What a round writes: an alias for a reference, and else what it read. -/
theorem rewriteItem_cases (tables : List Table) (c : UInt8) (t : CString) :
    matchRef tables (c :: t) = some (rewriteItem tables c t) ∨
      (rewriteItem tables c t).1 = upTo (c :: t) (rewriteItem tables c t).2 := by
  unfold rewriteItem
  dsimp only
  split
  · exact Or.inr rfl
  · split
    · exact Or.inr rfl
    · split
      · exact Or.inr rfl
      · split
        · exact Or.inr rfl
        · split
          · next heq => exact Or.inl heq
          · split
            · exact Or.inr rfl
            · exact Or.inr rfl

/-! ## The bound -/

/-- **Twice the length and one**; only a text that starts with a word takes the one. -/
theorem length_rewriteFrom_le (halias : ∀ t ∈ tables, t.tableAlias.length ≤ 7) (fuel : ℕ)
    (s : CString) : (rewriteFrom tables fuel s).length ≤ 2 * s.length + 1 ∧
      ((∀ c ∈ s.head?, isIdentChar c = false) →
        (rewriteFrom tables fuel s).length ≤ 2 * s.length) := by
  induction fuel generalizing s with
  | zero => exact ⟨Nat.zero_le _, fun _ => Nat.zero_le _⟩
  | succ fuel ih =>
    cases s with
    | nil => exact ⟨Nat.zero_le _, fun _ => Nat.zero_le _⟩
    | cons c t =>
      obtain ⟨hsuffix, hlt⟩ := rewriteItem_suffix tables c t
      obtain ⟨hrest, hrestPlain⟩ := ih (rewriteItem tables c t).2
      have hcases := rewriteItem_cases tables c t
      rw [rewriteFrom_succ, List.length_append, List.length_cons]
      generalize rewriteItem tables c t = item at *
      rcases hcases with hmatch | hcopy
      · obtain ⟨⟨u, hu, hname⟩, -, hlong | ⟨hshort, ⟨d, t', hs, hident⟩, hend⟩⟩ :=
          matchRef_cases hmatch
        · have hseven := halias u hu
          rw [hname] at hseven
          rw [List.length_cons] at hlong
          exact ⟨by omega, fun _ => by omega⟩
        · have hseven := halias u hu
          rw [hname] at hseven
          rw [List.length_cons] at hshort
          have hplain := hrestPlain hend
          refine ⟨by omega, fun hnot => ?_⟩
          obtain ⟨rfl, rfl⟩ := List.cons.inj hs
          have hfalse : isIdentChar c = false := hnot c rfl
          rw [hident] at hfalse
          cases hfalse
      · have hlen := length_upTo hsuffix
        rw [← hcopy, List.length_cons] at hlen
        exact ⟨by omega, fun _ => by omega⟩

theorem rewriteFrom_fuel {fuel : ℕ} (h : s.length ≤ fuel) :
    rewriteFrom tables fuel s = rewriteFrom tables s.length s := by
  induction hn : s.length using Nat.strong_induction_on generalizing s fuel with
  | _ n ih =>
    subst hn
    cases s with
    | nil =>
      cases fuel with
      | zero => rfl
      | succ fuel => rfl
    | cons c t =>
      obtain ⟨fuel, rfl⟩ := Nat.exists_eq_succ_of_ne_zero
        (Nat.ne_of_gt (Nat.lt_of_lt_of_le (Nat.succ_pos _) h))
      obtain ⟨-, hlt⟩ := rewriteItem_suffix tables c t
      rw [List.length_cons] at h ⊢
      have hsame : ∀ fuel', (rewriteItem tables c t).2.length ≤ fuel' →
          rewriteFrom tables fuel' (rewriteItem tables c t).2 =
            rewriteFrom tables (rewriteItem tables c t).2.length (rewriteItem tables c t).2 :=
        fun _ hle => ih _ hlt hle rfl
      rw [rewriteFrom_succ, rewriteFrom_succ, hsame fuel (by omega), hsame t.length (by omega)]

/-- Where the text fits, the function with its buffer writes it. -/
theorem rewriteInto_eq {cap fuel : ℕ} {out : CString} (hfuel : s.length ≤ fuel)
    (hfits : out.length + (rewriteFrom tables fuel s).length ≤ cap) :
    rewriteInto tables cap fuel out s = some (out ++ rewriteFrom tables fuel s) := by
  induction fuel generalizing s out with
  | zero =>
    obtain rfl := List.eq_nil_of_length_eq_zero (Nat.le_zero.mp hfuel)
    exact congrArg some (List.append_nil out).symm
  | succ fuel ih =>
    cases s with
    | nil => exact congrArg some (List.append_nil out).symm
    | cons c t =>
      obtain ⟨-, hlt⟩ := rewriteItem_suffix tables c t
      rw [rewriteFrom_succ, List.length_append] at hfits
      rw [List.length_cons] at hfuel
      rw [rewriteInto_succ (by omega), rewriteFrom_succ, ← List.append_assoc]
      refine ih (by omega) ?_
      rw [List.length_append]
      omega

theorem length_aliasName {i : ℕ} (h : i < maxTables) : (aliasName i).length ≤ 7 := by
  have hall : ∀ i < maxTables, (aliasName i).length ≤ 7 := by decide
  exact hall i h

theorem Collected.length_alias (h : Collected (tables.map Table.bare)) :
    ∀ t ∈ tables, t.tableAlias.length ≤ 7 := by
  intro t ht
  obtain ⟨i, hi, hget⟩ := List.mem_iff_getElem.mp (List.mem_map_of_mem (f := Table.bare) ht)
  obtain ⟨db, part, ks, hmk⟩ := h.2 i _ (List.getElem?_eq_getElem hi)
  have hbare : t.bare.tableAlias = aliasName i := by
    rw [← hget, hmk]
    rfl
  rw [show t.tableAlias = t.bare.tableAlias from rfl, hbare]
  exact length_aliasName (hi.trans_le h.1)

/-- **Rewriting never truncates and always ends**: for every text and the tables of at most
sixteen references, the text that is complete has at most twice the length and one byte more,
and the function has written it after as many rounds as there are bytes. -/
theorem rewriteInto_complete (h : Collected (tables.map Table.bare)) (sql : CString) :
    (rewriteSql tables sql).length ≤ 2 * sql.length + 1 ∧
      ∀ fuel, sql.length ≤ fuel →
        rewriteInto tables (2 * sql.length + 15) fuel [] sql = some (rewriteSql tables sql) := by
  have hbound := (length_rewriteFrom_le h.length_alias sql.length sql).1
  refine ⟨hbound, fun fuel hfuel => ?_⟩
  have hsame : rewriteFrom tables fuel sql = rewriteSql tables sql := rewriteFrom_fuel hfuel
  rw [rewriteInto_eq hfuel, List.nil_append, hsame]
  rw [hsame, List.length_nil]
  unfold rewriteSql
  omega

/-- Eleven references. -/
def elevenRefs : CString := cstr "SELECT 1 FROM a.a,a.b,a.c,a.d,a.e,a.f,a.g,a.h,a.i,a.j,a.k"

/-- The last alias takes one byte more than twice its reference. -/
theorem rewriteInto_elevenRefs :
    Collected ((collectRefs elevenRefs).map Table.bare) ∧
      rewriteSql (collectRefs elevenRefs) (cstr "a.k") = cstr "eql_t10" ∧
      rewriteInto (collectRefs elevenRefs) 21 3 [] (cstr "a.k") =
        some (rewriteSql (collectRefs elevenRefs) (cstr "a.k")) := by
  have hbare : (collectRefs elevenRefs).map Table.bare = collectRefs elevenRefs := by
    decide +kernel
  have hcollected : Collected ((collectRefs elevenRefs).map Table.bare) := by
    rw [hbare]
    exact collected_collectRefs elevenRefs
  exact ⟨hcollected, by decide +kernel,
    (rewriteInto_complete hcollected (cstr "a.k")).2 3 (by decide)⟩

end EpsilonDB.Eql
