import EpsilonDB.Eql.Literals
import EpsilonDB.Eql.RewriteBuffer
import Mathlib.Data.List.DropRight

/-!
# What is replaced (`eql/epsilon_eql.c`)

`rewrite_sql` goes through a text with a lexer of its own, and what it writes is read by the
lexer of SQLite.

- `replaceRefs`: the text with the names of tables replaced, token by token.
- `Rewrites`: the function writes that text, and leaves every literal where it ends.
- `RegularAt`: no table's name is read differently at a token, and none is read inside of it.
- `rewriteSql_eq_replaceRefs`: where literals end alike, the function writes that text.
- `rewrites_iff`: so it does when the literals are plain.
- `namesAlike_of_plainNames`: names of ASCII letters, digits and underscores are read alike.
-/

namespace EpsilonDB.Eql

/-! ## Names in a list of tokens -/

def skipGapFrom : ℕ → CString → CString
  | 0, s => s
  | _, [] => []
  | fuel + 1, c :: t =>
    if (sqliteGetToken c t).1 = .space ∨ (sqliteGetToken c t).1 = .comment then
      skipGapFrom fuel (sqliteGetToken c t).2
    else c :: t

/-- What follows white space and comments, as SQLite reads them. -/
def skipGap (s : CString) : CString := skipGapFrom s.length s

/-- The name in a token. -/
def tokenName (c : UInt8) (t : CString) : CString :=
  if c = 34 ∨ c = 96 then ((quotedToken c t).map Prod.fst).getD []
  else if c = 91 then t.takeWhile fun d => d != 93
  else upTo (c :: t) (sqliteGetToken c t).2

/-- The name at the cursor, if the token there is one, and what follows it. -/
def nameToken : CString → Option (CString × CString)
  | [] => none
  | c :: t =>
    if (sqliteGetToken c t).1 = .name then some (tokenName c t, (sqliteGetToken c t).2) else none

/-- `n + 1` names with dots between them, joined by dots, and what follows. -/
def spelledName : ℕ → CString → Option (CString × CString)
  | 0, s => nameToken s
  | n + 1, s => do
    let (name, s) ← nameToken s
    match skipGap s with
    | 46 :: s =>
      if s.head?.any isDigit then none
      else do
        let (names, s) ← spelledName n (skipGap s)
        return (name ++ cstr "." ++ names, s)
    | _ => none

/-- The alias of the table that the tokens at the cursor spell, and what follows them. -/
def spelledRef (tables : List Table) (s : CString) : Option (CString × CString) :=
  let three := (spelledName 2 s).bind fun r =>
    (tables.find? fun t => snprintf 512 r.1 = t.dotted).map fun t => (t.tableAlias, r.2)
  match three with
  | some r => some r
  | none => (spelledName 1 s).bind fun r =>
      (tables.find? fun t => t.pw && snprintf 512 r.1 = t.dotted).map fun t => (t.tableAlias, r.2)

def replaceFrom (tables : List Table) : ℕ → CString → CString
  | 0, _ => []
  | _, [] => []
  | fuel + 1, c :: t =>
    match spelledRef tables (c :: t) with
    | some (name, rest) => name ++ replaceFrom tables fuel rest
    | none =>
      upTo (c :: t) (sqliteGetToken c t).2 ++ replaceFrom tables fuel (sqliteGetToken c t).2

/-- The tokens that spell a table's dotted name are replaced by its alias, and every other token
is copied. -/
def replaceRefs (tables : List Table) (sql : CString) : CString :=
  replaceFrom tables sql.length sql

/-- Only references are replaced, and literals end where SQLite ends them. -/
structure Rewrites (tables : List Table) (sql : CString) : Prop where
  replaced : rewriteSql tables sql = replaceRefs tables sql
  ends : ∀ x ∈ tokens sql, EndsAlike x.1 x.2

/-! ## Tokens that are read alike -/

/-- The dotted name that was read is a table's. One of two parts only stands for a table of a
whole partition. -/
def isTable (tables : List Table) (n : ℕ) (read : Option (CString × CString)) : Bool :=
  read.any fun r => tables.any fun t => (n == 2 || t.pw) && decide (snprintf 512 r.1 = t.dotted)

/-- A name at the cursor that is a table's to the scanner or to SQLite is the same name to the
other, and ends at the same byte. Of names that are no table's nothing is asked. -/
def NamesAlike (tables : List Table) (s : CString) : Prop :=
  ∀ n ∈ [2, 1], isTable tables n (readDotted n s) || isTable tables n (spelledName n s) →
    readDotted n s = spelledName n s

/-- Going on from `s`, byte by byte, word by word and literal by literal, the scanner comes to
`rest` and finds no table's name on its way. -/
def Passes (tables : List Table) (rest : CString) : ℕ → CString → Prop
  | 0, s => s = rest
  | _ + 1, [] => rest = []
  | fuel + 1, c :: t => c :: t = rest ∨
      matchRef tables (c :: t) = none ∧ Passes tables rest fuel (rewriteItem tables c t).2

/-- The scanner passes over the bytes before `rest`. A word may go on behind them, as in `?1FROM`,
when it takes no table's name from there. -/
def PassesOver (tables : List Table) (s rest : CString) : Prop :=
  Passes tables rest s.length s ∨
    Passes tables (rest.dropWhile isIdentChar) s.length s ∧ matchRef tables rest = none

/-- At a name the same table is read, or none; and the scanner reads no table's name from the
middle of a bare name, a number, a variable or a token that is illegal. -/
def RegularKind (tables : List Table) (c : UInt8) (t rest : CString) : TokenKind → Prop
  | .space | .comment | .string | .blob | .dot | .operator => True
  | .number | .variable | .illegal => PassesOver tables (c :: t) rest
  | .name => NamesAlike tables (c :: t) ∧
      (opensQuote c = false → spelledRef tables (c :: t) = none →
        Passes tables rest (c :: t).length (c :: t))

def RegularAt (tables : List Table) (c : UInt8) (t : CString) : Prop :=
  RegularKind tables c t (sqliteGetToken c t).2 (sqliteGetToken c t).1

def RegularFrom (tables : List Table) : ℕ → CString → Prop
  | 0, _ => True
  | _, [] => True
  | fuel + 1, c :: t =>
    RegularAt tables c t ∧ RegularFrom tables fuel (match spelledRef tables (c :: t) with
      | some (_, rest) => rest
      | none => (sqliteGetToken c t).2)

/-- Going over the text reference by reference and token by token, no name that is spelled like a
table's is taken for another one, or for none, by one of the two lexers. -/
def Regular (tables : List Table) (sql : CString) : Prop := RegularFrom tables sql.length sql

instance (tables : List Table) (s : CString) : Decidable (NamesAlike tables s) :=
  inferInstanceAs (Decidable (∀ n ∈ [2, 1], _))

instance decidablePasses (tables : List Table) (rest : CString) :
    ∀ (fuel : ℕ) (s : CString), Decidable (Passes tables rest fuel s)
  | 0, _ => inferInstanceAs (Decidable (_ = _))
  | _ + 1, [] => inferInstanceAs (Decidable (_ = _))
  | fuel + 1, c :: t =>
    have := decidablePasses tables rest fuel (rewriteItem tables c t).2
    inferInstanceAs (Decidable (_ ∨ _ ∧ _))

instance (tables : List Table) (s rest : CString) : Decidable (PassesOver tables s rest) :=
  inferInstanceAs (Decidable (_ ∨ _ ∧ _))

instance (tables : List Table) (c : UInt8) (t rest : CString) :
    ∀ kind, Decidable (RegularKind tables c t rest kind)
  | .space | .comment | .string | .blob | .dot | .operator => inferInstanceAs (Decidable True)
  | .number | .variable | .illegal => inferInstanceAs (Decidable (PassesOver ..))
  | .name => inferInstanceAs (Decidable (_ ∧ (_ → _ → _)))

instance (tables : List Table) (c : UInt8) (t : CString) : Decidable (RegularAt tables c t) :=
  inferInstanceAs (Decidable (RegularKind ..))

instance decidableRegularFrom (tables : List Table) :
    ∀ (fuel : ℕ) (s : CString), Decidable (RegularFrom tables fuel s)
  | 0, _ => inferInstanceAs (Decidable True)
  | _ + 1, [] => inferInstanceAs (Decidable True)
  | fuel + 1, c :: t =>
    have := decidableRegularFrom tables fuel (match spelledRef tables (c :: t) with
      | some (_, rest) => rest
      | none => (sqliteGetToken c t).2)
    inferInstanceAs (Decidable (_ ∧ _))

instance (tables : List Table) (sql : CString) : Decidable (Regular tables sql) :=
  decidableRegularFrom tables sql.length sql

variable {tables : List Table} {c : UInt8} {s t : CString}

theorem tokens_rest (c : UInt8) (t : CString) :
    tokens (sqliteGetToken c t).2 <:+ tokens (c :: t) := by
  rw [tokens_cons]
  exact List.suffix_cons _ _

/-! ## White space and comments -/

theorem skipSpaces_space (hc : isSpace c = true) (t : CString) :
    skipSpaces (c :: t) = skipSpaces (t.dropWhile isSpace) := by
  rw [skipSpaces_eq (c :: t), skipSpaces_eq (t.dropWhile isSpace), List.dropWhile_cons_of_pos hc,
    List.dropWhile_idempotent]

theorem skipSpaces_line (u : CString) :
    skipSpaces (45 :: 45 :: u) = skipSpaces (u.dropWhile fun c => c != 10) :=
  skipSpaces_eq (45 :: 45 :: u)

theorem skipSpaces_block (u : CString) : skipSpaces (47 :: 42 :: u) = skipSpaces (afterComment u) :=
  skipSpaces_eq (47 :: 42 :: u)

/-- Nothing to skip. -/
theorem skipSpaces_other (hc : isSpace c = false) (hline : c = 45 → t.head? ≠ some 45)
    (hblock : c = 47 → t.head? ≠ some 42) : skipSpaces (c :: t) = c :: t := by
  rw [skipSpaces_eq, List.dropWhile_cons_of_neg (by rw [hc]; decide)]
  split
  · next heq =>
    obtain ⟨rfl, rfl⟩ := List.cons.inj heq
    exact absurd rfl (hline rfl)
  · next heq =>
    obtain ⟨rfl, rfl⟩ := List.cons.inj heq
    exact absurd rfl (hblock rfl)
  · rfl

theorem Solid.skipSpaces (h : Solid c) (t : CString) : skipSpaces (c :: t) = c :: t :=
  skipSpaces_other h.1 (fun hc => absurd hc h.2.1) fun hc => absurd hc h.2.2

theorem skipGapFrom_fuel {fuel : ℕ} (h : s.length ≤ fuel) : skipGapFrom fuel s = skipGap s := by
  unfold skipGap
  induction hn : s.length using Nat.strong_induction_on generalizing s fuel with
  | _ n ih =>
    subst hn
    cases s with
    | nil => cases fuel <;> rfl
    | cons c t =>
      rw [List.length_cons] at h ⊢
      obtain ⟨fuel, rfl⟩ := Nat.exists_eq_succ_of_ne_zero (by omega : fuel ≠ 0)
      have hle := (sqliteGetToken_suffix c t).length_le
      have hsame : skipGapFrom fuel (sqliteGetToken c t).2 =
          skipGapFrom t.length (sqliteGetToken c t).2 := by
        rw [ih _ (Nat.lt_succ_of_le hle) (by omega) rfl, ih _ (Nat.lt_succ_of_le hle) hle rfl]
      rw [skipGapFrom, skipGapFrom, hsame]

/-- A round of `skipGap`. -/
theorem skipGap_cons (c : UInt8) (t : CString) : skipGap (c :: t) =
    if (sqliteGetToken c t).1 = .space ∨ (sqliteGetToken c t).1 = .comment then
      skipGap (sqliteGetToken c t).2
    else c :: t := by
  have hround : skipGap (c :: t) =
      if (sqliteGetToken c t).1 = .space ∨ (sqliteGetToken c t).1 = .comment then
        skipGapFrom t.length (sqliteGetToken c t).2
      else c :: t := rfl
  rw [hround, skipGapFrom_fuel (sqliteGetToken_suffix c t).length_le]

theorem skipGap_suffix (s : CString) : skipGap s <:+ s := by
  induction hn : s.length using Nat.strong_induction_on generalizing s with
  | _ n ih =>
    subst hn
    cases s with
    | nil => exact List.suffix_rfl
    | cons c t =>
      have hrest := sqliteGetToken_suffix c t
      rw [skipGap_cons]
      split
      · exact (ih _ (Nat.lt_succ_of_le hrest.length_le) _ rfl).trans
          (hrest.trans (List.suffix_cons _ _))
      · exact List.suffix_rfl

theorem tokens_skipGap (s : CString) : tokens (skipGap s) <:+ tokens s := by
  induction hn : s.length using Nat.strong_induction_on generalizing s with
  | _ n ih =>
    subst hn
    cases s with
    | nil => exact List.suffix_rfl
    | cons c t =>
      rw [skipGap_cons]
      split
      · exact (ih _ (Nat.lt_succ_of_le (sqliteGetToken_suffix c t).length_le) _ rfl).trans
          (tokens_rest c t)
      · exact List.suffix_rfl

/-! ## Names -/

theorem readDotted_of_head {name r : CString} (n : ℕ) (hread : readIdent 256 s = some (name, r))
    (hdot : (skipSpaces r).head? ≠ some 46) : readDotted (n + 1) s = none := by
  rw [readDotted, hread]
  show (match skipSpaces r with | 46 :: s => _ | _ => none) = none
  split
  · next heq => exact absurd (by rw [heq]; rfl) hdot
  · rfl

/-- What follows a dot. -/
theorem tokens_dot {u : CString} (hu : u.head?.any isDigit = false) :
    tokens u <:+ tokens (46 :: u) := by
  have hdot : sqliteGetToken 46 u = (.dot, u) := by
    unfold sqliteGetToken
    rw [if_neg (by decide), if_neg fun h => absurd h.1 (by decide),
      if_neg fun h => absurd h.1 (by decide), if_neg (by decide), if_neg (by decide),
      if_pos ⟨rfl, hu⟩]
  have hrest := tokens_rest 46 u
  rw [hdot] at hrest
  exact hrest

theorem bind_of_not_isTable {n : ℕ} {read : Option (CString × CString)}
    (h : isTable tables n read = false) :
    (read.bind fun r =>
      (tables.find? fun t => (n == 2 || t.pw) && decide (snprintf 512 r.1 = t.dotted)).map
        fun t => (t.tableAlias, r.2)) = none := by
  cases read with
  | none => rfl
  | some r =>
    have hnone : (tables.find? fun t =>
        (n == 2 || t.pw) && decide (snprintf 512 r.1 = t.dotted)) = none := by
      rw [List.find?_eq_none]
      intro t ht hfound
      have hany : isTable tables n (some r) = true := List.any_eq_true.mpr ⟨t, ht, hfound⟩
      rw [h] at hany
      cases hany
    rw [Option.bind_some, hnone]
    rfl

/-- **A reference at a name** is found where there is one. -/
theorem NamesAlike.matchRef_eq (h : NamesAlike tables s) :
    matchRef tables s = spelledRef tables s := by
  have hparts : ∀ n ∈ [2, 1],
      ((readDotted n s).bind fun r =>
        (tables.find? fun t => (n == 2 || t.pw) && decide (snprintf 512 r.1 = t.dotted)).map
          fun t => (t.tableAlias, r.2)) =
      (spelledName n s).bind fun r =>
        (tables.find? fun t => (n == 2 || t.pw) && decide (snprintf 512 r.1 = t.dotted)).map
          fun t => (t.tableAlias, r.2) := by
    intro n hn
    cases hany : isTable tables n (readDotted n s) || isTable tables n (spelledName n s) with
    | true => rw [h n hn hany]
    | false =>
      obtain ⟨hread, hspelled⟩ := Bool.or_eq_false_iff.mp hany
      rw [bind_of_not_isTable hread, bind_of_not_isTable hspelled]
  have htwo := hparts 2 (by decide)
  have hone := hparts 1 (by decide)
  unfold matchRef spelledRef
  dsimp only at htwo hone ⊢
  simp only [Nat.reduceBEq, Bool.true_or, Bool.false_or, Bool.true_and] at htwo hone
  rewrite [htwo, hone]
  rfl

/-- No other token starts a reference. -/
theorem spelledRef_of_ne_name (tables : List Table) (h : (sqliteGetToken c t).1 ≠ .name) :
    spelledRef tables (c :: t) = none := by
  have hnone : nameToken (c :: t) = none := if_neg h
  have hspelled : ∀ n, spelledName (n + 1) (c :: t) = none := by
    intro n
    rw [spelledName, hnone]
    rfl
  unfold spelledRef
  rw [hspelled 0, hspelled 1]
  rfl

/-! ## The texts -/

theorem rest_of_nameToken {name r : CString} (h : nameToken (c :: t) = some (name, r)) :
    r = (sqliteGetToken c t).2 := by
  by_cases hname : (sqliteGetToken c t).1 = .name
  · have htoken : nameToken (c :: t) = some (tokenName c t, (sqliteGetToken c t).2) := if_pos hname
    rw [htoken] at h
    exact (congrArg Prod.snd (Option.some.inj h)).symm
  · have hnone : nameToken (c :: t) = none := if_neg hname
    rw [hnone] at h
    cases h

theorem nameToken_suffix {name r : CString} (h : nameToken s = some (name, r)) :
    r <:+ s ∧ r.length < s.length := by
  cases s with
  | nil => cases h
  | cons c t =>
    obtain rfl := rest_of_nameToken h
    have hrest := sqliteGetToken_suffix c t
    exact ⟨hrest.trans (List.suffix_cons _ _), Nat.lt_succ_of_le hrest.length_le⟩

theorem spelledName_suffix {n : ℕ} {names r : CString} (h : spelledName n s = some (names, r)) :
    r <:+ s ∧ r.length < s.length := by
  induction n generalizing s names with
  | zero => exact nameToken_suffix h
  | succ n ih =>
    rw [spelledName] at h
    obtain ⟨⟨name, s₁⟩, hname, h⟩ := Option.bind_eq_some_iff.mp h
    dsimp only at h
    obtain ⟨hs₁, hlt⟩ := nameToken_suffix hname
    have hgap := skipGap_suffix s₁
    split at h
    · next s₂ heq =>
      split at h
      · cases h
      · obtain ⟨⟨names', r'⟩, hrest, h⟩ := Option.bind_eq_some_iff.mp h
        obtain rfl : r' = r := congrArg Prod.snd (Option.some.inj h)
        rw [heq] at hgap
        have hs₂ := (skipGap_suffix s₂).trans ((List.suffix_cons _ _).trans (hgap.trans hs₁))
        obtain ⟨hr, hlt'⟩ := ih hrest
        exact ⟨hr.trans hs₂, hlt'.trans_le hs₂.length_le⟩
    · cases h

theorem spelledName_of_spelledRef {name r : CString} (h : spelledRef tables s = some (name, r)) :
    ∃ n names, spelledName n s = some (names, r) := by
  have hfound : ∀ {n} {p : CString → Table → Bool},
      ((spelledName n s).bind fun r => (tables.find? (p r.1)).map fun t => (t.tableAlias, r.2)) =
        some (name, r) → ∃ names, spelledName n s = some (names, r) := by
    intro n p h
    obtain ⟨⟨names, r'⟩, hnames, h⟩ := Option.bind_eq_some_iff.mp h
    obtain ⟨t, -, h⟩ := Option.map_eq_some_iff.mp h
    cases h
    exact ⟨names, hnames⟩
  unfold spelledRef at h
  dsimp only at h
  split at h
  · next heq =>
    cases h
    exact ⟨2, hfound (p := fun names t => decide (snprintf 512 names = t.dotted)) heq⟩
  · exact ⟨1, hfound (p := fun names t => t.pw && decide (snprintf 512 names = t.dotted)) h⟩

/-- What follows names is a list of tokens of the text. -/
theorem tokens_of_spelledName {n : ℕ} {names r : CString} (h : spelledName n s = some (names, r)) :
    tokens r <:+ tokens s := by
  have htoken : ∀ {s name r : CString}, nameToken s = some (name, r) → tokens r <:+ tokens s := by
    intro s name r hname
    cases s with
    | nil => cases hname
    | cons c t =>
      obtain rfl := rest_of_nameToken hname
      exact tokens_rest c t
  induction n generalizing s names with
  | zero => exact htoken h
  | succ n ih =>
    rw [spelledName] at h
    obtain ⟨⟨name, s₁⟩, hname, h⟩ := Option.bind_eq_some_iff.mp h
    dsimp only at h
    have hgap := tokens_skipGap s₁
    split at h
    · next s₂ heq =>
      split at h
      · cases h
      · next hdigit =>
        obtain ⟨⟨names', r'⟩, hrest, h⟩ := Option.bind_eq_some_iff.mp h
        obtain rfl : r' = r := congrArg Prod.snd (Option.some.inj h)
        rw [heq] at hgap
        exact (ih hrest).trans ((tokens_skipGap s₂).trans
          ((tokens_dot (Bool.not_eq_true _ ▸ hdigit)).trans (hgap.trans (htoken hname))))
    · cases h

theorem replaceFrom_succ (tables : List Table) (fuel : ℕ) (c : UInt8) (t : CString) :
    replaceFrom tables (fuel + 1) (c :: t) = match spelledRef tables (c :: t) with
      | some (name, rest) => name ++ replaceFrom tables fuel rest
      | none => upTo (c :: t) (sqliteGetToken c t).2 ++
          replaceFrom tables fuel (sqliteGetToken c t).2 := by
  rw [replaceFrom]

theorem replaceFrom_fuel {fuel : ℕ} (h : s.length ≤ fuel) :
    replaceFrom tables fuel s = replaceRefs tables s := by
  unfold replaceRefs
  induction hn : s.length using Nat.strong_induction_on generalizing s fuel with
  | _ n ih =>
    subst hn
    cases s with
    | nil => cases fuel <;> rfl
    | cons c t =>
      rw [List.length_cons] at h ⊢
      obtain ⟨fuel, rfl⟩ := Nat.exists_eq_succ_of_ne_zero (by omega : fuel ≠ 0)
      have hsame : ∀ r : CString, r.length < t.length + 1 →
          replaceFrom tables fuel r = replaceFrom tables t.length r := by
        intro r hr
        exact (ih _ hr (by omega) rfl).trans (ih _ hr (by omega) rfl).symm
      rw [replaceFrom_succ, replaceFrom_succ]
      split
      · next name rest href =>
        obtain ⟨n, names, hnames⟩ := spelledName_of_spelledRef href
        rw [hsame rest (spelledName_suffix hnames).2]
      · rw [hsame _ (Nat.lt_succ_of_le (sqliteGetToken_suffix c t).length_le)]

/-- A reference or a token, and the rest. -/
theorem replaceRefs_cons (tables : List Table) (c : UInt8) (t : CString) :
    replaceRefs tables (c :: t) = match spelledRef tables (c :: t) with
      | some (name, rest) => name ++ replaceRefs tables rest
      | none =>
        upTo (c :: t) (sqliteGetToken c t).2 ++ replaceRefs tables (sqliteGetToken c t).2 := by
  have hround : replaceRefs tables (c :: t) = replaceFrom tables (t.length + 1) (c :: t) := rfl
  rw [hround, replaceFrom_succ]
  split
  · next name rest href =>
    obtain ⟨n, names, hnames⟩ := spelledName_of_spelledRef href
    rw [replaceFrom_fuel (Nat.le_of_lt_succ (spelledName_suffix hnames).2)]
  · rw [replaceFrom_fuel (sqliteGetToken_suffix c t).length_le]

theorem regularFrom_succ (tables : List Table) (fuel : ℕ) (c : UInt8) (t : CString) :
    RegularFrom tables (fuel + 1) (c :: t) ↔ RegularAt tables c t ∧
      RegularFrom tables fuel (match spelledRef tables (c :: t) with
        | some (_, rest) => rest
        | none => (sqliteGetToken c t).2) := by
  rw [RegularFrom]

/-- A reference and a token both take a byte. -/
theorem length_stop (tables : List Table) (c : UInt8) (t : CString) :
    (match spelledRef tables (c :: t) with
      | some (_, rest) => rest
      | none => (sqliteGetToken c t).2).length ≤ t.length := by
  split
  · next name rest href =>
    obtain ⟨n, names, hnames⟩ := spelledName_of_spelledRef href
    exact Nat.le_of_lt_succ (spelledName_suffix hnames).2
  · exact (sqliteGetToken_suffix c t).length_le

theorem regularFrom_fuel {fuel : ℕ} (h : s.length ≤ fuel) :
    RegularFrom tables fuel s ↔ Regular tables s := by
  unfold Regular
  induction hn : s.length using Nat.strong_induction_on generalizing s fuel with
  | _ n ih =>
    subst hn
    cases s with
    | nil => cases fuel <;> rfl
    | cons c t =>
      rw [List.length_cons] at h ⊢
      obtain ⟨fuel, rfl⟩ := Nat.exists_eq_succ_of_ne_zero (by omega : fuel ≠ 0)
      have hle := length_stop tables c t
      have hlt := Nat.lt_succ_of_le hle
      rw [regularFrom_succ, regularFrom_succ]
      exact and_congr_right fun _ =>
        (ih _ hlt (by omega) rfl).trans (ih _ hlt hle rfl).symm

/-- The next stop is behind a reference or a token. -/
theorem regular_cons : Regular tables (c :: t) ↔ RegularAt tables c t ∧
    Regular tables (match spelledRef tables (c :: t) with
      | some (_, rest) => rest
      | none => (sqliteGetToken c t).2) :=
  (regularFrom_succ tables t.length c t).trans
    (and_congr_right fun _ => regularFrom_fuel (length_stop tables c t))

theorem Regular.head (h : Regular tables (c :: t)) : RegularAt tables c t := (regular_cons.mp h).1

theorem Regular.ref {name r : CString} (h : Regular tables (c :: t))
    (href : spelledRef tables (c :: t) = some (name, r)) : Regular tables r := by
  have hstop := (regular_cons.mp h).2
  rw [href] at hstop
  exact hstop

theorem Regular.token (h : Regular tables (c :: t)) (hnone : spelledRef tables (c :: t) = none) :
    Regular tables (sqliteGetToken c t).2 := by
  have hstop := (regular_cons.mp h).2
  rw [hnone] at hstop
  exact hstop

theorem rewriteSql_cons (tables : List Table) (c : UInt8) (t : CString) :
    rewriteSql tables (c :: t) =
      (rewriteItem tables c t).1 ++ rewriteSql tables (rewriteItem tables c t).2 := by
  have hround : rewriteSql tables (c :: t) = rewriteFrom tables (t.length + 1) (c :: t) := rfl
  rw [hround, rewriteFrom_succ,
    rewriteFrom_fuel (Nat.le_of_lt_succ (rewriteItem_suffix tables c t).2)]
  rfl

/-! ## Bytes that are copied -/

section Copies

variable {w rest : CString}

theorem upTo_left (w rest : CString) : upTo (w ++ rest) rest = w := by
  unfold upTo
  rw [List.length_append, Nat.add_sub_cancel, List.take_left]

theorem upTo_trans {r : CString} (hrest : rest <:+ r) (hr : r <:+ s) :
    upTo s r ++ upTo r rest = upTo s rest := by
  obtain ⟨v, rfl⟩ := hrest
  obtain ⟨u, rfl⟩ := hr
  rw [upTo_left, upTo_left, ← List.append_assoc, upTo_left]

theorem isPrefixOf_of_ne {d : UInt8} {u : CString} (h : d ≠ c) (l : CString) :
    (d :: l).isPrefixOf (c :: u) = false := by
  rw [List.isPrefixOf_cons_cons, beq_eq_false_iff_ne.mpr h, Bool.false_and]

theorem isPrefixOf_pair {d e : UInt8} (h : c = d → t.head? ≠ some e) :
    [d, e].isPrefixOf (c :: t) = false := by
  by_cases hc : c = d
  · have htail : [e].isPrefixOf t = false := by
      cases t with
      | nil => rfl
      | cons b t => exact isPrefixOf_of_ne (fun heq => h hc (congrArg some heq.symm)) []
    rw [List.isPrefixOf_cons_cons, htail, Bool.and_false]
  · exact isPrefixOf_of_ne (Ne.symm hc) [e]

theorem matchRef_of_readDotted (h : ∀ n, readDotted (n + 1) s = none) :
    matchRef tables s = none := by
  unfold matchRef
  rw [h 0, h 1]
  rfl

/-- A reference starts with a byte of a name. -/
theorem head_of_matchRef {r : CString × CString} (h : matchRef tables (c :: t) = some r) :
    c ≠ 39 ∧ (opensQuote c || isIdentChar c) = true := by
  by_contra hnot
  have hquote : ¬ (c = 34 ∨ c = 96) := by
    rintro (rfl | rfl)
    · exact hnot (by decide)
    · exact hnot (by decide)
  have hbracket : c ≠ 91 := by
    rintro rfl
    exact hnot (by decide)
  have hident : isIdentChar c = false := by
    rw [Bool.eq_false_iff]
    exact fun h => hnot ⟨ne_of_test h (by decide), by rw [h, Bool.or_true]⟩
  have hread : readIdent 256 (c :: t) = none := by
    rw [readIdent, if_neg hquote, if_neg hbracket, if_neg (by rw [hident]; decide)]
  have hdotted : ∀ n, readDotted (n + 1) (c :: t) = none := by
    intro n
    rw [readDotted, hread]
    rfl
  rw [matchRef_of_readDotted hdotted] at h
  cases h

/-- A byte that is copied. -/
theorem rewriteItem_byte (hident : isIdentChar c = false) (hquote : opensQuote c = false)
    (hline : (cstr "--").isPrefixOf (c :: t) = false)
    (hblock : (cstr "/*").isPrefixOf (c :: t) = false) :
    rewriteItem tables c t = ([c], t) := by
  have hc : c ≠ 39 := by
    rintro rfl
    cases hquote
  have hbyte : upTo (c :: t) t = [c] := upTo_left [c] t
  unfold rewriteItem
  dsimp only
  rw [if_neg hc, hline, hblock, if_neg (by decide), if_neg (by decide), hident, hquote,
    if_pos (by decide), hbyte]

/-- A word or a name in quotes. -/
theorem rewriteItem_name (hc : c ≠ 39) (hname : (opensQuote c || isIdentChar c) = true) :
    rewriteItem tables c t = match matchRef tables (c :: t) with
      | some r => r
      | none =>
        if opensQuote c then (upTo (c :: t) (skipQuotedRaw c t), skipQuotedRaw c t)
        else (upTo (c :: t) ((c :: t).dropWhile isIdentChar), (c :: t).dropWhile isIdentChar) := by
  have hminus : 45 ≠ c :=
    (ne_of_test (p := fun c => opensQuote c || isIdentChar c) hname (by decide)).symm
  have hslash : 47 ≠ c :=
    (ne_of_test (p := fun c => opensQuote c || isIdentChar c) hname (by decide)).symm
  have hline : (cstr "--").isPrefixOf (c :: t) = false := isPrefixOf_of_ne hminus [45]
  have hblock : (cstr "/*").isPrefixOf (c :: t) = false := isPrefixOf_of_ne hslash [42]
  unfold rewriteItem
  dsimp only
  rewrite [if_neg hc, hline, hblock, if_neg (by decide), if_neg (by decide), hname,
    if_neg (by decide)]
  rfl

/-- What is no reference is copied. -/
theorem rewriteItem_of_no_ref (h : matchRef tables (c :: t) = none) :
    (rewriteItem tables c t).1 = upTo (c :: t) (rewriteItem tables c t).2 := by
  unfold rewriteItem
  dsimp only
  rw [h]
  split
  · rfl
  · split
    · rfl
    · split
      · rfl
      · split
        · rfl
        · dsimp only
          split
          · rfl
          · rfl

theorem Passes.suffix {fuel : ℕ} (h : Passes tables rest fuel s) : rest <:+ s := by
  induction fuel generalizing s with
  | zero =>
    have hs : s = rest := h
    exact hs ▸ List.suffix_rfl
  | succ fuel ih =>
    cases s with
    | nil =>
      have hrest : rest = [] := h
      exact hrest ▸ List.suffix_rfl
    | cons c t =>
      rcases h with hs | ⟨-, hnext⟩
      · exact hs ▸ List.suffix_rfl
      · exact (ih hnext).trans (rewriteItem_suffix tables c t).1

/-- **What the scanner passes** is copied. -/
theorem Passes.rewriteSql_eq {fuel : ℕ} (h : Passes tables rest fuel s) :
    rewriteSql tables s = upTo s rest ++ rewriteSql tables rest := by
  have hstay : ∀ s : CString, rewriteSql tables s = upTo s s ++ rewriteSql tables s := by
    intro s
    rw [upTo, Nat.sub_self, List.take_zero, List.nil_append]
  induction fuel generalizing s with
  | zero =>
    have hs : s = rest := h
    rw [← hs]
    exact hstay s
  | succ fuel ih =>
    cases s with
    | nil =>
      have hrest : rest = [] := h
      rw [hrest]
      exact hstay []
    | cons c t =>
      rcases h with hs | ⟨hnone, hnext⟩
      · rw [← hs]
        exact hstay (c :: t)
      · -- an item that is copied, and the way from there
        rw [rewriteSql_cons, rewriteItem_of_no_ref hnone, ih hnext, ← List.append_assoc,
          upTo_trans hnext.suffix (rewriteItem_suffix tables c t).1]

/-- A byte that is neither of words nor of quotes, nor of comments. -/
def Mark (d : UInt8) : Prop :=
  isIdentChar d = false ∧ opensQuote d = false ∧ d ≠ 45 ∧ d ≠ 47

instance (d : UInt8) : Decidable (Mark d) := inferInstanceAs (Decidable (_ ∧ _ ∧ _ ∧ _))

theorem matchRef_of_byte (hident : isIdentChar c = false) (hquote : opensQuote c = false)
    (tables : List Table) (t : CString) : matchRef tables (c :: t) = none := by
  cases href : matchRef tables (c :: t) with
  | none => rfl
  | some r =>
    have hstart := (head_of_matchRef href).2
    rw [hident, hquote] at hstart
    cases hstart

theorem passes_marks (tables : List Table) (rest : CString) (h : ∀ d ∈ w, Mark d) :
    Passes tables rest w.length (w ++ rest) := by
  induction w with
  | nil => exact rfl
  | cons c w ih =>
    rw [List.forall_mem_cons] at h
    obtain ⟨⟨hident, hquote, hminus, hslash⟩, hw⟩ := h
    have hitem : rewriteItem tables c (w ++ rest) = ([c], w ++ rest) :=
      rewriteItem_byte hident hquote (isPrefixOf_of_ne (Ne.symm hminus) [45])
        (isPrefixOf_of_ne (Ne.symm hslash) [42])
    have hnext : Passes tables rest w.length (rewriteItem tables c (w ++ rest)).2 := by
      rw [hitem]
      exact ih hw
    exact Or.inr ⟨matchRef_of_byte hident hquote tables (w ++ rest), hnext⟩

end Copies

/-! ## Token by token -/

/-- **A reference** is replaced. -/
theorem rewriteSql_ref {name r : CString} (h : RegularAt tables c t)
    (href : spelledRef tables (c :: t) = some (name, r)) :
    rewriteSql tables (c :: t) = name ++ rewriteSql tables r := by
  have hname : (sqliteGetToken c t).1 = .name := by
    by_contra hnot
    rw [spelledRef_of_ne_name tables hnot] at href
    cases href
  unfold RegularAt at h
  rw [hname] at h
  have hmatch : matchRef tables (c :: t) = some (name, r) := h.1.matchRef_eq.trans href
  obtain ⟨hstring, hstart⟩ := head_of_matchRef hmatch
  have hitem : rewriteItem tables c t = (name, r) := by
    rw [rewriteItem_name hstring hstart, hmatch]
  rw [rewriteSql_cons, hitem]

section Tokens

variable {w rest : CString}

/-- White space is copied byte by byte. -/
theorem rewriteSql_space (hc : isSpace c = true) :
    rewriteSql tables (c :: t) =
      upTo (c :: t) (t.dropWhile isSpace) ++ rewriteSql tables (t.dropWhile isSpace) := by
  have hmark : ∀ d : UInt8, isSpace d = true → Mark d := by
    intro d hd
    have hnot : ¬ Solid d := fun h => absurd (hd.symm.trans h.1) (by decide)
    exact ⟨Bool.eq_false_iff.mpr fun h => hnot (solid_of_idChar (idChar_of_ident h)),
      Bool.eq_false_iff.mpr fun h => hnot (solid_of_opensQuote h),
      ne_of_test hd (by decide), ne_of_test hd (by decide)⟩
  have hspaces : ∀ d ∈ c :: t.takeWhile isSpace, isSpace d = true :=
    List.forall_mem_cons.mpr ⟨hc, fun d hd => List.mem_takeWhile_imp hd⟩
  have hpasses := passes_marks tables (t.dropWhile isSpace) fun d hd => hmark d (hspaces d hd)
  rw [List.cons_append, List.takeWhile_append_dropWhile] at hpasses
  exact hpasses.rewriteSql_eq

/-- So is an operator, but for a slash and a star at the end of the text. -/
theorem rewriteSql_operator (hc : isIdentChar c = false ∧ opensQuote c = false)
    (hw : ∀ d ∈ w, Mark d) (hline : (cstr "--").isPrefixOf (c :: (w ++ rest)) = false)
    (hblock : (cstr "/*").isPrefixOf (c :: (w ++ rest)) = false) :
    rewriteSql tables (c :: (w ++ rest)) =
      upTo (c :: (w ++ rest)) rest ++ rewriteSql tables rest := by
  have hitem : rewriteItem tables c (w ++ rest) = ([c], w ++ rest) :=
    rewriteItem_byte hc.1 hc.2 hline hblock
  have hpasses : Passes tables rest (w.length + 1) (c :: (w ++ rest)) := by
    refine Or.inr ⟨matchRef_of_byte hc.1 hc.2 tables (w ++ rest), ?_⟩
    rw [hitem]
    exact passes_marks tables rest hw
  exact hpasses.rewriteSql_eq

/-- A literal is copied to where it is left. -/
theorem rewriteSql_quoted (hc : opensQuote c = true)
    (hmatch : c = 39 ∨ matchRef tables (c :: t) = none) (hskip : skipQuotedRaw c t = rest) :
    rewriteSql tables (c :: t) = upTo (c :: t) rest ++ rewriteSql tables rest := by
  have hitem : rewriteItem tables c t =
      (upTo (c :: t) (skipQuotedRaw c t), skipQuotedRaw c t) := by
    by_cases hstring : c = 39
    · rw [hstring]
      rfl
    · rw [rewriteItem_name hstring (by rw [hc, Bool.true_or]), hmatch.resolve_left hstring]
      exact if_pos hc
  rw [rewriteSql_cons, hitem, hskip]

/-- The `x` of a blob is a word for the scanner, and a literal follows it. -/
theorem rewriteSql_blob (hc : c = 120 ∨ c = 88)
    (hskip : skipQuotedRaw 39 (w ++ 39 :: rest) = rest) :
    rewriteSql tables (c :: 39 :: (w ++ 39 :: rest)) =
      upTo (c :: 39 :: (w ++ 39 :: rest)) rest ++ rewriteSql tables rest := by
  have hbare : isIdentChar c = true ∧ opensQuote c = false ∧ c ≠ 39 := by
    rcases hc with rfl | rfl <;> exact ⟨rfl, rfl, by decide⟩
  have hdrop : (c :: 39 :: (w ++ 39 :: rest)).dropWhile isIdentChar =
      39 :: (w ++ 39 :: rest) := by
    rw [List.dropWhile_cons_of_pos hbare.1]
    rfl
  have hread : readIdent 256 (c :: 39 :: (w ++ 39 :: rest)) =
      some (snprintf 256 ((c :: 39 :: (w ++ 39 :: rest)).takeWhile isIdentChar),
        39 :: (w ++ 39 :: rest)) := by
    rcases hc with rfl | rfl <;> rfl
  have hdot : (skipSpaces (39 :: (w ++ 39 :: rest))).head? ≠ some 46 := by
    rw [Solid.skipSpaces (by decide)]
    exact fun h => absurd (Option.some.inj h) (by decide)
  have hnone : matchRef tables (c :: 39 :: (w ++ 39 :: rest)) = none :=
    matchRef_of_readDotted fun n => readDotted_of_head n hread hdot
  have hcut : upTo (c :: 39 :: (w ++ 39 :: rest)) (39 :: (w ++ 39 :: rest)) = [c] :=
    upTo_left [c] _
  have hletter : rewriteItem tables c (39 :: (w ++ 39 :: rest)) =
      ([c], 39 :: (w ++ 39 :: rest)) := by
    rw [rewriteItem_name hbare.2.2 (by rw [hbare.1, Bool.or_true]), hnone, hbare.2.1, hdrop, hcut]
    rfl
  have hbytes : c :: 39 :: (w ++ 39 :: rest) = (c :: 39 :: (w ++ [39])) ++ rest := by simp
  have hbytes' : 39 :: (w ++ 39 :: rest) = (39 :: (w ++ [39])) ++ rest := by simp
  rw [rewriteSql_cons, hletter, rewriteSql_quoted rfl (Or.inl rfl) hskip, hbytes, hbytes',
    upTo_left, upTo_left]
  rfl

/-- A word may end behind the bytes that are passed over. -/
theorem PassesOver.rewriteSql_eq (h : PassesOver tables s rest) (hrest : rest <:+ s) :
    rewriteSql tables s = upTo s rest ++ rewriteSql tables rest := by
  rcases h with h | ⟨h, hnone⟩
  · exact h.rewriteSql_eq
  · rw [h.rewriteSql_eq]
    cases rest with
    | nil => rfl
    | cons d u =>
      by_cases hd : isIdentChar d = true
      · -- the rest of the word is a word of its own, and no reference either
        have hitem : rewriteItem tables d u =
            (upTo (d :: u) ((d :: u).dropWhile isIdentChar), (d :: u).dropWhile isIdentChar) := by
          rw [rewriteItem_name (ne_of_test hd (by decide)) (by rw [hd, Bool.or_true]), hnone,
            opensQuote_of_ident hd]
          rfl
        rw [rewriteSql_cons tables d u, hitem, ← List.append_assoc,
          upTo_trans (List.dropWhile_suffix isIdentChar) hrest]
      · rw [List.dropWhile_cons_of_neg hd]

end Tokens

/-- **Any other token** is copied. -/
theorem rewriteSql_token (hregular : RegularAt tables c t) (hend : EndsAlike c t)
    (hnone : spelledRef tables (c :: t) = none) :
    rewriteSql tables (c :: t) =
      upTo (c :: t) (sqliteGetToken c t).2 ++ rewriteSql tables (sqliteGetToken c t).2 := by
  -- a name that is no reference to SQLite is none to the scanner, as the text is regular
  have hmatch : (sqliteGetToken c t).1 = .name → matchRef tables (c :: t) = none := by
    intro hname
    unfold RegularAt at hregular
    rw [hname] at hregular
    exact hregular.1.matchRef_eq.trans hnone
  have hsuffix := (sqliteGetToken_suffix c t).trans (List.suffix_cons c t)
  have hshape := sqliteGetToken_shape c t
  unfold RegularAt at hregular
  unfold EndsAlike at hend
  generalize sqliteGetToken c t = token at hregular hend hmatch hsuffix hshape ⊢
  -- the scanner knows white space, comments, literals and names; the other tokens are passed over
  cases hshape with
  | space hc => exact rewriteSql_space hc
  | line u hc ht =>
    subst hc ht
    have hitem : rewriteItem tables 45 (45 :: u) =
        (upTo (45 :: 45 :: u) ((45 :: u).dropWhile fun d => d != 10),
          (45 :: u).dropWhile fun d => d != 10) := rfl
    rw [rewriteSql_cons, hitem]
  | block u hc ht =>
    subst hc ht
    have hitem : rewriteItem tables 47 (42 :: u) =
        (upTo (47 :: 42 :: u) (afterComment u), afterComment u) := rfl
    rw [rewriteSql_cons, hitem]
  | bom rest hc ht =>
    -- a byte order mark is three bytes that mean nothing to the scanner
    subst hc ht
    have hmarks : ∀ d ∈ [(0xEF : UInt8), 0xBB, 0xBF], Mark d := by
      simp only [List.forall_mem_cons, List.not_mem_nil, false_implies, implies_true, and_true]
      decide
    exact (passes_marks tables rest hmarks).rewriteSql_eq
  | illegal rest => exact PassesOver.rewriteSql_eq hregular hsuffix
  | operator w rest ht hw hcomment hline hblock =>
    subst ht
    rw [List.forall_mem_cons] at hw
    by_cases hopen : c = 47 ∧ (w ++ rest).head? = some 42
    · -- a comment to the scanner, that nothing follows
      obtain ⟨rfl, hhead⟩ := hopen
      have hbytes := hblock rfl hhead
      rcases List.append_eq_singleton_iff.mp hbytes with ⟨rfl, rfl⟩ | ⟨rfl, rfl⟩
      · rfl
      · rfl
    · exact rewriteSql_operator ⟨hw.1.1, hw.1.2.1⟩
        (fun d hd => ⟨(hw.2 d hd).1, (hw.2 d hd).2.1, hcomment d hd⟩) (isPrefixOf_pair hline)
        (isPrefixOf_pair fun hc hhead => hopen ⟨hc, hhead⟩)
  | string v rest hc htoken =>
    subst hc
    exact rewriteSql_quoted rfl (Or.inl rfl) (hend.1 rfl)
  | quoted v rest hc htoken =>
    -- a quoted name may be a reference, but this one is not, and it ends alike
    have hopen : opensQuote c = true := by
      rcases hc with rfl | rfl <;> rfl
    exact rewriteSql_quoted hopen (Or.inr (hmatch rfl)) (hend.1 hopen)
  | bracket d rest hc htoken =>
    subst hc
    exact rewriteSql_quoted rfl (Or.inr (hmatch rfl)) (hend.1 rfl)
  | dot hc =>
    subst hc
    exact rewriteSql_operator (w := []) ⟨rfl, rfl⟩ nofun (isPrefixOf_of_ne (by decide) [45])
      (isPrefixOf_of_ne (by decide) [42])
  | number rest hc => exact PassesOver.rewriteSql_eq hregular hsuffix
  | parameter rest hc => exact PassesOver.rewriteSql_eq hregular hsuffix
  | blob w rest hc ht hw =>
    -- the quote of a blob literal opens a literal of the scanner's
    subst ht
    exact rewriteSql_blob hc (hend.2 rfl)
  | word hc =>
    exact (hregular.2 (opensQuote_of_idChar hc) hnone).rewriteSql_eq

/-- **The function writes what SQLite would replace**, where literals end alike. -/
theorem rewriteSql_eq_replaceRefs (h : Regular tables s)
    (hends : ∀ x ∈ tokens s, EndsAlike x.1 x.2) :
    rewriteSql tables s = replaceRefs tables s := by
  -- both cursors stand at the same byte: behind a reference, or behind a token
  induction hn : s.length using Nat.strong_induction_on generalizing s with
  | _ n ih =>
    subst hn
    cases s with
    | nil => rfl
    | cons c t =>
      rw [replaceRefs_cons]
      split
      · next name r href =>
        obtain ⟨n, names, hnames⟩ := spelledName_of_spelledRef href
        have htokens := tokens_of_spelledName hnames
        have hrest := ih _ (spelledName_suffix hnames).2 (h.ref href)
          (fun x hx => hends x (htokens.subset hx)) rfl
        rw [rewriteSql_ref h.head href, hrest]
      · next hnone =>
        rw [tokens_cons, List.forall_mem_cons] at hends
        have hrest := ih _ (Nat.lt_succ_of_le (sqliteGetToken_suffix c t).length_le)
          (h.token hnone) hends.2 rfl
        rw [rewriteSql_token h.head hends.1 hnone, hrest]

/-- **Rewriting preserves everything but references** exactly when the literals are plain. -/
theorem rewrites_iff {sql : CString} (h : Regular tables sql) :
    Rewrites tables sql ↔ ∀ x ∈ tokens sql, LiteralPlain x.1 x.2 := by
  have hiff : (∀ x ∈ tokens sql, EndsAlike x.1 x.2) ↔ ∀ x ∈ tokens sql, LiteralPlain x.1 x.2 :=
    forall₂_congr fun x _ => endsAlike_iff x.1 x.2
  exact ⟨fun hr => hiff.mp hr.ends,
    fun hp => ⟨rewriteSql_eq_replaceRefs h (hiff.mpr hp), hiff.mpr hp⟩⟩

/-! ## Plain names -/

/-- Around a dot the scanner reads the names that SQLite reads. -/
def DotRegular (s rest : CString) : Prop :=
  (skipGap rest).head? = some 46 →
    let u := (skipGap rest).tail
    u.head?.any isDigit = false ∧ readIdent 256 s = nameToken s ∧
      readIdent 256 (skipGap u) = nameToken (skipGap u)

/-- White space is white space to the scanner, no comment opens at the end of the text, and the
names next to a dot have nothing that the two lexers read differently. -/
def PlainKind (c : UInt8) (t rest : CString) : TokenKind → Prop
  | .space => isSpace c = true
  | .operator => c :: t ≠ cstr "/*"
  | .name => DotRegular (c :: t) rest
  | .illegal => False
  | _ => True

/-- The names of the text are plain, whatever the tables are. -/
def PlainNames (s : CString) : Prop :=
  ∀ x ∈ tokens s, PlainKind x.1 x.2 (sqliteGetToken x.1 x.2).2 (sqliteGetToken x.1 x.2).1

theorem PlainNames.of_suffix {r : CString} (h : PlainNames s) (hr : tokens r <:+ tokens s) :
    PlainNames r := fun x hx => h x (hr.subset hx)

theorem PlainNames.rest (h : PlainNames (c :: t)) : PlainNames (sqliteGetToken c t).2 :=
  h.of_suffix (tokens_rest c t)

theorem PlainNames.head (h : PlainNames (c :: t)) :
    PlainKind c t (sqliteGetToken c t).2 (sqliteGetToken c t).1 := by
  unfold PlainNames at h
  rw [tokens_cons, List.forall_mem_cons] at h
  exact h.1

/-- **The two skip alike.** -/
theorem PlainNames.skipSpaces_eq (h : PlainNames s) : skipSpaces s = Eql.skipGap s := by
  induction hn : s.length using Nat.strong_induction_on generalizing s with
  | _ n ih =>
    subst hn
    cases s with
    | nil => rfl
    | cons c t =>
      have hrest := ih _ (Nat.lt_succ_of_le (sqliteGetToken_suffix c t).length_le) h.rest rfl
      have hregular := h.head
      have hshape := sqliteGetToken_shape c t
      rw [skipGap_cons, ← hrest]
      generalize sqliteGetToken c t = token at hregular hshape ⊢
      -- white space and comments are the same to both lexers, and no other token begins like them
      cases hshape with
      | space hc => exact skipSpaces_space hc t
      | line u hc ht =>
        subst hc ht
        exact skipSpaces_line u
      | block u hc ht =>
        subst hc ht
        exact skipSpaces_block u
      | bom rest hc =>
        -- a byte order mark is white space to SQLite only, and plain names rule it out
        have hspace : isSpace c = true := hregular
        rw [hc] at hspace
        exact absurd hspace (by decide)
      | illegal rest => exact absurd hregular id
      | operator w rest ht hw hcomment hline hblock =>
        -- plain names rule out an operator that begins like a comment
        refine skipSpaces_other (hw c List.mem_cons_self).2.2 hline fun hc hhead => ?_
        rw [hc, hblock hc hhead] at hregular
        exact hregular (by decide)
      | string v rest hc =>
        subst hc
        exact Solid.skipSpaces (by decide) t
      | quoted v rest hc =>
        rcases hc with rfl | rfl
        · exact Solid.skipSpaces (by decide) t
        · exact Solid.skipSpaces (by decide) t
      | bracket d rest hc =>
        subst hc
        exact Solid.skipSpaces (by decide) t
      | dot hc =>
        subst hc
        exact Solid.skipSpaces (by decide) t
      | number rest hc => exact hc.skipSpaces t
      | parameter rest hc => exact hc.skipSpaces t
      | blob w rest hc =>
        rcases hc with rfl | rfl
        · exact Solid.skipSpaces (by decide) t
        · exact Solid.skipSpaces (by decide) t
      | word hc =>
        exact (solid_of_idChar hc).skipSpaces t

/-- Only a doubled backtick is read differently. -/
theorem readQuoted_backtick {name r v rest : CString} (h : readQuoted 96 t = some (name, r))
    (htoken : quotedToken 96 t = some (v, rest)) : r = rest ∨ ∃ u, r = 96 :: u := by
  fun_induction readQuoted 96 t generalizing name r v rest with
  | case1 => cases h
  | case2 =>
    cases h
    cases htoken
    exact Or.inl rfl
  | case3 => cases h
  | case4 d t hd _ => exact absurd hd.1 (by decide)
  | case5 d t hd =>
    cases h
    by_cases hback : d = 96
    · exact Or.inr ⟨t, by rw [hback]⟩
    · rw [quotedToken, if_pos rfl, if_neg hback] at htoken
      cases htoken
      exact Or.inl rfl
  | case6 c d t hc ih =>
    rw [quotedToken, if_neg hc] at htoken
    obtain ⟨⟨name', r'⟩, hr, heq⟩ := Option.map_eq_some_iff.mp h
    cases heq
    obtain ⟨⟨v', rest'⟩, hrest, heq⟩ := Option.map_eq_some_iff.mp htoken
    cases heq
    exact ih hr hrest

/-- The word and the token end at one byte, or the word ends at a byte that only SQLite has in
names. -/
theorem dropWhile_isIdentChar (s : CString) :
    s.dropWhile isIdentChar = s.dropWhile idChar ∨
      ∃ d u, s.dropWhile isIdentChar = d :: u ∧ idChar d = true ∧ isIdentChar d = false := by
  induction s with
  | nil => exact Or.inl rfl
  | cons c s ih =>
    by_cases hc : isIdentChar c = true
    · rw [List.dropWhile_cons_of_pos hc, List.dropWhile_cons_of_pos (idChar_of_ident hc)]
      exact ih
    · rw [List.dropWhile_cons_of_neg hc]
      by_cases hc' : idChar c = true
      · exact Or.inr ⟨c, s, rfl, hc', Bool.not_eq_true _ ▸ hc⟩
      · rw [List.dropWhile_cons_of_neg hc']
        exact Or.inl rfl

/-- A name is read to the end of its token, or up to a byte that is no dot. -/
theorem readIdent_rest {cap : ℕ} {name r : CString} (h : (sqliteGetToken c t).1 = .name)
    (hread : readIdent cap (c :: t) = some (name, r)) :
    r = (sqliteGetToken c t).2 ∨ ∃ d u, r = d :: u ∧ Solid d ∧ d ≠ 46 := by
  have hshape := sqliteGetToken_shape c t
  generalize sqliteGetToken c t = token at h hshape ⊢
  cases hshape with
  | quoted v rest hc htoken =>
    -- SQLite doubles a quote of either kind, the scanner the double quote only
    unfold readIdent at hread
    dsimp only at hread
    rw [if_pos hc] at hread
    obtain ⟨⟨name', r'⟩, hr, heq⟩ := Option.map_eq_some_iff.mp hread
    cases heq
    rcases hc with rfl | rfl
    · rw [readQuoted_eq_quotedToken, htoken] at hr
      cases hr
      exact Or.inl rfl
    · rcases readQuoted_backtick hr htoken with rfl | ⟨u, rfl⟩
      · exact Or.inl rfl
      · exact Or.inr ⟨96, u, rfl, by decide, by decide⟩
  | bracket d rest hc hdrop =>
    subst hc
    unfold readIdent at hread
    dsimp only at hread
    rw [if_neg (by decide), if_pos rfl, hdrop] at hread
    cases hread
    exact Or.inl rfl
  | word hc =>
    have hdouble : c ≠ 34 := ne_of_test hc (by decide)
    have hback : c ≠ 96 := ne_of_test hc (by decide)
    have hopen : c ≠ 91 := ne_of_test hc (by decide)
    unfold readIdent at hread
    dsimp only at hread
    rw [if_neg (not_or.mpr ⟨hdouble, hback⟩), if_neg hopen] at hread
    split at hread
    · cases hread
      rw [← List.dropWhile_cons_of_pos hc (l := t)]
      rcases dropWhile_isIdentChar (c :: t) with heq | ⟨d, u, heq, hd, -⟩
      · exact Or.inl heq
      · exact Or.inr ⟨d, u, heq, solid_of_idChar hd, ne_of_test hd (by decide)⟩
    · cases hread
  | _ => cases h

/-- Where no dot follows a name, neither sees more than the name. -/
theorem readDotted_of_no_dot (n : ℕ) (hrest : PlainNames (sqliteGetToken c t).2)
    (h : (sqliteGetToken c t).1 = .name)
    (hdot : (skipGap (sqliteGetToken c t).2).head? ≠ some 46) :
    readDotted (n + 1) (c :: t) = none ∧ spelledName (n + 1) (c :: t) = none := by
  constructor
  · cases hread : readIdent 256 (c :: t) with
    | none =>
      rw [readDotted, hread]
      rfl
    | some r =>
      refine readDotted_of_head n hread ?_
      rcases readIdent_rest h hread with heq | ⟨d, u, heq, hd, hnot⟩
      · rw [heq, hrest.skipSpaces_eq]
        exact hdot
      · rw [heq, hd.skipSpaces]
        exact fun h => hnot (Option.some.inj h)
  · have hname : nameToken (c :: t) = some (tokenName c t, (sqliteGetToken c t).2) := if_pos h
    rw [spelledName, hname]
    show (match skipGap (sqliteGetToken c t).2 with | 46 :: s => _ | _ => none) = none
    split
    · next heq => exact absurd (by rw [heq]; rfl) hdot
    · rfl

/-- **Names with dots between them** are read alike where the first of them is. -/
theorem readDotted_eq (n : ℕ) (h : PlainNames s) (hread : readIdent 256 s = nameToken s) :
    readDotted n s = spelledName n s := by
  induction n generalizing s with
  | zero => exact hread
  | succ n ih =>
    rw [readDotted, spelledName, hread]
    cases s with
    | nil => rfl
    | cons c t =>
      by_cases hname : (sqliteGetToken c t).1 = .name
      · have htoken : nameToken (c :: t) = some (tokenName c t, (sqliteGetToken c t).2) :=
          if_pos hname
        have hregular := h.head
        rw [hname] at hregular
        rw [htoken]
        show (match skipSpaces (sqliteGetToken c t).2 with | 46 :: s => _ | _ => none) =
          match skipGap (sqliteGetToken c t).2 with | 46 :: s => _ | _ => none
        rw [h.rest.skipSpaces_eq]
        have hgap := h.rest.of_suffix (tokens_skipGap _)
        have hdot : DotRegular (c :: t) (sqliteGetToken c t).2 := hregular
        unfold DotRegular at hdot
        generalize skipGap (sqliteGetToken c t).2 = gap at hgap hdot ⊢
        split
        · next u =>
          have hboth := hdot rfl
          dsimp only [List.tail_cons] at hboth
          obtain ⟨hdigit, -, hnext⟩ := hboth
          have hu := hgap.of_suffix (tokens_dot hdigit)
          rw [hu.skipSpaces_eq, ih (hu.of_suffix (tokens_skipGap u)) hnext, hdigit,
            if_neg (by decide)]
        · rfl
      · have hnone : nameToken (c :: t) = none := if_neg hname
        rw [hnone]
        rfl

/-- **Plain names** are read alike, whatever the tables are. -/
theorem namesAlike_of_plainNames (tables : List Table) (h : PlainNames (c :: t))
    (hname : (sqliteGetToken c t).1 = .name) : NamesAlike tables (c :: t) := by
  have hdotted : ∀ n, readDotted (n + 1) (c :: t) = spelledName (n + 1) (c :: t) := by
    intro n
    by_cases hdot : (skipGap (sqliteGetToken c t).2).head? = some 46
    · have hregular := h.head
      rw [hname] at hregular
      exact readDotted_eq (n + 1) h (hregular hdot).2.1
    · obtain ⟨hread, hspelled⟩ := readDotted_of_no_dot n h.rest hname hdot
      rw [hread, hspelled]
  intro n hn _
  rcases List.mem_pair.mp hn with rfl | rfl
  · exact hdotted 1
  · exact hdotted 0

/-! ## Two statements -/

/-- A statement with names in quotes, a string, a number and a comment. -/
def plainSql : CString :=
  cstr "SELECT n.\"title\", 'it''s' FROM shop.main.notes n WHERE stars > 5.5 -- shop.main.notes"

theorem rewrites_plainSql : Rewrites (collectRefs plainSql) plainSql :=
  (rewrites_iff (by decide +kernel)).mpr (by decide +kernel)

/-- A statement with a backslash before a closing quote. -/
def backslashSql : CString := cstr "SELECT * FROM a.b.c WHERE x = '\\' AND a.b.c.y = 'z'"

/-- **A reference behind a backslash** is not replaced. -/
theorem not_rewrites_backslashSql : ¬ Rewrites (collectRefs backslashSql) backslashSql := by
  intro h
  have hdiffer : rewriteSql (collectRefs backslashSql) backslashSql ≠
      replaceRefs (collectRefs backslashSql) backslashSql := by
    decide +kernel
  exact hdiffer h.replaced

end EpsilonDB.Eql
