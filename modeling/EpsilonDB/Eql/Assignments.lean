import EpsilonDB.Eql.Lexemes
import EpsilonDB.Eql.Materialize

/-!
# The columns an UPDATE assigns (`eql/epsilon_eql.c`)

`scan_update_columns` looks for the assignment targets between SET and the next clause. Its loop
passes over whatever is in quotes, and takes every bare name before an `=` outside parentheses
for a target, up to the first keyword outside parentheses.

- `Assignment`, `Update`: an UPDATE statement, with the lexemes of its parts.
- `assignedWords`: the bare names before an `=`.
- `assignedColumns_spelled`: those are what the loop finds.
- `Update.Exact`: the table gets the columns that the statement assigns, and no other.
- `Update.exact_iff`: so it does when the bare names before an `=` are the targets.
- `Update.plain_of_simple`: they are where every target is one bare word and no value has a
  comparison outside parentheses.
-/

namespace EpsilonDB.Eql

/-! ## Statements -/

/-- Whether a lexeme is white space. -/
def Lexeme.isGap : Lexeme → Bool
  | .gap _ => true
  | _ => false

/-- Whether a lexeme is the keyword. -/
def Lexeme.isWord (keyword : CString) : Lexeme → Bool
  | .word w => lower w = keyword
  | _ => false

/-- Whether a lexeme is a piece of a bare identifier: the scanner takes one apart at a byte it
does not know. -/
def Lexeme.isPiece : Lexeme → Bool
  | .word _ => true
  | .mark c => idChar c
  | _ => false

/-- An identifier, bare or in quotes. -/
inductive Identifier where
  | bare (pieces : List Lexeme) (h : pieces.all Lexeme.isPiece = true)
  | quoted (quote : UInt8) (body : CString)

/-- Its lexemes. -/
def Identifier.lexemes : Identifier → List Lexeme
  | .bare pieces _ => pieces
  | .quoted quote body => [.quoted quote body]

/-- Its name. -/
def Identifier.name : Identifier → CString
  | .bare pieces _ => spelled pieces
  | .quoted quote body =>
    if quote = 91 then body else ((quotedToken quote (body ++ [quote])).map Prod.fst).getD []

/-- A column with the white space around it. -/
structure Column where
  before : List Lexeme
  name : Identifier
  after : List Lexeme
  gaps : (before ++ after).all Lexeme.isGap = true

def Column.lexemes (c : Column) : List Lexeme := c.before ++ c.name.lexemes ++ c.after

/-- Lists of lexemes with commas between them. -/
def commas : List (List Lexeme) → List Lexeme
  | [] => []
  | [xs] => xs
  | xs :: ys :: zss => xs ++ .mark 44 :: commas (ys :: zss)

/-- What is assigned: a column, or a list of columns in parentheses. -/
inductive Target where
  | column (c : Column)
  | row (before : List Lexeme) (cs : List Column) (after : List Lexeme)
    (gaps : (before ++ after).all Lexeme.isGap = true)

def Target.lexemes : Target → List Lexeme
  | .column c => c.lexemes
  | .row before cs after _ =>
    before ++ .mark 40 :: (commas (cs.map Column.lexemes) ++ .mark 41 :: after)

/-- The names of the columns. -/
def Target.names : Target → List CString
  | .column c => [c.name.name]
  | .row _ cs _ _ => cs.map fun c => c.name.name

/-- The parentheses are balanced, and there is no comma outside of them. -/
def Expression : ℕ → List Lexeme → Prop
  | depth, [] => depth = 0
  | depth, .mark c :: xs =>
    if c = 40 then Expression (depth + 1) xs
    else if c = 41 then 0 < depth ∧ Expression (depth - 1) xs
    else (c = 44 → 0 < depth) ∧ Expression depth xs
  | depth, _ :: xs => Expression depth xs

instance decidableExpression : ∀ (depth : ℕ) (xs : List Lexeme), Decidable (Expression depth xs)
  | depth, [] => inferInstanceAs (Decidable (depth = 0))
  | depth, .mark c :: xs =>
    have := decidableExpression (depth + 1) xs
    have := decidableExpression (depth - 1) xs
    have := decidableExpression depth xs
    inferInstanceAs (Decidable (if c = 40 then _ else if c = 41 then _ ∧ _ else (_ → _) ∧ _))
  | depth, .gap _ :: xs | depth, .quoted _ _ :: xs | depth, .word _ :: xs =>
    decidableExpression depth xs

/-- `target = value`. -/
structure Assignment where
  target : Target
  value : List Lexeme
  expression : Expression 0 value

/-- The lexemes of an assignment. -/
def Assignment.lexemes (a : Assignment) : List Lexeme := a.target.lexemes ++ .mark 61 :: a.value

/-- The lexemes of a SET clause. -/
def setClause (as : List Assignment) : List Lexeme := commas (as.map Assignment.lexemes)

/-- What follows the reference: an alias or nothing, SET, the assignments, and the clauses after
them. -/
def updateRest (hint : List Lexeme) (set : CString) (assignments : List Assignment)
    (tail : List Lexeme) : List Lexeme :=
  hint ++ .word set :: (setClause assignments ++ tail)

/-- A statement `UPDATE reference … SET …`. -/
structure Update where
  lead : List Lexeme
  verb : CString
  ref : CString
  db : CString
  part : CString
  ks : CString
  hint : List Lexeme
  set : CString
  assignments : List Assignment
  tail : List Lexeme
  lead_gaps : lead.all Lexeme.isGap = true
  lead_reads : Reads (lead ++ [.word verb]) (ref ++ spelled (updateRest hint set assignments tail))
  verb_update : lower verb = cstr "update"
  ref_reads : parseRef (ref ++ spelled (updateRest hint set assignments tail)) =
    (some (db, part, ks), spelled (updateRest hint set assignments tail))
  set_set : lower set = cstr "set"
  reads : Reads (updateRest hint set assignments tail) []
  /-- the keyword is no identifier -/
  one_update : ∀ x ∈ updateRest hint set assignments tail, x.isWord (cstr "update") = false

namespace Update

/-- The lexemes after the reference. -/
def rest (u : Update) : List Lexeme := updateRest u.hint u.set u.assignments u.tail

/-- The text of the statement. -/
def text (u : Update) : CString := spelled (u.lead ++ [.word u.verb]) ++ (u.ref ++ spelled u.rest)

/-- The columns it assigns. -/
def targets (u : Update) : List CString :=
  u.assignments.flatMap fun a => a.target.names

/-- The table it is about. -/
def meant (u : Update) (t : Table) : Bool :=
  sameShard t u.db u.part u.ks && t.pw == decide (u.ks = [])

/-- The table that has the id alone gets the columns that are assigned, and no other. -/
def Exact (u : Update) (tables : List Table) : Prop :=
  ∃ t, (scanUpdateColumns u.text tables).find? u.meant = some t ∧
    ∀ name, name ∈ t.cols.map Prod.fst ↔ name = cstr "id" ∨ name ∈ u.targets

end Update

/-! ## The names before an `=` -/

/-- Whether an `=` follows. -/
def nextEquals : List Lexeme → Bool
  | .gap _ :: xs => nextEquals xs
  | .mark c :: _ => c = 61
  | _ => false

/-- The bare names before an `=` outside parentheses, up to the first keyword there. A name is
cut to 127 bytes. -/
def assignedWords : ℕ → List Lexeme → List CString
  | _, [] => []
  | depth, .gap _ :: xs | depth, .quoted _ _ :: xs => assignedWords depth xs
  | depth, .mark c :: xs =>
    assignedWords (if c = 40 then depth + 1 else if c = 41 then depth - 1 else depth) xs
  | depth, .word w :: xs =>
    if depth = 0 ∧ lower (snprintf 128 w) ∈ clauseWords then []
    else if depth = 0 ∧ nextEquals xs = true then snprintf 128 w :: assignedWords depth xs
    else assignedWords depth xs

/-- There is no SET among these lexemes, but for an alias; the flag is whether AS has been read. -/
def SetFree : Bool → List Lexeme → Prop
  | afterAs, [] => afterAs = false
  | afterAs, .gap _ :: xs => SetFree afterAs xs
  | _, .mark _ :: xs => SetFree false xs
  | afterAs, .quoted quote body :: xs =>
    afterAs = true ∧ quote ≠ 39 ∧ (quote = 96 → 96 ∉ body) ∧ SetFree false xs
  | true, .word _ :: xs => SetFree false xs
  | false, .word w :: xs =>
    if lower (snprintf 128 w) = cstr "as" then SetFree true xs
    else lower (snprintf 128 w) ≠ cstr "set" ∧ SetFree false xs

instance decidableSetFree : ∀ (afterAs : Bool) (xs : List Lexeme), Decidable (SetFree afterAs xs)
  | afterAs, [] => inferInstanceAs (Decidable (afterAs = false))
  | afterAs, .gap _ :: xs => decidableSetFree afterAs xs
  | _, .mark _ :: xs => decidableSetFree false xs
  | afterAs, .quoted quote body :: xs =>
    have := decidableSetFree false xs
    inferInstanceAs (Decidable (afterAs = true ∧ quote ≠ 39 ∧ (quote = 96 → 96 ∉ body) ∧ _))
  | true, .word _ :: xs => decidableSetFree false xs
  | false, .word w :: xs =>
    have := decidableSetFree true xs
    have := decidableSetFree false xs
    inferInstanceAs (Decidable (if lower (snprintf 128 w) = cstr "as" then _ else _))

section Scan

variable {xs : List Lexeme} {s s' w : CString} {depth fuel : ℕ}

/-- An `=` that follows is the next byte the loop looks at. -/
theorem exists_of_nextEquals (h : nextEquals xs = true) (hreads : Reads xs [])
    (hskips : Skips xs []) :
    ∃ ys, ys.length < xs.length ∧ ys <:+ xs ∧ skipSpaces (spelled xs) = 61 :: spelled ys ∧
      Reads ys [] ∧ Skips ys [] ∧ assignedWords 0 xs = assignedWords 0 ys := by
  induction xs with
  | nil => cases h
  | cons x xs ih =>
    cases x with
    | gap g =>
      obtain ⟨ys, hlength, hsuffix, hskip, hrest⟩ := ih h hreads.2 hskips.2
      have hgap := hreads.1.2
      rw [List.append_nil] at hgap
      exact ⟨ys, hlength.trans (Nat.lt_succ_self _), hsuffix.trans (List.suffix_cons _ _),
        hgap.trans hskip, hrest⟩
    | quoted quote body => cases h
    | word w => cases h
    | mark c =>
      obtain rfl : c = 61 := of_decide_eq_true h
      have hmark := hreads.1.2.2
      rw [List.append_nil] at hmark
      exact ⟨xs, Nat.lt_succ_self _, List.suffix_cons _ _, hmark, hreads.2, hskips.2, rfl⟩

/-- Where none follows, it is another byte. -/
theorem head?_ne_of_nextEquals (h : nextEquals xs = false) (hreads : Reads xs []) :
    (skipSpaces (spelled xs)).head? ≠ some 61 := by
  have hsolid : ∀ c : UInt8, (isIdentChar c || opensQuote c) = true → c ≠ 61 := fun c hc =>
    ne_of_test (p := fun c => isIdentChar c || opensQuote c) hc (by decide)
  induction xs with
  | nil => exact nofun
  | cons x xs ih =>
    have hbefore := hreads.1
    rw [List.append_nil] at hbefore
    cases x with
    | gap g =>
      rw [spelled_cons, skipSpaces_gap hbefore]
      exact ih h hreads.2
    | quoted quote body =>
      rw [spelled_cons, skipSpaces_spelled hbefore nofun]
      exact fun heq => hsolid quote (by rw [hbefore.1, Bool.or_true]) (Option.some.inj heq)
    | word w =>
      obtain ⟨c, t, rfl, hc⟩ := hbefore.word_head
      rw [spelled_cons, skipSpaces_spelled hbefore nofun]
      exact fun heq => hsolid c (by rw [hc, Bool.true_or]) (Option.some.inj heq)
    | mark c =>
      rw [spelled_cons, skipSpaces_spelled hbefore nofun]
      exact fun heq => absurd h (by rw [nextEquals, Option.some.inj heq]; decide)

theorem scanUpdateFrom_congr {tables : List Table} (h : skipSpaces s = skipSpaces s') :
    scanUpdateFrom (fuel + 1) tables s = scanUpdateFrom (fuel + 1) tables s' := by
  unfold scanUpdateFrom
  rw [h]

/-- A round that looks for the keyword. -/
theorem scanUpdateFrom_succ {tables : List Table} {c : UInt8} {t : CString}
    (h : skipSpaces s = c :: t) :
    scanUpdateFrom (fuel + 1) tables s =
      if opensQuote c then scanUpdateFrom fuel tables (skipQuotedRaw c t)
      else if !isIdentChar c then scanUpdateFrom fuel tables t
      else
        let rest := (c :: t).dropWhile isIdentChar
        if lower ((c :: t).takeWhile isIdentChar) = cstr "update" then
          match parseRef rest with
          | (none, rest) => scanUpdateFrom fuel tables rest
          | (some (db, part, ks), rest) =>
            let meant := fun t : Table => sameShard t db part ks && t.pw == decide (ks = [])
            if tables.any meant then
              match findSet rest.length rest with
              | none => tables
              | some rest =>
                let (cols, rest) := assignedColumns rest.length 0 rest
                scanUpdateFrom fuel (addColumns meant cols tables) rest
            else scanUpdateFrom fuel tables rest
        else scanUpdateFrom fuel tables rest := by
  rewrite [scanUpdateFrom, h]
  rfl

theorem assignedColumns_congr (h : skipSpaces s = skipSpaces s') :
    assignedColumns (fuel + 1) depth s = assignedColumns (fuel + 1) depth s' := by
  unfold assignedColumns
  rw [h]

/-- A round of the loop. -/
theorem assignedColumns_succ {c : UInt8} {t : CString} (h : skipSpaces s = c :: t) :
    assignedColumns (fuel + 1) depth s =
      if opensQuote c then assignedColumns fuel depth (skipQuotedRaw c t)
      else if c = 40 then assignedColumns fuel (depth + 1) t
      else if c = 41 then assignedColumns fuel (depth - 1) t
      else if !isIdentChar c then assignedColumns fuel depth t
      else
        let col := snprintf 128 ((c :: t).takeWhile isIdentChar)
        let rest := (c :: t).dropWhile isIdentChar
        if depth = 0 ∧ lower col ∈ clauseWords then ([], rest)
        else match skipSpaces rest with
          | 61 :: rest' =>
            if depth = 0 then let (cols, r) := assignedColumns fuel depth rest'; (col :: cols, r)
            else assignedColumns fuel depth rest
          | _ => assignedColumns fuel depth rest := by
  rw [assignedColumns]
  dsimp only
  rewrite [h]
  rfl

/-- A byte of an identifier opens neither a quote nor a group. -/
theorem plain_of_ident {c : UInt8} (hc : isIdentChar c = true) :
    opensQuote c = false ∧ c ≠ 40 ∧ c ≠ 41 :=
  ⟨opensQuote_of_ident hc, ne_of_test hc (by decide), ne_of_test hc (by decide)⟩

/-- A round that finds a word of the next clause is the last. -/
theorem assignedColumns_clause (fuel : ℕ) {c : UInt8} {t : CString} (h : skipSpaces s = c :: t)
    (hc : isIdentChar c = true)
    (hword : depth = 0 ∧ lower (snprintf 128 ((c :: t).takeWhile isIdentChar)) ∈ clauseWords) :
    assignedColumns (fuel + 1) depth s = ([], (c :: t).dropWhile isIdentChar) := by
  obtain ⟨hquote, hopen, hclose⟩ := plain_of_ident hc
  rw [assignedColumns_succ h, hquote, hc, if_neg (by decide), if_neg hopen, if_neg hclose]
  dsimp only
  rw [if_neg (by decide), if_pos hword]

/-- A round that finds a name and an `=`. -/
theorem assignedColumns_equals (fuel : ℕ) {c : UInt8} {t rest : CString}
    (h : skipSpaces s = c :: t) (hc : isIdentChar c = true)
    (hword : lower (snprintf 128 ((c :: t).takeWhile isIdentChar)) ∉ clauseWords)
    (hequals : skipSpaces ((c :: t).dropWhile isIdentChar) = 61 :: rest) :
    assignedColumns (fuel + 1) 0 s =
      (snprintf 128 ((c :: t).takeWhile isIdentChar) :: (assignedColumns fuel 0 rest).1,
        (assignedColumns fuel 0 rest).2) := by
  obtain ⟨hquote, hopen, hclose⟩ := plain_of_ident hc
  rw [assignedColumns_succ h, hquote, hc, if_neg (by decide), if_neg hopen, if_neg hclose]
  dsimp only
  rw [if_neg (by decide), if_neg fun h => hword h.2, hequals]
  rfl

/-- A round that finds any other word. -/
theorem assignedColumns_word (fuel : ℕ) {c : UInt8} {t : CString} (h : skipSpaces s = c :: t)
    (hc : isIdentChar c = true)
    (hword : ¬ (depth = 0 ∧ lower (snprintf 128 ((c :: t).takeWhile isIdentChar)) ∈ clauseWords))
    (hequals : depth = 0 → (skipSpaces ((c :: t).dropWhile isIdentChar)).head? ≠ some 61) :
    assignedColumns (fuel + 1) depth s =
      assignedColumns fuel depth ((c :: t).dropWhile isIdentChar) := by
  obtain ⟨hquote, hopen, hclose⟩ := plain_of_ident hc
  rw [assignedColumns_succ h, hquote, hc, if_neg (by decide), if_neg hopen, if_neg hclose]
  dsimp only
  rw [if_neg (by decide), if_neg hword]
  split
  · next heq =>
    split
    · next hdepth => exact absurd (by rw [heq]; rfl) (hequals hdepth)
    · rfl
  · rfl

/-- **What the loop finds** are the bare names before an `=`, and where it stops there are
lexemes left. -/
theorem assignedColumns_spelled (n : ℕ) : ∀ (xs : List Lexeme) (depth fuel : ℕ), xs.length ≤ n →
    Reads xs [] → Skips xs [] → (spelled xs).length ≤ fuel →
    (assignedColumns fuel depth (spelled xs)).1 = assignedWords depth xs ∧
      ∃ ys, ys <:+ xs ∧ (assignedColumns fuel depth (spelled xs)).2 = spelled ys := by
  induction n with
  | zero =>
    intro xs depth fuel hn
    obtain rfl := List.length_eq_zero_iff.mp (Nat.le_zero.mp hn)
    intro _ _ _
    refine ⟨?_, [], List.suffix_rfl, ?_⟩
    · cases fuel <;> rfl
    · cases fuel <;> rfl
  | succ n ih =>
    intro xs depth fuel hn hreads hskips hfuel
    cases xs with
    | nil =>
      refine ⟨?_, [], List.suffix_rfl, ?_⟩
      · cases fuel <;> rfl
      · cases fuel <;> rfl
    | cons x xs =>
      have hlen : xs.length ≤ n := Nat.le_of_succ_le_succ hn
      have hbefore := hreads.1
      have hskipped := hskips.1
      rw [List.append_nil] at hbefore hskipped
      have hpos := hbefore.length_pos
      rw [spelled_cons, List.length_append] at hfuel
      obtain ⟨fuel, rfl⟩ := Nat.exists_eq_succ_of_ne_zero (by omega : fuel ≠ 0)
      -- one lexeme that is no bare name costs one turn and leaves the depth to the others
      have hnext : ∀ depth, (assignedColumns fuel depth (spelled xs)).1 = assignedWords depth xs ∧
          ∃ ys, ys <:+ x :: xs ∧ (assignedColumns fuel depth (spelled xs)).2 = spelled ys := by
        intro depth
        obtain ⟨hwords, ys, hys, hleft⟩ := ih xs depth fuel hlen hreads.2 hskips.2 (by omega)
        exact ⟨hwords, ys, hys.trans (List.suffix_cons x xs), hleft⟩
      rw [spelled_cons]
      cases x with
      | gap g =>
        -- white space and comments are skipped before the turn, so no fuel is spent on them
        rw [assignedColumns_congr (skipSpaces_gap hbefore)]
        obtain ⟨hwords, ys, hys, hleft⟩ :=
          ih xs depth (fuel + 1) hlen hreads.2 hskips.2 (by omega)
        exact ⟨hwords, ys, hys.trans (List.suffix_cons _ xs), hleft⟩
      | quoted quote body =>
        have hend : skipQuotedRaw quote (body ++ closing quote :: spelled xs) = spelled xs :=
          hskipped
        rw [assignedColumns_succ (skipSpaces_quoted hbefore), if_pos hbefore.1, hend]
        exact hnext depth
      | mark c =>
        -- only brackets change the depth
        have hskip : skipSpaces ((Lexeme.mark c).spelled ++ spelled xs) = c :: spelled xs :=
          hbefore.2.2
        rw [assignedColumns_succ hskip, if_neg (by rw [hbefore.2.1]; decide), assignedWords]
        by_cases hopen : c = 40
        · rw [if_pos hopen, if_pos hopen]
          exact hnext (depth + 1)
        · rw [if_neg hopen, if_neg hopen]
          by_cases hclose : c = 41
          · rw [if_pos hclose, if_pos hclose]
            exact hnext (depth - 1)
          · rw [if_neg hclose, if_neg hclose, hbefore.1]
            exact hnext depth
      | word w =>
        -- a clause word at depth 0 ends the loop; a name before `=` is a column, others are none
        obtain ⟨c, t, hc, hskip, htake, hdrop⟩ := skipSpaces_word hbefore
        rw [assignedWords]
        by_cases hstop : depth = 0 ∧ lower (snprintf 128 w) ∈ clauseWords
        · have hround := assignedColumns_clause fuel hskip hc (by rw [htake]; exact hstop)
          rw [if_pos hstop, hround, hdrop]
          exact ⟨rfl, xs, List.suffix_cons _ xs, rfl⟩
        · rw [if_neg hstop]
          by_cases hequals : depth = 0 ∧ nextEquals xs = true
          · obtain ⟨rfl, hequals'⟩ := hequals
            obtain ⟨ys, hys, hsuffix, hskips', hreads', hskips'', hwords⟩ :=
              exists_of_nextEquals hequals' hreads.2 hskips.2
            have hshort : (spelled ys).length < (spelled xs).length := by
              have hle := (skipSpaces_suffix (spelled xs)).length_le
              rw [hskips', List.length_cons] at hle
              exact hle
            obtain ⟨hfound, zs, hzs, hleft⟩ :=
              ih ys 0 fuel (hys.le.trans hlen) hreads' hskips'' (by omega)
            have hround := assignedColumns_equals fuel hskip hc
              (by rw [htake]; exact fun h => hstop ⟨rfl, h⟩)
              (by rw [hdrop]; exact hskips')
            rw [if_pos ⟨rfl, hequals'⟩, hround, htake, hwords, ← hfound]
            exact ⟨rfl, zs, hzs.trans (hsuffix.trans (List.suffix_cons _ xs)), hleft⟩
          · have hround := assignedColumns_word fuel hskip hc
              (by rw [htake]; exact hstop)
              (fun hdepth => by
                rw [hdrop]
                exact head?_ne_of_nextEquals
                  (Bool.not_eq_true _ ▸ fun h => hequals ⟨hdepth, h⟩) hreads.2)
            rw [if_neg hequals, hround, hdrop]
            exact hnext depth

/-- Lexemes without the keyword add nothing. -/
theorem scanUpdateFrom_spelled {tables : List Table} (hreads : Reads xs []) (hskips : Skips xs [])
    (hupdate : ∀ x ∈ xs, x.isWord (cstr "update") = false) (fuel : ℕ) :
    scanUpdateFrom fuel tables (spelled xs) = tables := by
  induction xs generalizing fuel with
  | nil => cases fuel <;> rfl
  | cons x xs ih =>
    cases fuel with
    | zero => rfl
    | succ fuel =>
      have hnext := ih hreads.2 hskips.2 fun x hx => hupdate x (List.mem_cons_of_mem _ hx)
      have hbefore := hreads.1
      have hskipped := hskips.1
      rw [List.append_nil] at hbefore hskipped
      rw [spelled_cons]
      cases x with
      | gap g => rw [scanUpdateFrom_congr (skipSpaces_gap hbefore), hnext]
      | quoted quote body =>
        have hend : skipQuotedRaw quote (body ++ closing quote :: spelled xs) = spelled xs :=
          hskipped
        rw [scanUpdateFrom_succ (skipSpaces_quoted hbefore), if_pos hbefore.1, hend, hnext]
      | mark c =>
        have hskip : skipSpaces ((Lexeme.mark c).spelled ++ spelled xs) = c :: spelled xs :=
          hbefore.2.2
        rw [scanUpdateFrom_succ hskip, hbefore.1, hbefore.2.1, if_neg (by decide),
          if_pos (by decide), hnext]
      | word w =>
        obtain ⟨c, t, hc, hskip, htake, hdrop⟩ := skipSpaces_word hbefore
        rw [scanUpdateFrom_succ hskip, hc, opensQuote_of_ident hc, if_neg (by decide),
          if_neg (by decide), htake, hdrop,
          if_neg (of_decide_eq_false (hupdate (.word w) List.mem_cons_self)), hnext]

/-! ## The SET keyword -/

theorem findSet_congr (h : skipSpaces s = skipSpaces s') :
    findSet (fuel + 1) s = findSet (fuel + 1) s' := by
  unfold findSet
  rw [h]

/-- A round that looks for SET. -/
theorem findSet_succ {c : UInt8} {t : CString} (h : skipSpaces s = c :: t) :
    findSet (fuel + 1) s =
      match readIdent 128 (c :: t) with
      | none => findSet fuel t
      | some (word, rest) =>
        if lower word = cstr "as" then
          findSet fuel (((readIdent 128 (skipSpaces rest)).map Prod.snd).getD (skipSpaces rest))
        else if lower word = cstr "set" then some rest
        else findSet fuel rest := by
  rw [findSet]
  dsimp only
  rewrite [h]
  rfl

/-- **The loop finds SET** behind an alias. -/
theorem findSet_spelled (fuel : ℕ) {set : CString} {ys hint : List Lexeme}
    (hset : lower set = cstr "set") (hreads : Reads (hint ++ .word set :: ys) [])
    (hfuel : (spelled (hint ++ .word set :: ys)).length ≤ fuel) :
    (SetFree false hint → findSet fuel (spelled (hint ++ .word set :: ys)) = some (spelled ys)) ∧
      (SetFree true hint →
        findSet fuel (((readIdent 128 (skipSpaces (spelled (hint ++ .word set :: ys)))).map
          Prod.snd).getD (skipSpaces (spelled (hint ++ .word set :: ys)))) =
            some (spelled ys)) := by
  induction hint generalizing fuel with
  | nil =>
    -- SET itself comes next: it is read as a word that is short enough for its buffer
    refine ⟨fun _ => ?_, nofun⟩
    have hbefore := hreads.1
    rw [List.append_nil] at hbefore
    obtain ⟨c, t, hc, hskip, htake, hdrop⟩ := skipSpaces_word hbefore
    have hpos := hbefore.length_pos
    rw [List.nil_append, spelled_cons] at hfuel ⊢
    rw [List.length_append] at hfuel
    obtain ⟨fuel, rfl⟩ := Nat.exists_eq_succ_of_ne_zero (by omega : fuel ≠ 0)
    have hshort : set.length < 128 := by
      have hlength := congrArg List.length hset
      rw [lower, List.length_map] at hlength
      rw [hlength]
      decide
    rw [findSet_succ hskip, readIdent_bare hc, htake, hdrop]
    dsimp only
    rw [snprintf_of_lt hshort, hset, if_neg (by decide), if_pos rfl]
  | cons x hint ih =>
    have hbefore : x.Before (spelled (hint ++ .word set :: ys)) := by simpa using hreads.1
    have hpos := hbefore.length_pos
    have hmore : spelled (hint ++ .word set :: ys) ≠ [] := by
      have hword := (reads_append.mp hreads.2).2.1.length_pos
      rw [spelled_append, spelled_cons]
      exact List.append_ne_nil_of_right_ne_nil _
        (List.append_ne_nil_of_left_ne_nil (List.ne_nil_of_length_pos hword) _)
    rw [List.cons_append, spelled_cons] at hfuel ⊢
    rw [List.length_append] at hfuel
    -- only the text behind the lexeme matters from here on
    replace ih := fun fuel hfuel => ih fuel hreads.2 hfuel
    generalize spelled (hint ++ .word set :: ys) = f at hbefore hmore hfuel ih ⊢
    obtain ⟨fuel, rfl⟩ := Nat.exists_eq_succ_of_ne_zero (by omega : fuel ≠ 0)
    cases x with
    | gap g =>
      -- white space and comments are passed by without a turn
      rw [findSet_congr (skipSpaces_gap hbefore), skipSpaces_gap hbefore]
      exact ih _ (by omega)
    | quoted quote body =>
      -- a quoted name can only be an alias behind AS
      refine ⟨nofun, fun ⟨_, hquote, hback, hfree⟩ => ?_⟩
      obtain ⟨name, hname⟩ := readIdent_quoted hbefore hmore hquote hback 128
      rw [skipSpaces_quoted hbefore, hname]
      exact (ih _ (by omega)).1 hfree
    | mark c =>
      -- no identifier starts here, and the loop goes on with the next byte
      have hspelled : (Lexeme.mark c).spelled ++ f = c :: f := rfl
      have hskip : skipSpaces (c :: f) = c :: f := hbefore.2.2
      have hnone : readIdent 128 (c :: f) = none := readIdent_mark hbefore.1 hbefore.2.1 128
      have hround : findSet (fuel + 1) (c :: f) = findSet fuel f := by
        rw [findSet_succ hskip, hnone]
      rw [hspelled, hskip, hnone]
      exact ⟨fun hfree => hround.trans ((ih _ (by omega)).1 hfree),
        fun hfree => hround.trans ((ih _ (by omega)).1 hfree)⟩
    | word w =>
      -- behind AS the next word is an alias, whatever it is
      obtain ⟨c, t, hc, hskip, htake, hdrop⟩ := skipSpaces_word hbefore
      have hname := readIdent_bare (t := t) hc 128
      rw [htake, hdrop] at hname
      refine ⟨fun hfree => ?_, fun hfree => ?_⟩
      · rw [findSet_succ hskip, hname]
        dsimp only
        rw [SetFree] at hfree
        split at hfree
        · next has =>
          rw [if_pos has]
          exact (ih _ (by omega)).2 hfree
        · next has =>
          rw [if_neg has, if_neg hfree.1]
          exact (ih _ (by omega)).1 hfree.2
      · rw [hskip, hname]
        exact (ih _ (by omega)).1 hfree

end Scan

/-! ## The columns of the table -/

section Columns

variable {names cols : List CString} {t : Table} {tables : List Table} {meant : Table → Bool}

/-- A full list stays as it is. -/
theorem take_foldl_addKey (h : cols.length = maxCols) (names : List CString) :
    (names.foldl addKey cols).take maxCols = cols := by
  obtain ⟨more, hmore⟩ := prefix_foldl_addKey cols names
  rw [← hmore, ← h, List.take_left]

/-- Short names are added while there is room. -/
theorem map_fst_foldl_tableAddColumn (hshort : ∀ name ∈ names, name.length < 128)
    (hroom : t.cols.length ≤ maxCols) :
    (names.foldl tableAddColumn t).cols.map Prod.fst =
      (names.foldl addKey (t.cols.map Prod.fst)).take maxCols := by
  induction names generalizing t with
  | nil =>
    rw [List.foldl_nil, List.foldl_nil, List.take_of_length_le]
    rwa [List.length_map]
  | cons name names ih =>
    rw [List.forall_mem_cons] at hshort
    rw [List.foldl_cons]
    by_cases hknown : name ∈ t.cols.map Prod.fst
    · have htable : tableAddColumn t name = t := if_pos hknown
      have hkeys : addKey (t.cols.map Prod.fst) name = t.cols.map Prod.fst := if_pos hknown
      rw [htable, ih hshort.2 hroom, List.foldl_cons, hkeys]
    · have htable : tableAddColumn t name = if t.cols.length < maxCols then
          { t with cols := t.cols ++ [(snprintf 128 name, false)] } else t := if_neg hknown
      by_cases hless : t.cols.length < maxCols
      · have hkeys : addKey (t.cols.map Prod.fst) name =
            (t.cols ++ [(name, false)]).map Prod.fst := by
          rw [addKey, if_neg hknown, List.map_append]
          rfl
        rw [htable, if_pos hless, snprintf_of_lt hshort.1, ih hshort.2, List.foldl_cons, hkeys]
        rw [List.length_append]
        exact hless
      · have hfull : (t.cols.map Prod.fst).length = maxCols := by
          rw [List.length_map]
          omega
        rw [htable, if_neg hless, ih hshort.2 hroom, take_foldl_addKey hfull,
          take_foldl_addKey hfull]

/-- The columns of the first table that is meant are added to it. -/
theorem find?_addColumns (hmeant : ∀ t name, meant (tableAddColumn t name) = meant t)
    (h : tables.find? meant = some t) (names : List CString) :
    (addColumns meant names tables).find? meant = some (names.foldl tableAddColumn t) := by
  have hnames : ∀ (names : List CString) t, meant (names.foldl tableAddColumn t) = meant t := by
    intro names
    induction names with
    | nil => exact fun _ => rfl
    | cons name names ih => exact fun t => (ih _).trans (hmeant t name)
  induction tables with
  | nil => cases h
  | cons u tables ih =>
    rw [List.find?_cons] at h
    rw [addColumns]
    split at h
    · next hu =>
      cases h
      rw [if_pos hu, List.find?_cons_of_pos (by rw [hnames, hu])]
    · next hu =>
      rw [if_neg (by rw [hu]; decide), List.find?_cons_of_neg (by rw [hu]; decide), ih h]

theorem length_assignedWords (depth : ℕ) (xs : List Lexeme) :
    ∀ name ∈ assignedWords depth xs, name.length < 128 := by
  fun_induction assignedWords depth xs with
  | case1 => exact nofun
  | case2 => assumption
  | case3 => assumption
  | case4 => assumption
  | case5 => exact nofun
  | case6 depth w xs _ _ ih =>
    rw [List.forall_mem_cons]
    exact ⟨length_snprintf_lt (by decide) w, ih⟩
  | case7 => assumption

end Columns

/-! ## The statement -/

/-- The cursor at a word behind white space. -/
theorem skipSpaces_lead {lead : List Lexeme} {w f : CString}
    (hgaps : lead.all Lexeme.isGap = true) (hreads : Reads (lead ++ [.word w]) f) :
    ∃ c t, isIdentChar c = true ∧ skipSpaces (spelled (lead ++ [.word w]) ++ f) = c :: t ∧
      (c :: t).takeWhile isIdentChar = w ∧ (c :: t).dropWhile isIdentChar = f := by
  induction lead with
  | nil =>
    have hword : spelled ([] ++ [.word w]) = (Lexeme.word w).spelled := List.append_nil _
    rw [hword]
    exact skipSpaces_word hreads.1
  | cons x lead ih =>
    rw [List.all_cons, Bool.and_eq_true] at hgaps
    obtain ⟨c, t, hc, hskip, hword⟩ := ih hgaps.2 hreads.2
    cases x with
    | gap g =>
      have hgap := skipSpaces_gap hreads.1
      refine ⟨c, t, hc, ?_, hword⟩
      rw [List.cons_append, spelled_cons, List.append_assoc]
      exact hgap.trans hskip
    | quoted quote body => exact absurd hgaps.1 Bool.false_ne_true
    | word w => exact absurd hgaps.1 Bool.false_ne_true
    | mark c => exact absurd hgaps.1 Bool.false_ne_true

/-- A round that finds the keyword, a reference and SET. -/
theorem scanUpdateFrom_update (fuel : ℕ) {tables : List Table} {c : UInt8}
    {s t rest after left db part ks : CString} {cols : List CString} (h : skipSpaces s = c :: t)
    (hc : isIdentChar c = true) (hword : lower ((c :: t).takeWhile isIdentChar) = cstr "update")
    (href : parseRef ((c :: t).dropWhile isIdentChar) = (some (db, part, ks), rest))
    (hany : (tables.any fun t => sameShard t db part ks && t.pw == decide (ks = [])) = true)
    (hset : findSet rest.length rest = some after)
    (hcols : assignedColumns after.length 0 after = (cols, left)) :
    scanUpdateFrom (fuel + 1) tables s = scanUpdateFrom fuel
      (addColumns (fun t => sameShard t db part ks && t.pw == decide (ks = [])) cols tables)
      left := by
  rw [scanUpdateFrom_succ h, opensQuote_of_ident hc, hc, if_neg (by decide), if_neg (by decide)]
  dsimp only
  rw [if_pos hword, href]
  dsimp only
  rw [if_pos hany, hset]
  dsimp only
  rw [hcols]

namespace Update

variable {u : Update} {tables : List Table} {t : Table}

/-- The bare names before an `=`. -/
def assigned (u : Update) : List CString := assignedWords 0 (setClause u.assignments ++ u.tail)

/-- The id and the bare names before an `=`, as many as a table has room for. -/
def names (u : Update) : List CString := (u.assigned.foldl addKey [cstr "id"]).take maxCols

/-- **What the scan does**: it adds the bare names before an `=` to the table. -/
theorem scanUpdateColumns_text (hset : SetFree false u.hint) (hskips : Skips u.rest [])
    (hfind : tables.find? u.meant = some t) :
    scanUpdateColumns u.text tables = addColumns u.meant u.assigned tables := by
  obtain ⟨c, r, hc, hskip, htake, hdrop⟩ := skipSpaces_lead u.lead_gaps u.lead_reads
  have hany : tables.any u.meant = true :=
    List.any_eq_true.mpr ⟨t, List.mem_of_find?_eq_some hfind, List.find?_some hfind⟩
  have hreads := u.reads
  have hfound := (findSet_spelled _ u.set_set hreads le_rfl).1 hset
  have hafter : Reads (setClause u.assignments ++ u.tail) [] ∧
      Skips (setClause u.assignments ++ u.tail) [] :=
    ⟨(reads_append.mp hreads).2.2, (skips_append.mp hskips).2.2⟩
  obtain ⟨hwords, ys, hys, hleft⟩ := assignedColumns_spelled _ _ 0
    (spelled (setClause u.assignments ++ u.tail)).length le_rfl hafter.1 hafter.2 le_rfl
  have hrest : ys <:+ u.rest :=
    hys.trans ((List.suffix_cons _ _).trans (List.suffix_append u.hint _))
  obtain ⟨xs, hxs⟩ := hrest
  have hleftReads : Reads ys [] := by
    rw [rest] at hxs
    rw [← hxs] at hreads
    exact (reads_append.mp hreads).2
  have hleftSkips : Skips ys [] := by
    rw [← hxs] at hskips
    exact (skips_append.mp hskips).2
  have hlength : u.text.length ≠ 0 := by
    intro hzero
    have htext : skipSpaces u.text = c :: r := hskip
    rw [List.eq_nil_of_length_eq_zero hzero] at htext
    cases htext
  obtain ⟨fuel, hfuel⟩ := Nat.exists_eq_succ_of_ne_zero hlength
  unfold scanUpdateColumns
  rw [hfuel]
  have hround := scanUpdateFrom_update fuel hskip hc (by rw [htake]; exact u.verb_update)
    (by rw [hdrop]; exact u.ref_reads) hany hfound (Prod.ext hwords hleft)
  refine hround.trans (scanUpdateFrom_spelled hleftReads hleftSkips (fun x hx => ?_) fuel)
  exact u.one_update x (by rw [← rest, ← hxs]; exact List.mem_append_right xs hx)

theorem meant_tableAddColumn (u : Update) (t : Table) (name : CString) :
    u.meant (tableAddColumn t name) = u.meant t :=
  tableAddColumn_of_bare (fun _ => rfl) t name

/-- The names of the columns afterwards. -/
theorem names_scanUpdateColumns (hset : SetFree false u.hint) (hskips : Skips u.rest [])
    (hfind : tables.find? u.meant = some t) (hcols : t.cols = [(cstr "id", false)]) :
    ∃ t', (scanUpdateColumns u.text tables).find? u.meant = some t' ∧
      t'.cols.map Prod.fst = u.names := by
  refine ⟨u.assigned.foldl tableAddColumn t, ?_, ?_⟩
  · rw [scanUpdateColumns_text hset hskips hfind]
    exact find?_addColumns u.meant_tableAddColumn hfind u.assigned
  · have hshort : ∀ name ∈ u.assigned, name.length < 128 := length_assignedWords 0 _
    rw [map_fst_foldl_tableAddColumn hshort (by rw [hcols]; decide), hcols]
    rfl

/-- The bare names before an `=` are the targets. -/
structure Plain (u : Update) : Prop where
  /-- every target is a bare name before an `=`, and there is room for it -/
  targets : ∀ name ∈ u.targets, name ∈ u.names
  /-- every bare name before an `=` is a target, as far as there is room -/
  names : ∀ name ∈ u.names, name = cstr "id" ∨ name ∈ u.targets

/-- **The columns are the targets** exactly when the bare names before an `=` are. -/
theorem exact_iff (hset : SetFree false u.hint) (hskips : Skips u.rest [])
    (hfind : tables.find? u.meant = some t) (hcols : t.cols = [(cstr "id", false)]) :
    u.Exact tables ↔ u.Plain := by
  obtain ⟨t', hfind', hnames⟩ := names_scanUpdateColumns hset hskips hfind hcols
  have hid : cstr "id" ∈ u.names := by
    obtain ⟨more, hmore⟩ := prefix_foldl_addKey [cstr "id"] u.assigned
    rw [Update.names, ← hmore]
    exact List.mem_cons_self
  constructor
  · rintro ⟨t'', hfind'', hexact⟩
    obtain rfl : t' = t'' := Option.some.inj (hfind'.symm.trans hfind'')
    rw [hnames] at hexact
    exact ⟨fun name hname => (hexact name).mpr (Or.inr hname), fun name => (hexact name).mp⟩
  · intro h
    refine ⟨t', hfind', fun name => ?_⟩
    rw [hnames]
    refine ⟨h.names name, fun hname => ?_⟩
    rcases hname with rfl | hname
    · exact hid
    · exact h.targets name hname

end Update

/-! ## Simple statements -/

/-- The word of a target that is one bare column. -/
def Target.word? : Target → Option CString
  | .column ⟨_, .bare [.word w] _, _, _⟩ => some w
  | _ => none

/-- There is no keyword outside parentheses, and no bare name before an `=`. -/
def Quiet : ℕ → List Lexeme → Prop
  | _, [] => True
  | depth, .gap _ :: xs | depth, .quoted _ _ :: xs => Quiet depth xs
  | depth, .mark c :: xs =>
    Quiet (if c = 40 then depth + 1 else if c = 41 then depth - 1 else depth) xs
  | depth, .word w :: xs =>
    (depth = 0 → lower (snprintf 128 w) ∉ clauseWords ∧ nextEquals xs = false) ∧ Quiet depth xs

instance decidableQuiet : ∀ (depth : ℕ) (xs : List Lexeme), Decidable (Quiet depth xs)
  | _, [] => inferInstanceAs (Decidable True)
  | depth, .gap _ :: xs | depth, .quoted _ _ :: xs => decidableQuiet depth xs
  | depth, .mark c :: xs =>
    decidableQuiet (if c = 40 then depth + 1 else if c = 41 then depth - 1 else depth) xs
  | depth, .word _ :: xs =>
    have := decidableQuiet depth xs
    inferInstanceAs (Decidable ((_ → _ ∧ _) ∧ _))

/-- A bare column that is no keyword, and a quiet value. -/
structure Assignment.Simple (a : Assignment) : Prop where
  word : ∃ w, a.target.word? = some w ∧ w.length < 128 ∧ lower w ∉ clauseWords
  value : Quiet 0 a.value

section Simple

variable {xs ys : List Lexeme} {as : List Assignment} {depth : ℕ}

theorem nextEquals_append (hx : nextEquals xs = false) (hy : nextEquals ys = false) :
    nextEquals (xs ++ ys) = false := by
  induction xs with
  | nil => exact hy
  | cons x xs ih =>
    cases x with
    | gap g => exact ih hx
    | quoted quote body => rfl
    | word w => rfl
    | mark c => exact hx

theorem assignedWords_gaps (depth : ℕ) (ys : List Lexeme) (hgaps : xs.all Lexeme.isGap = true) :
    assignedWords depth (xs ++ ys) = assignedWords depth ys ∧
      nextEquals (xs ++ ys) = nextEquals ys := by
  induction xs with
  | nil => exact ⟨rfl, rfl⟩
  | cons x xs ih =>
    rw [List.all_cons, Bool.and_eq_true] at hgaps
    cases x with
    | gap g => exact ih hgaps.2
    | quoted quote body => exact absurd hgaps.1 Bool.false_ne_true
    | word w => exact absurd hgaps.1 Bool.false_ne_true
    | mark c => exact absurd hgaps.1 Bool.false_ne_true

/-- A quiet value adds nothing. -/
theorem assignedWords_quiet (hxs : Expression depth xs) (hquiet : Quiet depth xs)
    (hy : nextEquals ys = false) : assignedWords depth (xs ++ ys) = assignedWords 0 ys := by
  induction xs generalizing depth with
  | nil =>
    obtain rfl : depth = 0 := hxs
    rfl
  | cons x xs ih =>
    cases x with
    | gap g => exact ih hxs hquiet
    | quoted quote body => exact ih hxs hquiet
    | mark c =>
      rw [Expression] at hxs
      rw [Quiet] at hquiet
      rw [List.cons_append, assignedWords]
      by_cases hopen : c = 40
      · rw [if_pos hopen] at hxs hquiet ⊢
        exact ih hxs hquiet
      · rw [if_neg hopen] at hxs hquiet ⊢
        by_cases hclose : c = 41
        · rw [if_pos hclose] at hxs hquiet ⊢
          exact ih hxs.2 hquiet
        · rw [if_neg hclose] at hxs hquiet ⊢
          exact ih hxs.2 hquiet
    | word w =>
      obtain ⟨hword, hrest⟩ := hquiet
      have hnone : ¬ (depth = 0 ∧ nextEquals (xs ++ ys) = true) := by
        rintro ⟨hdepth, hnext⟩
        rw [nextEquals_append (hword hdepth).2 hy] at hnext
        cases hnext
      rw [List.cons_append, assignedWords, if_neg fun h => (hword h.1).1 h.2, if_neg hnone]
      exact ih hxs hrest

/-- A simple assignment adds its target. -/
theorem Assignment.Simple.assignedWords {a : Assignment} (h : a.Simple)
    (hy : nextEquals ys = false) :
    assignedWords 0 (a.lexemes ++ ys) = a.target.names ++ assignedWords 0 ys := by
  obtain ⟨⟨w, hw, hshort, hbare⟩, hquiet⟩ := h
  obtain ⟨target, value, hvalue⟩ := a
  dsimp only at hw hquiet
  unfold Target.word? at hw
  split at hw
  · next before w' hpieces after hgaps =>
    obtain rfl : w' = w := Option.some.inj hw
    have hboth := hgaps
    rw [List.all_append, Bool.and_eq_true] at hboth
    have hlexemes : (Assignment.mk (.column ⟨before, .bare [.word w'] hpieces, after, hgaps⟩) value
        hvalue).lexemes ++ ys = before ++ .word w' :: (after ++ .mark 61 :: (value ++ ys)) := by
      simp [Assignment.lexemes, Target.lexemes, Column.lexemes, Identifier.lexemes]
    obtain ⟨hafter, hequals⟩ := assignedWords_gaps 0 (.mark 61 :: (value ++ ys)) hboth.2
    have hnames : (Target.column ⟨before, .bare [.word w'] hpieces, after, hgaps⟩).names = [w'] :=
      congrArg (fun n => [n]) (List.append_nil w')
    rw [hlexemes, (assignedWords_gaps 0 _ hboth.1).1, Eql.assignedWords, snprintf_of_lt hshort,
      if_neg fun h => hbare h.2, if_pos ⟨rfl, hequals⟩, hafter, hnames]
    have hquietly := assignedWords_quiet hvalue hquiet hy
    exact congrArg (w' :: ·) hquietly
  · cases hw

/-- Simple assignments add their targets. -/
theorem assignedWords_setClause (h : ∀ a ∈ as, a.Simple) (hy : nextEquals ys = false) :
    assignedWords 0 (setClause as ++ ys) =
      (as.flatMap fun a => a.target.names) ++ assignedWords 0 ys := by
  induction as with
  | nil => rfl
  | cons a as ih =>
    rw [List.forall_mem_cons] at h
    cases as with
    | nil =>
      rw [List.flatMap_cons, List.flatMap_nil, List.append_nil]
      exact h.1.assignedWords hy
    | cons b as =>
      have hclause : setClause (a :: b :: as) ++ ys =
          a.lexemes ++ .mark 44 :: (setClause (b :: as) ++ ys) :=
        List.append_assoc a.lexemes (.mark 44 :: setClause (b :: as)) ys
      have hcomma : nextEquals (.mark 44 :: (setClause (b :: as) ++ ys)) = false :=
        decide_eq_false (by decide)
      rw [hclause, h.1.assignedWords hcomma, List.flatMap_cons, List.append_assoc,
        ← ih h.2]
      rfl

/-- The clauses after the assignments start with a keyword, if there are any. -/
def Stops : List Lexeme → Prop
  | [] => True
  | .gap _ :: xs => Stops xs
  | .word w :: _ => lower (snprintf 128 w) ∈ clauseWords
  | _ => False

theorem Stops.assignedWords (h : Stops xs) : assignedWords 0 xs = [] ∧ nextEquals xs = false := by
  induction xs with
  | nil => exact ⟨rfl, rfl⟩
  | cons x xs ih =>
    cases x with
    | gap g => exact ih h
    | quoted quote body => exact absurd h id
    | word w => exact ⟨if_pos ⟨rfl, h⟩, rfl⟩
    | mark c => exact absurd h id

/-- **Simple statements are exact**, as far as there is room for the targets. -/
theorem Update.plain_of_simple (u : Update) (h : ∀ a ∈ u.assignments, a.Simple)
    (htail : Stops u.tail) (hroom : (u.targets.foldl addKey [cstr "id"]).length ≤ maxCols) :
    u.Plain := by
  obtain ⟨hwords, hnext⟩ := htail.assignedWords
  have hassigned : u.assigned = u.targets := by
    rw [assigned, assignedWords_setClause h hnext, hwords, List.append_nil]
    rfl
  have hmem : ∀ name, name ∈ u.names ↔ name = cstr "id" ∨ name ∈ u.targets := by
    intro name
    rw [names, hassigned, List.take_of_length_le hroom, mem_foldl_addKey, List.mem_singleton]
  exact ⟨fun name hname => (hmem name).mpr (Or.inr hname), fun name => (hmem name).mp⟩

end Simple

/-! ## Two statements -/

/-- A column with a blank on either side. -/
def blankColumn (name : Identifier) : Column := ⟨[.gap [32]], name, [.gap [32]], rfl⟩

/-- A bare identifier of one word. -/
def bareName (w : CString) : Identifier := .bare [.word w] rfl

/-- `UPDATE shop.main.notes AS n SET stars = (stars = 1), title = 'it''s' WHERE id = 'n1'`. -/
def starUpdate : Update where
  lead := []
  verb := cstr "UPDATE"
  ref := cstr " shop.main.notes"
  db := cstr "shop"
  part := cstr "main"
  ks := cstr "notes"
  hint := [.gap [32], .word (cstr "AS"), .gap [32], .word (cstr "n"), .gap [32]]
  set := cstr "SET"
  assignments :=
    [⟨.column (blankColumn (bareName (cstr "stars"))), [.gap [32], .mark 40, .word (cstr "stars"),
        .gap [32], .mark 61, .gap [32], .word (cstr "1"), .mark 41], by decide +kernel⟩,
      ⟨.column (blankColumn (bareName (cstr "title"))), [.gap [32], .quoted 39 (cstr "it''s")],
        by decide +kernel⟩]
  tail := [.gap [32], .word (cstr "WHERE"), .gap [32], .word (cstr "id"), .gap [32], .mark 61,
    .gap [32], .quoted 39 (cstr "n1")]
  lead_gaps := rfl
  lead_reads := by decide +kernel
  verb_update := by decide
  ref_reads := by decide +kernel
  set_set := by decide
  reads := by decide +kernel
  one_update := by decide +kernel

theorem exact_starUpdate : starUpdate.Exact [notesTable] := by
  have hwhere : lower (snprintf 128 (cstr "WHERE")) ∈ clauseWords := by decide
  have hfind : [notesTable].find? starUpdate.meant = some notesTable := by decide +kernel
  refine (starUpdate.exact_iff (by decide +kernel) (by decide +kernel) hfind rfl).mpr
    (starUpdate.plain_of_simple (fun a ha => ?_) hwhere (by decide +kernel))
  rcases List.mem_cons.mp ha with rfl | ha
  · exact ⟨⟨cstr "stars", rfl, by decide, by decide⟩, by decide +kernel⟩
  · obtain rfl := List.mem_singleton.mp ha
    exact ⟨⟨cstr "title", rfl, by decide, by decide⟩, by decide +kernel⟩

/-- `UPDATE shop.main.notes SET "stars" = 5`. -/
def quotedUpdate : Update where
  lead := []
  verb := cstr "UPDATE"
  ref := cstr " shop.main.notes"
  db := cstr "shop"
  part := cstr "main"
  ks := cstr "notes"
  hint := [.gap [32]]
  set := cstr "SET"
  assignments :=
    [⟨.column (blankColumn (.quoted 34 (cstr "stars"))), [.gap [32], .word (cstr "5")],
      by decide +kernel⟩]
  tail := []
  lead_gaps := rfl
  lead_reads := by decide +kernel
  verb_update := by decide
  ref_reads := by decide +kernel
  set_set := by decide
  reads := by decide +kernel
  one_update := by decide +kernel

/-- **A quoted target** is not declared. -/
theorem not_exact_quotedUpdate : ¬ quotedUpdate.Exact [notesTable] := by
  have hfind : (scanUpdateColumns quotedUpdate.text [notesTable]).find? quotedUpdate.meant =
      some notesTable := by
    decide +kernel
  have htarget : cstr "stars" ∈ quotedUpdate.targets := by decide +kernel
  have hmissing : cstr "stars" ∉ notesTable.cols.map Prod.fst := by decide +kernel
  rintro ⟨t, ht, hexact⟩
  obtain rfl : notesTable = t := Option.some.inj (hfind.symm.trans ht)
  exact hmissing ((hexact _).mpr (Or.inr htarget))

end EpsilonDB.Eql
