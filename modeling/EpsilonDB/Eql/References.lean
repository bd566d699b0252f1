import EpsilonDB.Eql.Lexemes

/-!
# The references of a statement (`eql/epsilon_eql.c`)

`collect_refs` does not parse a statement. It looks for the words FROM, JOIN, INTO and UPDATE,
takes a reference that follows one, guesses whether a word behind it is an alias, and takes more
references as long as commas follow.

- `Piece`: a lexeme, or a name with dots, which SQLite resolves as a source or not.
- `step`, `reached`: the loop as a machine with six states, and the references it meets.
- `Parses`: where the loop expects a reference it reads the one SQLite reads.
- `steps_piece`: what the loop does at a piece is a step of the machine.
- `rest_text`: it goes through a statement as the machine does.
-/

namespace EpsilonDB.Eql

/-! ## Statements -/

/-- The three names of a reference. -/
abbrev Names := CString × CString × CString

/-- A piece of a statement. -/
inductive Piece where
  | lexeme (x : Lexeme)
  /-- names with dots between them; the flag is whether SQLite resolves them as a source -/
  | name (source : Bool) (xs : List Lexeme) (names : Names)

/-- Its lexemes. -/
def Piece.lexemes : Piece → List Lexeme
  | .lexeme x => [x]
  | .name _ xs _ => xs

/-- The lexemes of a list of pieces. -/
def lexemes (ps : List Piece) : List Lexeme := ps.flatMap Piece.lexemes

/-- Their text. -/
def text (ps : List Piece) : CString := spelled (lexemes ps)

/-- The references that SQLite resolves as sources. -/
def sources : List Piece → List Names
  | [] => []
  | .name true _ names :: ps => names :: sources ps
  | _ :: ps => sources ps

/-! ## The machine -/

/-- Where the loop is. -/
inductive Mode where
  /-- it looks for one of the words -/
  | scan
  /-- behind one of the words -/
  | afterWord
  /-- behind the reference there -/
  | afterRef
  /-- behind the AS of an alias -/
  | afterAs
  /-- where a comma may follow -/
  | afterAlias
  /-- behind the comma -/
  | afterComma
deriving DecidableEq

/-- A word that is no alias. -/
def scanWord (w : CString) : Mode := if lower w ∈ refWords then .afterWord else .scan

/-- A word behind a reference: a short one is an alias but for four or five letters. -/
def aliasWord (w : CString) : Mode :=
  if 8 ≤ w.length then scanWord w
  else if lower w = cstr "as" then .afterAs
  else if w.length ≠ 4 ∧ w.length ≠ 5 then .afterAlias
  else scanWord w

/-- What the loop does with a piece: where it is then, and the reference it takes. -/
def step : Mode → Piece → Mode × List Names
  | m, .lexeme (.gap _) => (m, [])
  | m, .lexeme (.mark c) =>
    (if c = 44 ∧ (m = .afterRef ∨ m = .afterAlias) then .afterComma else .scan, [])
  | _, .lexeme (.quoted _ _) => (.scan, [])
  | .afterWord, .lexeme (.word _) => (.scan, [])
  | .afterRef, .lexeme (.word w) => (aliasWord w, [])
  | .afterAs, .lexeme (.word _) => (.afterAlias, [])
  | _, .lexeme (.word w) => (scanWord w, [])
  | .afterWord, .name _ _ names => (.afterRef, [names])
  | .afterComma, .name _ _ names => (.afterAlias, [names])
  | _, .name _ _ _ => (.scan, [])

/-- The references it meets. -/
def reached : Mode → List Piece → List Names
  | _, [] => []
  | m, p :: ps => (step m p).2 ++ reached (step m p).1 ps

/-- Whether the lexeme may stand in a name with dots. -/
def Lexeme.inName : Lexeme → Bool
  | .gap _ | .quoted _ _ => true
  | .word w => lower w ∉ refWords
  | .mark c => c = 46

/-- Whether it may be the first one. -/
def Lexeme.isIdent : Lexeme → Bool
  | .quoted _ _ | .word _ => true
  | .gap _ | .mark _ => false

/-- Whether a reference may follow. -/
def Mode.expects (m : Mode) : Bool := m = .afterWord ∨ m = .afterComma

/-- The names fit the buffers of a table. -/
def Fits (names : Names) : Prop :=
  names.1.length < 128 ∧ names.2.1.length < 256 ∧ names.2.2.length < 128

instance (names : Names) : Decidable (Fits names) := inferInstanceAs (Decidable (_ ∧ _ ∧ _))

/-- Where a reference may follow, a name with dots is a piece of its own, of which the scanner
reads and keeps what SQLite reads. Elsewhere it leaves literals where they end. A name with dots
never stands where an alias may. -/
def Piece.Parses (m : Mode) : Piece → CString → Prop
  | .lexeme (.word _), f => m.expects = true → (skipSpaces f).head? ≠ some 46
  | .lexeme (.quoted quote body), f => (Lexeme.quoted quote body).Skipped f ∧
      (m.expects = true → (skipSpaces f).head? ≠ some 46 ∧ (quote = 96 → 96 ∉ body))
  | .lexeme (.gap _), _ | .lexeme (.mark _), _ => True
  | .name _ xs names, f =>
    (m.expects = true → (parseRef (spelled xs ++ f)).1 = some names ∧
      skipSpaces (parseRef (spelled xs ++ f)).2 = skipSpaces f ∧ Fits names) ∧
    (m.expects = false → Skips xs f ∧ m ≠ .afterRef ∧ m ≠ .afterAs ∧
      xs.head?.any Lexeme.isIdent = true ∧ ∀ x ∈ xs, x.inName = true)

instance (m : Mode) : ∀ (p : Piece) (f : CString), Decidable (p.Parses m f)
  | .lexeme (.word _), _ => inferInstanceAs (Decidable (_ → _))
  | .lexeme (.quoted _ _), _ => inferInstanceAs (Decidable (_ ∧ (_ → _ ∧ _)))
  | .lexeme (.gap _), _ | .lexeme (.mark _), _ => inferInstanceAs (Decidable True)
  | .name _ _ _, _ => inferInstanceAs (Decidable ((_ → _ ∧ _ ∧ _) ∧ (_ → _ ∧ _ ∧ _ ∧ _ ∧ _)))

/-- So it is with all of them. -/
def Parses : Mode → List Piece → Prop
  | _, [] => True
  | m, p :: ps => p.Parses m (text ps) ∧ Parses (step m p).1 ps

instance decidableParses : ∀ (m : Mode) (ps : List Piece), Decidable (Parses m ps)
  | _, [] => inferInstanceAs (Decidable True)
  | m, p :: ps =>
    have := decidableParses (step m p).1 ps
    inferInstanceAs (Decidable (_ ∧ _))

/-! ## The loop without its counters -/

variable {tables : List Table} {s s' t f : CString} {c : UInt8}

theorem parseRef_suffix (s : CString) : (parseRef s).2 <:+ s := by
  have hspaces := skipSpaces_suffix s
  unfold parseRef
  dsimp only
  split
  · exact hspaces
  · next db s₁ hdb =>
    have hs₁ := (readIdent_suffix hdb).1.trans hspaces
    have hgap := (skipSpaces_suffix s₁).trans hs₁
    split
    · next s₂ hdot =>
      rw [hdot] at hgap
      have hs₂ := (skipSpaces_suffix s₂).trans ((List.suffix_cons _ _).trans hgap)
      split
      · exact hs₂
      · next part s₃ hpart =>
        have hs₃ := (readIdent_suffix hpart).1.trans hs₂
        have hgap' := (skipSpaces_suffix s₃).trans hs₃
        split
        · next s₄ hdot' =>
          rw [hdot'] at hgap'
          have hs₄ := (skipSpaces_suffix s₄).trans ((List.suffix_cons _ _).trans hgap')
          split
          · exact hs₄
          · next ks s₅ hks => exact (readIdent_suffix hks).1.trans hs₄
        · exact hgap'
    · exact hgap

theorem skipAlias_suffix (s : CString) : skipAlias s <:+ s := by
  have hspaces := skipSpaces_suffix s
  have hword : (skipSpaces s).dropWhile isIdentChar <:+ s := (List.dropWhile_suffix _).trans hspaces
  unfold skipAlias
  dsimp only
  split
  · exact List.suffix_rfl
  · split
    · split
      · exact List.suffix_rfl
      · exact (List.dropWhile_suffix _).trans ((skipSpaces_suffix _).trans hword)
    · split
      · exact hword
      · exact List.suffix_rfl

theorem moreRefs_suffix (fuel : ℕ) (tables : List Table) (s : CString) :
    (moreRefs fuel tables s).2 <:+ s := by
  induction fuel generalizing tables s with
  | zero => exact List.suffix_rfl
  | succ fuel ih =>
    unfold moreRefs
    split
    · next t heq =>
      split
      · next db part ks rest href =>
        have hrest := parseRef_suffix t
        rw [href] at hrest
        exact (ih _ _).trans (hrest.trans (skipSpaces_cons_lt heq).1)
      · exact List.suffix_rfl
    · exact List.suffix_rfl

/-- `moreRefs` on a text. -/
def more (tables : List Table) (s : CString) : List Table × CString := moreRefs s.length tables s

theorem moreRefs_fuel {fuel : ℕ} (h : s.length ≤ fuel) : moreRefs fuel tables s = more tables s := by
  unfold more
  induction hn : s.length using Nat.strong_induction_on generalizing s fuel tables with
  | _ n ih =>
    subst hn
    cases s with
    | nil => cases fuel <;> rfl
    | cons c t =>
      obtain ⟨fuel, rfl⟩ := Nat.exists_eq_succ_of_ne_zero
        (Nat.ne_of_gt (Nat.lt_of_lt_of_le (Nat.succ_pos _) h))
      rw [List.length_cons] at h ⊢
      have hround : ∀ fuel', t.length ≤ fuel' → moreRefs (fuel' + 1) tables (c :: t) =
          moreRefs (t.length + 1) tables (c :: t) := by
        intro fuel' hfuel'
        unfold moreRefs
        split
        · next u heq =>
          split
          · next db part ks rest href =>
            have hrest := (parseRef_suffix u).length_le
            have hu := (skipSpaces_cons_lt heq).2
            rw [href] at hrest
            rw [List.length_cons] at hu
            dsimp only at hrest
            have hshort : rest.length < (c :: t).length := by
              rw [List.length_cons]
              omega
            exact (ih _ hshort (by omega) rfl).trans (ih _ hshort (by omega) rfl).symm
          · rfl
        · rfl
      exact hround fuel (by omega)

theorem more_comma (h : skipSpaces s = 44 :: t) : more tables s = match parseRef t with
    | (some (db, part, ks), rest) => more (addRef tables db part ks) rest
    | (none, _) => (tables, s) := by
  have hround : moreRefs (s.length + 1) tables s = more tables s := moreRefs_fuel (Nat.le_succ _)
  have hlt := (skipSpaces_cons_lt h).2
  have hrest := (parseRef_suffix t).length_le
  rw [← hround, moreRefs, h]
  show (match parseRef t with
    | (some (db, part, ks), rest) => moreRefs s.length (addRef tables db part ks) rest
    | (none, _) => (tables, s)) = _
  cases href : parseRef t with
  | mk names rest =>
    rw [href] at hrest
    cases names with
    | none => rfl
    | some names => exact moreRefs_fuel (hrest.trans hlt.le)

theorem more_of_ne (h : (skipSpaces s).head? ≠ some 44) : more tables s = (tables, s) := by
  have hround : moreRefs (s.length + 1) tables s = more tables s := moreRefs_fuel (Nat.le_succ _)
  rw [← hround, moreRefs]
  split
  · next t heq => exact absurd (congrArg List.head? heq) h
  · rfl

/-- `collect_refs` on the rest of a text. -/
def collect (tables : List Table) (s : CString) : List Table := collectRefsFrom s.length tables s

theorem collectRefsFrom_fuel {fuel : ℕ} (h : s.length ≤ fuel) :
    collectRefsFrom fuel tables s = collect tables s := by
  unfold collect
  induction hn : s.length using Nat.strong_induction_on generalizing s fuel tables with
  | _ n ih =>
    subst hn
    cases s with
    | nil => cases fuel <;> rfl
    | cons c t =>
      obtain ⟨fuel, rfl⟩ := Nat.exists_eq_succ_of_ne_zero
        (Nat.ne_of_gt (Nat.lt_of_lt_of_le (Nat.succ_pos _) h))
      rw [List.length_cons] at h ⊢
      -- a turn takes a byte at least, so any fuel above the length does the same
      have hround : ∀ fuel', t.length ≤ fuel' → collectRefsFrom (fuel' + 1) tables (c :: t) =
          collectRefsFrom (t.length + 1) tables (c :: t) := by
        intro fuel' hfuel'
        have hsame : ∀ (tables : List Table) (r : CString), r.length ≤ t.length →
            collectRefsFrom fuel' tables r = collectRefsFrom t.length tables r := by
          intro tables r hr
          have hshort : r.length < (c :: t).length := Nat.lt_succ_of_le hr
          exact (ih _ hshort (hr.trans hfuel') rfl).trans (ih _ hshort hr rfl).symm
        unfold collectRefsFrom
        split
        · rfl
        · next d u heq =>
          have hu : u.length ≤ t.length := Nat.le_of_lt_succ (skipSpaces_cons_lt heq).2
          split
          · exact hsame _ _ ((skipQuotedRaw_suffix d u).length_le.trans hu)
          · split
            · exact hsame _ _ hu
            · next hident =>
              have hdrop : ((d :: u).dropWhile isIdentChar).length ≤ t.length := by
                have hd : isIdentChar d = true := by simpa using hident
                rw [List.dropWhile_cons_of_pos hd]
                exact (List.dropWhile_suffix _).length_le.trans hu
              dsimp only
              have hparse := (parseRef_suffix ((d :: u).dropWhile isIdentChar)).length_le
              split
              · split
                · next rest href =>
                  rw [href] at hparse
                  exact hsame _ _ (hparse.trans hdrop)
                · next db part ks rest href =>
                  rw [href] at hparse
                  have hmore := ((moreRefs_suffix rest.length (addRef tables db part ks)
                    (skipAlias rest)).trans (skipAlias_suffix rest)).length_le
                  exact hsame _ _ (hmore.trans (hparse.trans hdrop))
              · exact hsame _ _ hdrop
      exact hround fuel (by omega)

/-- More references, and the rest of the text. -/
def fromAlias (tables : List Table) (s : CString) : List Table :=
  collect (more tables s).1 (more tables s).2

/-- What the function does from each of the places. -/
def Mode.rest (tables : List Table) (s : CString) : Mode → List Table
  | .scan => collect tables s
  | .afterWord =>
    match parseRef s with
    | (some (db, part, ks), rest) => fromAlias (addRef tables db part ks) (skipAlias rest)
    | (none, rest) => collect tables rest
  | .afterRef => fromAlias tables (skipAlias s)
  | .afterAs =>
    if (skipSpaces s).takeWhile isIdentChar = [] then collect tables s
    else fromAlias tables ((skipSpaces s).dropWhile isIdentChar)
  | .afterAlias => fromAlias tables s
  | .afterComma =>
    match parseRef s with
    | (some (db, part, ks), rest) => fromAlias (addRef tables db part ks) rest
    | (none, _) => collect tables s

/-- A round of the loop. -/
theorem collect_cons (h : skipSpaces s = c :: t) : collect tables s =
    if opensQuote c then collect tables (skipQuotedRaw c t)
    else if !isIdentChar c then collect tables t
    else if lower ((c :: t).takeWhile isIdentChar) ∈ refWords then
      Mode.afterWord.rest tables ((c :: t).dropWhile isIdentChar)
    else collect tables ((c :: t).dropWhile isIdentChar) := by
  have hlen : t.length + 1 ≤ s.length := (skipSpaces_cons_lt h).2
  have hround : collectRefsFrom (s.length + 1) tables s = collect tables s :=
    collectRefsFrom_fuel (Nat.le_succ _)
  have hfuel : ∀ (tables : List Table) (r : CString), r.length ≤ s.length →
      collectRefsFrom s.length tables r = collect tables r := fun _ _ hr =>
    collectRefsFrom_fuel hr
  have hdrop : ((c :: t).dropWhile isIdentChar).length ≤ s.length :=
    ((List.dropWhile_suffix _).length_le).trans hlen
  rw [← hround, collectRefsFrom, h]
  dsimp only
  split
  · exact hfuel _ _ (((skipQuotedRaw_suffix c t).length_le.trans (Nat.le_succ _)).trans hlen)
  · split
    · exact hfuel _ _ ((Nat.le_succ _).trans hlen)
    · split
      · have hparse := (parseRef_suffix ((c :: t).dropWhile isIdentChar)).length_le
        rw [Mode.rest]
        cases href : parseRef ((c :: t).dropWhile isIdentChar) with
        | mk names rest =>
          rw [href] at hparse
          cases names with
          | none => exact hfuel _ _ (hparse.trans hdrop)
          | some names =>
            have halias := (skipAlias_suffix rest).length_le
            have hleft := (moreRefs_suffix rest.length (addRef tables names.1 names.2.1 names.2.2)
              (skipAlias rest)).length_le
            show collectRefsFrom s.length (moreRefs rest.length _ _).1 (moreRefs rest.length _ _).2
              = fromAlias _ _
            rw [moreRefs_fuel halias] at hleft ⊢
            exact hfuel _ _ (hleft.trans (halias.trans (hparse.trans hdrop)))
      · exact hfuel _ _ hdrop

theorem collect_nil (h : skipSpaces s = []) : collect tables s = tables := by
  have hround : collectRefsFrom (s.length + 1) tables s = collect tables s :=
    collectRefsFrom_fuel (Nat.le_succ _)
  rw [← hround, collectRefsFrom, h]

theorem collect_congr (h : skipSpaces s = skipSpaces s') : collect tables s = collect tables s' := by
  cases hs : skipSpaces s' with
  | nil => rw [collect_nil (h.trans hs), collect_nil hs]
  | cons c t => rw [collect_cons (h.trans hs), collect_cons hs]

/-- Behind a comma. -/
theorem fromAlias_comma (h : skipSpaces s = 44 :: t) :
    fromAlias tables s = Mode.afterComma.rest tables t := by
  have hskip : collect tables s = collect tables t := by
    rw [collect_cons h, if_neg (by decide), if_pos (by decide)]
  rw [fromAlias, more_comma h, Mode.rest]
  cases parseRef t with
  | mk names rest =>
    cases names with
    | none => exact hskip
    | some names => rfl

/-- No comma, no more references. -/
theorem fromAlias_of_ne (h : (skipSpaces s).head? ≠ some 44) :
    fromAlias tables s = collect tables s := by
  rw [fromAlias, more_of_ne h]

theorem fromAlias_congr (h : skipSpaces s = skipSpaces s') :
    fromAlias tables s = fromAlias tables s' := by
  by_cases hcomma : (skipSpaces s').head? = some 44
  · obtain ⟨t, ht⟩ := List.head?_eq_some_iff.mp hcomma
    rw [fromAlias_comma (h.trans ht), fromAlias_comma ht]
  · rw [fromAlias_of_ne (h ▸ hcomma), fromAlias_of_ne hcomma, collect_congr h]

theorem skipAlias_congr (h : skipSpaces s = skipSpaces s') :
    skipSpaces (skipAlias s) = skipSpaces (skipAlias s') := by
  unfold skipAlias
  rw [h]
  dsimp only
  split
  · exact h
  · split
    · split
      · exact h
      · rfl
    · split
      · rfl
      · exact h

theorem parseRef_congr (h : skipSpaces s = skipSpaces s') : parseRef s = parseRef s' := by
  unfold parseRef
  rw [h]

/-- White space in front does not matter. -/
theorem Mode.rest_congr (h : skipSpaces s = skipSpaces s') (m : Mode) :
    m.rest tables s = m.rest tables s' := by
  cases m with
  | scan => exact collect_congr h
  | afterWord => rw [Mode.rest, Mode.rest, parseRef_congr h]
  | afterRef => exact fromAlias_congr (skipAlias_congr h)
  | afterAs => rw [Mode.rest, Mode.rest, h, collect_congr h]
  | afterAlias => exact fromAlias_congr h
  | afterComma => rw [Mode.rest, Mode.rest, parseRef_congr h, collect_congr h]

/-! ## What it does at a lexeme -/

variable {x : Lexeme} {xs : List Lexeme} {p : Piece} {ps : List Piece} {m : Mode} {w : CString}

theorem collect_quoted {quote : UInt8} {body : CString} (h : (Lexeme.quoted quote body).Before f)
    (hskip : (Lexeme.quoted quote body).Skipped f) :
    collect tables ((Lexeme.quoted quote body).spelled ++ f) = collect tables f := by
  rw [collect_cons (skipSpaces_quoted h), if_pos h.1, hskip]

theorem collect_mark (h : (Lexeme.mark c).Before f) :
    collect tables ((Lexeme.mark c).spelled ++ f) = collect tables f := by
  rw [collect_cons (skipSpaces_spelled h nofun), if_neg (by rw [h.2.1]; decide),
    if_pos (by rw [h.1]; rfl)]
  rfl

theorem collect_word (h : (Lexeme.word w).Before f) :
    collect tables ((Lexeme.word w).spelled ++ f) = (scanWord w).rest tables f := by
  obtain ⟨c, t, hc, hspaces, htake, hdrop⟩ := skipSpaces_word h
  rw [collect_cons hspaces, if_neg (by rw [opensQuote_of_ident hc]; decide),
    if_neg (by rw [hc]; decide), htake, hdrop, scanWord]
  split
  · rfl
  · rfl

/-- Lexemes of a name are passed over. -/
theorem collect_name (hreads : Reads xs f) (hskips : Skips xs f)
    (hname : ∀ x ∈ xs, x.inName = true) : collect tables (spelled xs ++ f) = collect tables f := by
  induction xs with
  | nil => rfl
  | cons x xs ih =>
    have hrest := ih hreads.2 hskips.2 fun y hy => hname y (List.mem_cons_of_mem x hy)
    rw [spelled_cons, List.append_assoc, ← hrest]
    have hx := hname x List.mem_cons_self
    cases x with
    | gap g => exact collect_congr (skipSpaces_gap hreads.1)
    | quoted quote body => exact collect_quoted hreads.1 hskips.1
    | mark c => exact collect_mark hreads.1
    | word w =>
      have hw : lower w ∉ refWords := of_decide_eq_true hx
      rw [collect_word hreads.1, scanWord, if_neg hw]
      rfl

/-- Behind a lexeme that is no word there is no alias. -/
theorem skipAlias_of_not_word (h : (skipSpaces s).head?.any isIdentChar = false) :
    skipAlias s = s := by
  have hword : (skipSpaces s).takeWhile isIdentChar = [] := by
    cases hs : skipSpaces s with
    | nil => rfl
    | cons c t =>
      rw [hs] at h
      exact List.takeWhile_cons_of_neg (by simpa using h)
  rw [skipAlias]
  dsimp only
  rw [if_pos (Or.inl hword)]

/-- Where no word, no comma and no reference can be, the loop looks for one of its words. -/
theorem Mode.rest_of_not_word (hword : (skipSpaces s).head?.any isIdentChar = false)
    (hcomma : (skipSpaces s).head? ≠ some 44) (hm : m.expects = false) :
    m.rest tables s = collect tables s := by
  cases m with
  | scan => rfl
  | afterWord | afterComma => cases hm
  | afterRef => rw [Mode.rest, skipAlias_of_not_word hword, fromAlias_of_ne hcomma]
  | afterAs =>
    have htake : (skipSpaces s).takeWhile isIdentChar = [] := by
      cases hs : skipSpaces s with
      | nil => rfl
      | cons c t =>
        rw [hs] at hword
        exact List.takeWhile_cons_of_neg (by simpa using hword)
    rw [Mode.rest, if_pos htake]
  | afterAlias => exact fromAlias_of_ne hcomma

/-- There is no reference where no identifier is. -/
theorem parseRef_none (h : readIdent 256 (skipSpaces s) = none) :
    parseRef s = (none, skipSpaces s) := by
  rw [parseRef]
  dsimp only
  rw [h]

/-- There is none where no dot follows it. -/
theorem parseRef_dotless {name : CString} (h : readIdent 256 (skipSpaces s) = some (name, f))
    (hdot : (skipSpaces f).head? ≠ some 46) : parseRef s = (none, skipSpaces f) := by
  rw [parseRef]
  dsimp only
  rw [h]
  dsimp only
  split
  · next t heq => exact absurd (congrArg List.head? heq) hdot
  · rfl

theorem parseRef_mark (h : (Lexeme.mark c).Before f) :
    parseRef ((Lexeme.mark c).spelled ++ f) = (none, (Lexeme.mark c).spelled ++ f) := by
  have hspaces := skipSpaces_spelled h nofun
  rw [parseRef_none, hspaces]
  rw [hspaces]
  exact readIdent_mark h.1 h.2.1 256

theorem parseRef_word (h : (Lexeme.word w).Before f) (hdot : (skipSpaces f).head? ≠ some 46) :
    parseRef ((Lexeme.word w).spelled ++ f) = (none, skipSpaces f) := by
  obtain ⟨c, t, hc, hspaces, -, hdrop⟩ := skipSpaces_word h
  have hread := readIdent_bare (t := t) hc 256
  rw [hdrop, ← hspaces] at hread
  exact parseRef_dotless hread hdot

/-- What the loop does behind a literal that is no reference. -/
theorem parseRef_quoted (tables : List Table) {quote : UInt8} {body : CString}
    (h : (Lexeme.quoted quote body).Before f) (hskip : (Lexeme.quoted quote body).Skipped f)
    (hdot : (skipSpaces f).head? ≠ some 46) (hback : quote = 96 → 96 ∉ body) :
    ∃ r, parseRef ((Lexeme.quoted quote body).spelled ++ f) = (none, r) ∧
      collect tables r = collect tables f := by
  have hspaces := skipSpaces_quoted h
  have hnone (hread : readIdent 256 (quote :: (body ++ closing quote :: f)) = none) :
      ∃ r, parseRef ((Lexeme.quoted quote body).spelled ++ f) = (none, r) ∧
        collect tables r = collect tables f := by
    refine ⟨_, parseRef_none (by rw [hspaces, hread]), ?_⟩
    rw [skipSpaces_spelled h nofun]
    exact collect_quoted h hskip
  by_cases hquote : quote = 39
  · subst hquote
    exact hnone rfl
  · rcases readIdent_quoted_cases h hquote hback 256 with ⟨hread, -⟩ | ⟨name, hread⟩
    · exact hnone hread
    · refine ⟨_, parseRef_dotless (by rw [hspaces, hread]) hdot, ?_⟩
      exact collect_congr (skipSpaces_idem f)

/-- Where there is no reference behind one of the words, the loop goes on behind what was read. -/
theorem rest_afterWord_none (h : parseRef s = (none, t)) :
    Mode.afterWord.rest tables s = collect tables t := by
  rw [Mode.rest, h]

/-- Where there is none behind a comma, it goes back. -/
theorem rest_afterComma_none (h : parseRef s = (none, t)) :
    Mode.afterComma.rest tables s = collect tables s := by
  rw [Mode.rest, h]

/-! ## A piece is a step -/

/-- The tables with some more references. -/
def addRefs (tables : List Table) (ns : List Names) : List Table :=
  ns.foldl (fun ts n => addRef ts n.1 n.2.1 n.2.2) tables

/-- What the loop does from the state `m` is a step at the piece and what it does from there. -/
def Piece.Steps (tables : List Table) (m : Mode) (p : Piece) (f : CString) : Prop :=
  m.rest tables (spelled p.lexemes ++ f) = (step m p).1.rest (addRefs tables (step m p).2) f

theorem spelled_lexeme (x : Lexeme) (f : CString) :
    spelled (Piece.lexeme x).lexemes ++ f = x.spelled ++ f := by
  rw [Piece.lexemes, spelled_cons, spelled_nil, List.append_nil]

theorem head?_mark (h : (Lexeme.mark c).Before f) :
    (skipSpaces ((Lexeme.mark c).spelled ++ f)).head? = some c := by
  rw [skipSpaces_spelled h nofun]
  rfl

theorem steps_mark (h : (Lexeme.mark c).Before f) (m : Mode) :
    (Piece.lexeme (.mark c)).Steps tables m f := by
  have hhead := head?_mark h
  have hword : (skipSpaces ((Lexeme.mark c).spelled ++ f)).head?.any isIdentChar = false := by
    rw [hhead]
    exact h.1
  have hscan : collect tables ((Lexeme.mark c).spelled ++ f) = collect tables f := collect_mark h
  unfold Piece.Steps
  rw [spelled_lexeme, step]
  -- where a name is expected a mark ends the expectation, but for a comma behind a reference
  by_cases hm : m.expects = true
  · have hcollect : m.rest tables ((Lexeme.mark c).spelled ++ f) = collect tables f := by
      cases m with
      | afterWord => rw [rest_afterWord_none (parseRef_mark h), hscan]
      | afterComma => rw [rest_afterComma_none (parseRef_mark h), hscan]
      | scan | afterRef | afterAs | afterAlias => cases hm
    have hne : ¬(c = 44 ∧ (m = .afterRef ∨ m = .afterAlias)) := by
      rintro ⟨-, rfl | rfl⟩
      · cases hm
      · cases hm
    rw [if_neg hne, hcollect]
    rfl
  · have hm : m.expects = false := Bool.not_eq_true _ ▸ hm
    by_cases hc : c = 44
    · subst hc
      have hcomma : skipSpaces ((Lexeme.mark 44).spelled ++ f) = 44 :: f := skipSpaces_spelled h nofun
      cases m with
      | scan => exact hscan
      | afterWord | afterComma => cases hm
      | afterRef =>
        show fromAlias tables (skipAlias _) = _
        rw [skipAlias_of_not_word hword, fromAlias_comma hcomma]
        rfl
      | afterAs =>
        rw [Mode.rest, hcomma]
        exact hscan
      | afterAlias =>
        show fromAlias tables _ = _
        rw [fromAlias_comma hcomma]
        rfl
    · have hcomma : (skipSpaces ((Lexeme.mark c).spelled ++ f)).head? ≠ some 44 := by
        rw [hhead]
        exact fun heq => hc (Option.some.inj heq)
      rw [if_neg fun hboth => hc hboth.1, m.rest_of_not_word hword hcomma hm, hscan]
      rfl

theorem steps_gap {g : CString} (h : (Lexeme.gap g).Before f) (m : Mode) :
    (Piece.lexeme (.gap g)).Steps tables m f := by
  have hspaces := skipSpaces_gap h
  unfold Piece.Steps
  rw [spelled_lexeme, m.rest_congr hspaces]
  cases m with
  | scan | afterWord | afterRef | afterAs | afterAlias | afterComma => rfl

theorem steps_quoted {quote : UInt8} {body : CString} (h : (Lexeme.quoted quote body).Before f)
    (hparses : (Piece.lexeme (.quoted quote body)).Parses m f) :
    (Piece.lexeme (.quoted quote body)).Steps tables m f := by
  have hident : isIdentChar quote = false := isIdentChar_of_opensQuote h.1
  have hne : quote ≠ 44 := ne_of_test h.1 (by decide)
  have hhead : (skipSpaces ((Lexeme.quoted quote body).spelled ++ f)).head? = some quote := by
    rw [skipSpaces_quoted h]
    rfl
  obtain ⟨hskip, hparses⟩ := hparses
  have hscan : collect tables ((Lexeme.quoted quote body).spelled ++ f) = collect tables f :=
    collect_quoted h hskip
  have hstep : step m (.lexeme (.quoted quote body)) = (.scan, []) := by
    cases m with
    | scan | afterWord | afterRef | afterAs | afterAlias | afterComma => rfl
  unfold Piece.Steps
  rw [spelled_lexeme, hstep]
  by_cases hm : m.expects = true
  · obtain ⟨hdot, hback⟩ := hparses hm
    obtain ⟨r, hparse, hr⟩ := parseRef_quoted tables h hskip hdot hback
    cases m with
    | afterWord => exact (rest_afterWord_none hparse).trans hr
    | afterComma => exact (rest_afterComma_none hparse).trans hscan
    | scan | afterRef | afterAs | afterAlias => cases hm
  · have hword : (skipSpaces ((Lexeme.quoted quote body).spelled ++ f)).head?.any isIdentChar
        = false := by
      rw [hhead]
      exact hident
    have hcomma : (skipSpaces ((Lexeme.quoted quote body).spelled ++ f)).head? ≠ some 44 := by
      rw [hhead]
      exact fun heq => hne (Option.some.inj heq)
    rw [m.rest_of_not_word hword hcomma (Bool.not_eq_true _ ▸ hm)]
    exact hscan

/-- A word that may be an alias. -/
theorem rest_afterRef_word (h : (Lexeme.word w).Before f) :
    Mode.afterRef.rest tables ((Lexeme.word w).spelled ++ f) = (aliasWord w).rest tables f := by
  obtain ⟨c, t, hc, hspaces, htake, hdrop⟩ := skipSpaces_word h
  have hcomma : (skipSpaces ((Lexeme.word w).spelled ++ f)).head? ≠ some 44 := by
    rw [hspaces]
    rintro heq
    obtain rfl := Option.some.inj heq
    exact absurd hc (by decide)
  -- where there is no alias, the loop reads the word again
  have hagain : fromAlias tables ((Lexeme.word w).spelled ++ f) = (scanWord w).rest tables f :=
    (fromAlias_of_ne hcomma).trans (collect_word h)
  show fromAlias tables (skipAlias _) = _
  rw [skipAlias, hspaces]
  dsimp only
  rw [htake, hdrop, aliasWord]
  by_cases hlong : 8 ≤ w.length
  · rw [if_pos (Or.inr hlong), if_pos hlong, hagain]
  · rw [if_neg (not_or.mpr ⟨h.1, hlong⟩), if_neg hlong]
    by_cases has : lower w = cstr "as"
    · rw [if_pos has, if_pos has]
      show _ = if (skipSpaces f).takeWhile isIdentChar = [] then collect tables f
        else fromAlias tables ((skipSpaces f).dropWhile isIdentChar)
      have hscan : scanWord w = .scan := by
        rw [scanWord, has]
        rfl
      by_cases hnone : (skipSpaces f).takeWhile isIdentChar = []
      · rw [if_pos hnone, if_pos hnone, hagain, hscan]
        rfl
      · rw [if_neg hnone, if_neg hnone]
    · rw [if_neg has, if_neg has]
      by_cases hlen : w.length ≠ 4 ∧ w.length ≠ 5
      · rw [if_pos hlen, if_pos hlen]
        rfl
      · rw [if_neg hlen, if_neg hlen, hagain]

theorem steps_word (h : (Lexeme.word w).Before f)
    (hparses : (Piece.lexeme (.word w)).Parses m f) :
    (Piece.lexeme (.word w)).Steps tables m f := by
  obtain ⟨c, t, hc, hspaces, htake, hdrop⟩ := skipSpaces_word h
  have hscan : collect tables ((Lexeme.word w).spelled ++ f) = (scanWord w).rest tables f :=
    collect_word h
  unfold Piece.Steps
  rw [spelled_lexeme]
  cases m with
  | scan => exact hscan
  | afterWord =>
    exact (rest_afterWord_none (parseRef_word h (hparses rfl))).trans
      (collect_congr (skipSpaces_idem f))
  | afterRef => exact rest_afterRef_word h
  | afterAs =>
    rw [Mode.rest, hspaces, htake, if_neg h.1, hdrop]
    rfl
  | afterAlias =>
    have hcomma : (skipSpaces ((Lexeme.word w).spelled ++ f)).head? ≠ some 44 := by
      rw [hspaces]
      rintro heq
      obtain rfl := Option.some.inj heq
      exact absurd hc (by decide)
    exact (fromAlias_of_ne hcomma).trans hscan
  | afterComma => exact (rest_afterComma_none (parseRef_word h (hparses rfl))).trans hscan

/-- A name of which the loop takes a reference. -/
theorem steps_expected {source : Bool} {names : Names} (hm : m.expects = true)
    (hparses : (Piece.name source xs names).Parses m f) :
    (Piece.name source xs names).Steps tables m f := by
  obtain ⟨hread, hrest, -⟩ := hparses.1 hm
  unfold Piece.Steps
  cases href : parseRef (spelled (Piece.name source xs names).lexemes ++ f) with
  | mk names' r =>
    have hsame : parseRef (spelled xs ++ f) = (names', r) := href
    rw [hsame] at hread hrest
    obtain rfl : names' = some names := hread
    cases m with
    | scan | afterRef | afterAs | afterAlias => cases hm
    | afterWord =>
      rw [Mode.rest, href]
      exact fromAlias_congr (skipAlias_congr hrest)
    | afterComma =>
      rw [Mode.rest, href]
      exact fromAlias_congr hrest

/-- A name that it passes over. -/
theorem steps_passed {source : Bool} {names : Names} (hreads : Reads xs f)
    (hm : m.expects = false) (hparses : (Piece.name source xs names).Parses m f) :
    (Piece.name source xs names).Steps tables m f := by
  obtain ⟨hskips, href, has, hfirst, hname⟩ := hparses.2 hm
  have hpass : collect tables (spelled xs ++ f) = collect tables f :=
    collect_name hreads hskips hname
  have hcomma : (skipSpaces (spelled xs ++ f)).head? ≠ some 44 := by
    cases xs with
    | nil => cases hfirst
    | cons x xs =>
      have hident : ∀ c : UInt8, isIdentChar c = true ∨ opensQuote c = true → c ≠ 44 :=
        fun c hc => hc.elim (fun h => ne_of_test h (by decide)) fun h => ne_of_test h (by decide)
      rw [spelled_cons, List.append_assoc]
      intro heq
      cases x with
      | gap g | mark c => cases hfirst
      | quoted quote body =>
        rw [skipSpaces_quoted hreads.1] at heq
        exact hident 44 (Or.inr (Option.some.inj heq ▸ hreads.1.1)) rfl
      | word w =>
        obtain ⟨c, t, hc, hspaces, -, -⟩ := skipSpaces_word hreads.1
        rw [hspaces] at heq
        exact hident 44 (Or.inl (Option.some.inj heq ▸ hc)) rfl
  unfold Piece.Steps
  cases m with
  | scan => exact hpass
  | afterWord | afterComma => cases hm
  | afterRef => exact absurd rfl href
  | afterAs => exact absurd rfl has
  | afterAlias => exact (fromAlias_of_ne hcomma).trans hpass

/-- **A piece is a step.** -/
theorem steps_piece (hreads : Reads p.lexemes f) (hparses : p.Parses m f) :
    p.Steps tables m f := by
  cases p with
  | lexeme x =>
    cases x with
    | gap g => exact steps_gap hreads.1 m
    | quoted quote body => exact steps_quoted hreads.1 hparses
    | word w => exact steps_word hreads.1 hparses
    | mark c => exact steps_mark hreads.1 m
  | name source xs names =>
    by_cases hm : m.expects = true
    · exact steps_expected hm hparses
    · exact steps_passed hreads (Bool.not_eq_true _ ▸ hm) hparses

theorem Mode.rest_nil (tables : List Table) (m : Mode) : m.rest tables [] = tables := by
  cases m with
  | scan | afterWord | afterRef | afterAs | afterAlias | afterComma => rfl

/-- **The loop is the machine**, from each of its states. -/
theorem rest_text (hreads : Reads (lexemes ps) []) (hparses : Parses m ps) :
    m.rest tables (text ps) = addRefs tables (reached m ps) := by
  induction ps generalizing m tables with
  | nil => exact Mode.rest_nil tables m
  | cons p ps ih =>
    have hsplit : lexemes (p :: ps) = p.lexemes ++ lexemes ps := List.flatMap_cons
    rw [hsplit, reads_append, List.append_nil] at hreads
    have hstep : p.Steps tables m (text ps) := steps_piece hreads.1 hparses.1
    unfold Piece.Steps at hstep
    rw [text, hsplit, spelled_append, reached, addRefs, List.foldl_append]
    exact hstep.trans (ih hreads.2 hparses.2)

end EpsilonDB.Eql
