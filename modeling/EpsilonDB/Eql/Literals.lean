import EpsilonDB.Eql.SqliteTokens
import Mathlib.Data.List.TakeWhile

/-!
# Where literals end (`eql/epsilon_eql.c`)

`skip_quoted_raw` and the tokenizer of SQLite pass over the same literals. The scanner takes a
backslash in a string for an escape, and looks for the end of a bracketed identifier at the next
opening bracket.

- `tokens`: the tokens of a text, each with what follows its first byte.
- `sqliteGetToken_shape`: what a token can be.
- `EndsAlike`: the scanner leaves a literal where the token ends.
- `LiteralPlain`: there is nothing in the literal that the two read differently.
- `endsAlike_iff`: the one is the other.
-/

namespace EpsilonDB.Eql

/-- The tokens of a text: the first byte of each, and what follows it. -/
def tokensFrom : ℕ → CString → List (UInt8 × CString)
  | 0, _ => []
  | _, [] => []
  | fuel + 1, c :: t => (c, t) :: tokensFrom fuel (sqliteGetToken c t).2

/-- Every token has a byte at least. -/
def tokens (s : CString) : List (UInt8 × CString) := tokensFrom s.length s

/-- `skip_quoted_raw` leaves a literal or a quoted identifier where SQLite ends it. -/
def EndsAlike (c : UInt8) (t : CString) : Prop :=
  (opensQuote c = true → skipQuotedRaw c t = (sqliteGetToken c t).2) ∧
    ((sqliteGetToken c t).1 = .blob → skipQuotedRaw 39 t.tail = (sqliteGetToken c t).2)

/-- No quote stands behind a backslash, that is not behind a backslash itself; but the quotes at
the end of the text may. -/
def EscapeFree : CString → Prop
  | [] => True
  | [_] => True
  | c :: d :: t =>
    if c = 39 then d = 39 → EscapeFree t
    else if c = 92 then if d = 39 then ∀ e ∈ t, e = 39 else EscapeFree t
    else EscapeFree (d :: t)

/-- No bracket opens, but doubled or at the end of the text. -/
def NoBracket : CString → Prop
  | [] => True
  | [_] => True
  | c :: d :: t => if c = 91 then d = 91 ∧ NoBracket t else NoBracket (d :: t)

/-- The literal has no escaped quote; a bracketed identifier is at the end of the text and opens
no bracket; no quote follows a blob. -/
structure LiteralPlain (c : UInt8) (t : CString) : Prop where
  string : c = 39 → EscapeFree t
  bracket : c = 91 → (sqliteGetToken c t).2 = [] ∧ NoBracket t
  blob : (sqliteGetToken c t).1 = .blob → (sqliteGetToken c t).2.head? ≠ some 39

instance (c : UInt8) (t : CString) : Decidable (EndsAlike c t) :=
  inferInstanceAs (Decidable ((_ → _) ∧ (_ → _)))

instance decidableEscapeFree : ∀ s : CString, Decidable (EscapeFree s)
  | [] => inferInstanceAs (Decidable True)
  | [_] => inferInstanceAs (Decidable True)
  | c :: d :: t =>
    have := decidableEscapeFree t
    have := decidableEscapeFree (d :: t)
    inferInstanceAs (Decidable
      (if c = 39 then d = 39 → EscapeFree t
        else if c = 92 then if d = 39 then ∀ e ∈ t, e = 39 else EscapeFree t
        else EscapeFree (d :: t)))

instance decidableNoBracket : ∀ s : CString, Decidable (NoBracket s)
  | [] => inferInstanceAs (Decidable True)
  | [_] => inferInstanceAs (Decidable True)
  | c :: d :: t =>
    have := decidableNoBracket t
    have := decidableNoBracket (d :: t)
    inferInstanceAs (Decidable (if c = 91 then d = 91 ∧ NoBracket t else NoBracket (d :: t)))

instance (c : UInt8) (t : CString) : Decidable (LiteralPlain c t) :=
  decidable_of_iff ((c = 39 → EscapeFree t) ∧
      (c = 91 → (sqliteGetToken c t).2 = [] ∧ NoBracket t) ∧
      ((sqliteGetToken c t).1 = .blob → (sqliteGetToken c t).2.head? ≠ some 39))
    ⟨fun h => ⟨h.1, h.2.1, h.2.2⟩, fun h => ⟨h.string, h.bracket, h.blob⟩⟩

variable {c quote : UInt8} {s t u r : CString}

/-! ## Tokens go forward -/

theorem skipDigits_suffix (digit : UInt8 → Bool) (s : CString) : skipDigits digit s <:+ s :=
  List.dropWhile_suffix _

theorem skipFraction_suffix (s : CString) : skipFraction s <:+ s := by
  unfold skipFraction
  split
  · exact (skipDigits_suffix _ _).trans (List.suffix_cons _ _)
  · exact List.suffix_rfl

theorem skipExponent_suffix (s : CString) : skipExponent s <:+ s := by
  unfold skipExponent
  split
  · next e c t =>
    have ht : skipDigits isDigit t <:+ e :: c :: t :=
      (skipDigits_suffix _ _).trans ((List.suffix_cons _ _).trans (List.suffix_cons _ _))
    split
    · split
      · exact ht
      · split
        · exact ht
        · exact List.suffix_rfl
    · exact List.suffix_rfl
  · exact List.suffix_rfl

theorem quotedToken_suffix {name : CString} (h : quotedToken quote s = some (name, r)) :
    r <:+ s := by
  fun_induction quotedToken quote s generalizing name r with
  | case1 => cases h
  | case2 =>
    cases h
    exact List.nil_suffix
  | case3 => cases h
  | case4 t ih =>
    obtain ⟨⟨name', r'⟩, hr, heq⟩ := Option.map_eq_some_iff.mp h
    cases heq
    exact (ih hr).trans ((List.suffix_cons _ _).trans (List.suffix_cons _ _))
  | case5 =>
    cases h
    exact List.suffix_cons _ _
  | case6 c d t hc ih =>
    obtain ⟨⟨name', r'⟩, hr, heq⟩ := Option.map_eq_some_iff.mp h
    cases heq
    exact (ih hr).trans (List.suffix_cons _ _)

theorem variableToken_suffix (n : Bool) (s : CString) : (variableToken n s).2 <:+ s := by
  fun_induction variableToken n s with
  | case1 => exact List.suffix_rfl
  | case2 n c t _ ih => exact ih.trans (List.suffix_cons _ _)
  | case3 n c t _ _ rest heq =>
    have hdrop : t.dropWhile (fun d => !isSpace d && d != 41) <:+ t := List.dropWhile_suffix _
    rw [heq] at hdrop
    exact (List.suffix_cons _ _).trans (hdrop.trans (List.suffix_cons _ _))
  | case4 n c t _ _ rest =>
    exact (List.dropWhile_suffix _).trans (List.suffix_cons _ _)
  | case5 n u _ _ ih => exact ih.trans ((List.suffix_cons _ _).trans (List.suffix_cons _ _))
  | case6 => exact List.suffix_rfl

theorem blobToken_suffix (s : CString) : (blobToken s).2 <:+ s := by
  have hdrop : s.dropWhile isXDigit <:+ s := List.dropWhile_suffix _
  unfold blobToken
  dsimp only
  split
  · next heq =>
    rw [heq] at hdrop
    exact (List.suffix_cons _ _).trans hdrop
  · exact (List.drop_suffix _ _).trans ((List.dropWhile_suffix _).trans hdrop)

theorem operatorToken_suffix (c : UInt8) (t : CString) : (operatorToken c t).2 <:+ t := by
  unfold operatorToken
  split
  all_goals first
    | exact List.suffix_rfl
    | exact List.suffix_cons _ _
    | exact (List.suffix_cons _ _).trans (List.suffix_cons _ _)

/-- A number takes its first byte. -/
theorem numberToken_suffix (h : c = 46 ∨ isDigit c = true) (t : CString) :
    (numberToken (c :: t)).2 <:+ t := by
  have hdecimal : skipExponent (skipFraction (skipDigits isDigit (c :: t))) <:+ t := by
    rcases h with rfl | hc
    · exact (skipExponent_suffix _).trans (skipDigits_suffix _ _)
    · have hdigits : skipDigits isDigit (c :: t) = skipDigits isDigit t :=
        List.dropWhile_cons_of_pos (by rw [hc, Bool.true_or])
      rw [hdigits]
      exact (skipExponent_suffix _).trans ((skipFraction_suffix _).trans (skipDigits_suffix _ _))
  have hrest : ∀ rest, rest <:+ t → rest.dropWhile idChar <:+ t := fun _ h =>
    (List.dropWhile_suffix _).trans h
  unfold numberToken
  dsimp only
  split
  · next heq =>
    obtain ⟨-, rfl⟩ := List.cons.inj heq
    split
    · exact hrest _ ((skipDigits_suffix _ _).trans
        ((List.suffix_cons _ _).trans (List.suffix_cons _ _)))
    · exact hrest _ hdecimal
  · exact hrest _ hdecimal

/-- Both branches leave a rest. -/
theorem snd_ite_suffix {p : Prop} [Decidable p] {a b : TokenKind × CString}
    (ha : p → a.2 <:+ t) (hb : b.2 <:+ t) : (if p then a else b).2 <:+ t := by
  by_cases h : p
  · rw [if_pos h]
    exact ha h
  · rw [if_neg h]
    exact hb

/-- A token takes its first byte, and leaves a rest of the text. -/
theorem sqliteGetToken_suffix (c : UInt8) (t : CString) : (sqliteGetToken c t).2 <:+ t := by
  unfold sqliteGetToken
  refine snd_ite_suffix (fun _ => List.dropWhile_suffix _) ?_
  refine snd_ite_suffix (fun _ => List.dropWhile_suffix _) ?_
  refine snd_ite_suffix (fun _ => (afterComment_suffix _).trans (List.tail_suffix t)) ?_
  refine snd_ite_suffix (fun _ => ?_) ?_
  · cases hr : quotedToken c t with
    | none => exact List.nil_suffix
    | some r => exact quotedToken_suffix hr
  refine snd_ite_suffix (fun _ => ?_) ?_
  · have hdrop : t.dropWhile (fun d => d != 93) <:+ t := List.dropWhile_suffix _
    cases heq : t.dropWhile fun d => d != 93 with
    | nil => exact List.nil_suffix
    | cons d rest => exact (List.suffix_cons d rest).trans (heq ▸ hdrop)
  refine snd_ite_suffix (fun _ => List.suffix_rfl) ?_
  refine snd_ite_suffix (fun h => numberToken_suffix h t) ?_
  refine snd_ite_suffix (fun _ => List.dropWhile_suffix _) ?_
  refine snd_ite_suffix (fun _ => variableToken_suffix _ _) ?_
  refine snd_ite_suffix (fun _ => (blobToken_suffix _).trans (List.tail_suffix t)) ?_
  refine snd_ite_suffix (fun _ => List.drop_suffix _ _) ?_
  exact snd_ite_suffix (fun _ => List.dropWhile_suffix _) (operatorToken_suffix c t)

/-- The byte is no white space, and starts no comment. -/
def Solid (c : UInt8) : Prop := isSpace c = false ∧ c ≠ 45 ∧ c ≠ 47

instance (c : UInt8) : Decidable (Solid c) := inferInstanceAs (Decidable (_ ∧ _ ∧ _))

/-- A byte of a name is solid. -/
theorem solid_of_idChar (hc : idChar c = true) : Solid c :=
  forall_byte (p := fun c => idChar c = true → Solid c) (by decide +kernel) c hc

theorem solid_of_opensQuote (hc : opensQuote c = true) : Solid c := by
  rcases opensQuote_iff.mp hc with rfl | rfl | rfl | rfl
  · decide
  · decide
  · decide
  · decide

/-- What a token can be, by its first byte. -/
inductive TokenShape (c : UInt8) (t : CString) : TokenKind × CString → Prop where
  | space (hc : isSpace c = true) : TokenShape c t (.space, t.dropWhile isSpace)
  | line (u : CString) (hc : c = 45) (ht : t = 45 :: u) :
    TokenShape c t (.comment, t.dropWhile fun d => d != 10)
  | block (u : CString) (hc : c = 47) (ht : t = 42 :: u) : TokenShape c t (.comment, afterComment u)
  | string (v rest : CString) (hc : c = 39) (h : quotedToken c t = some (v, rest)) :
    TokenShape c t (.string, rest)
  | quoted (v rest : CString) (hc : c = 34 ∨ c = 96) (h : quotedToken c t = some (v, rest)) :
    TokenShape c t (.name, rest)
  | bracket (d : UInt8) (rest : CString) (hc : c = 91)
    (h : (t.dropWhile fun d => d != 93) = d :: rest) : TokenShape c t (.name, rest)
  | dot (hc : c = 46) : TokenShape c t (.dot, t)
  | number (rest : CString) (hc : Solid c) : TokenShape c t (.number, rest)
  | parameter (rest : CString) (hc : Solid c) : TokenShape c t (.variable, rest)
  | blob (w rest : CString) (hc : c = 120 ∨ c = 88) (ht : t = 39 :: (w ++ 39 :: rest))
    (hw : ∀ d ∈ w, isXDigit d = true) : TokenShape c t (.blob, rest)
  | bom (rest : CString) (hc : c = 0xEF) (ht : t = 0xBB :: 0xBF :: rest) :
    TokenShape c t (.space, rest)
  | word (hc : idChar c = true) : TokenShape c t (.name, t.dropWhile idChar)
  | operator (w rest : CString) (ht : t = w ++ rest)
    (hw : ∀ d ∈ c :: w, isIdentChar d = false ∧ opensQuote d = false ∧ isSpace d = false)
    (hcomment : ∀ d ∈ w, d ≠ 45 ∧ d ≠ 47) (hline : c = 45 → t.head? ≠ some 45)
    (hblock : c = 47 → t.head? = some 42 → t = [42]) : TokenShape c t (.operator, rest)
  | illegal (rest : CString) : TokenShape c t (.illegal, rest)

theorem operatorToken_shape (c : UInt8) (t : CString) (hline : c = 45 → t.head? ≠ some 45)
    (hblock : c = 47 → t.head? = some 42 → t = [42]) : TokenShape c t (operatorToken c t) := by
  have hbytes : ∀ c : UInt8, c ∈ cstr "-()+*/%=<>|,&~;" →
      isIdentChar c = false ∧ opensQuote c = false ∧ isSpace c = false := by
    rw [← List.forall_iff_forall_mem]
    decide
  have hpair : ∀ w u, t = w ++ u → (c :: w).Forall (· ∈ cstr "!=<>|-") → 45 ∉ w →
      TokenShape c t (.operator, u) := by
    intro w u ht hw hminus
    have hpairs : ∀ c : UInt8, c ∈ cstr "!=<>|-" →
        (isIdentChar c = false ∧ opensQuote c = false ∧ isSpace c = false) ∧ c ≠ 47 := by
      rw [← List.forall_iff_forall_mem]
      decide
    rw [List.forall_iff_forall_mem] at hw
    refine .operator w u ht (fun d hd => (hpairs d (hw d hd)).1) (fun d hd => ?_) hline hblock
    exact ⟨fun h => hminus (h ▸ hd), (hpairs d (hw d (List.mem_cons_of_mem _ hd))).2⟩
  unfold operatorToken
  split
  · exact hpair [62, 62] _ rfl (by decide) (by decide)
  · exact hpair [62] _ rfl (by decide) (by decide)
  · exact hpair [61] _ rfl (by decide) (by decide)
  · exact hpair [61] _ rfl (by decide) (by decide)
  · exact hpair [62] _ rfl (by decide) (by decide)
  · exact hpair [60] _ rfl (by decide) (by decide)
  · exact hpair [61] _ rfl (by decide) (by decide)
  · exact hpair [62] _ rfl (by decide) (by decide)
  · exact hpair [61] _ rfl (by decide) (by decide)
  · exact hpair [124] _ rfl (by decide) (by decide)
  · exact .illegal _
  · split
    · next hc =>
      refine .operator [] t rfl (fun d hd => ?_) nofun hline hblock
      obtain rfl := List.mem_singleton.mp hd
      exact hbytes d hc
    · exact .illegal _

theorem variableToken_shape (hc : Solid c) (n : Bool) (s : CString) :
    TokenShape c t (variableToken n s) := by
  fun_induction variableToken n s with
  | case1 n =>
    cases n with
    | false => exact .illegal _
    | true => exact .parameter _ hc
  | case2 n c t _ ih => exact ih
  | case3 => exact .parameter _ hc
  | case4 => exact .illegal _
  | case5 n u _ _ ih => exact ih
  | case6 n =>
    cases n with
    | false => exact .illegal _
    | true => exact .parameter _ hc

theorem blobToken_shape (hc : c = 120 ∨ c = 88) (ht : t.head? = some 39) :
    TokenShape c t (blobToken t.tail) := by
  cases t with
  | nil => cases ht
  | cons d u =>
    obtain rfl : d = 39 := Option.some.inj ht
    have hu := List.takeWhile_append_dropWhile (p := isXDigit) (l := u)
    rw [List.tail_cons]
    unfold blobToken
    dsimp only
    split
    · next rest heq =>
      rw [heq] at hu
      split
      · exact .blob _ rest hc (congrArg (39 :: ·) hu.symm) fun d hd => List.mem_takeWhile_imp hd
      · exact .illegal _
    · exact .illegal _

/-- A token by cases on its first byte. -/
theorem sqliteGetToken_shape (c : UInt8) (t : CString) : TokenShape c t (sqliteGetToken c t) := by
  -- the facts about bytes that the branches below need
  have hspace : ∀ c : UInt8, c = 9 ∨ c = 10 ∨ c = 12 ∨ c = 13 ∨ c = 32 → isSpace c = true := by
    simp only [forall_eq_or_imp, forall_eq]
    decide
  have hnumeric : ∀ c : UInt8, c = 46 ∨ isDigit c = true → Solid c := by
    rintro c (rfl | hdigit)
    · decide
    · exact solid_of_idChar (idChar_of_ident (by simp only [isIdentChar, hdigit, Bool.true_or]))
  have hvariable : ∀ c : UInt8, c = 63 ∨ c = 36 ∨ c = 64 ∨ c = 58 ∨ c = 35 → Solid c := by
    simp only [forall_eq_or_imp, forall_eq]
    decide
  -- the branches of the tokenizer in their order; what is refused by all of them is an operator
  unfold sqliteGetToken
  by_cases h₁ : c = 9 ∨ c = 10 ∨ c = 12 ∨ c = 13 ∨ c = 32
  · rw [if_pos h₁]
    exact .space (hspace c h₁)
  rw [if_neg h₁]
  by_cases h₂ : c = 45 ∧ t.head? = some 45
  · rw [if_pos h₂]
    obtain ⟨u, ht⟩ := List.head?_eq_some_iff.mp h₂.2
    exact .line u h₂.1 ht
  rw [if_neg h₂]
  by_cases h₃ : c = 47 ∧ t.head? = some 42 ∧ t.tail ≠ []
  · rw [if_pos h₃]
    obtain ⟨u, rfl⟩ := List.head?_eq_some_iff.mp h₃.2.1
    exact .block u h₃.1 rfl
  rw [if_neg h₃]
  by_cases h₄ : c = 34 ∨ c = 39 ∨ c = 96
  · rw [if_pos h₄]
    cases h : quotedToken c t with
    | none => exact .illegal _
    | some r =>
      by_cases hstring : c = 39
      · dsimp only
        rw [if_pos hstring]
        exact .string r.1 r.2 hstring h
      · dsimp only
        rw [if_neg hstring]
        exact .quoted r.1 r.2 (h₄.imp_right fun h => h.resolve_left hstring) h
  rw [if_neg h₄]
  by_cases h₅ : c = 91
  · rw [if_pos h₅]
    cases h : t.dropWhile fun d => d != 93 with
    | nil => exact .illegal _
    | cons d rest => exact .bracket d rest h₅ h
  rw [if_neg h₅]
  by_cases h₆ : c = 46 ∧ t.head?.any isDigit = false
  · rw [if_pos h₆]
    exact .dot h₆.1
  rw [if_neg h₆]
  by_cases h₇ : c = 46 ∨ isDigit c = true
  · rw [if_pos h₇]
    have hnumber : ∀ (b : Bool) (rest : CString),
        TokenShape c t (if b then .illegal else .number, rest) := by
      intro b rest
      cases b with
      | false => exact .number rest (hnumeric c h₇)
      | true => exact .illegal rest
    exact hnumber _ _
  rw [if_neg h₇]
  by_cases h₈ : c = 63
  · rw [if_pos h₈]
    exact .parameter _ (hvariable c (Or.inl h₈))
  rw [if_neg h₈]
  by_cases h₉ : c = 36 ∨ c = 64 ∨ c = 58 ∨ c = 35
  · rw [if_pos h₉]
    exact variableToken_shape (hvariable c (Or.inr h₉)) _ _
  rw [if_neg h₉]
  by_cases h₁₀ : (c = 120 ∨ c = 88) ∧ t.head? = some 39
  · rw [if_pos h₁₀]
    exact blobToken_shape h₁₀.1 h₁₀.2
  rw [if_neg h₁₀]
  by_cases h₁₁ : c = 0xEF ∧ [0xBB, 0xBF].isPrefixOf t = true
  · rw [if_pos h₁₁]
    obtain ⟨rest, rfl⟩ := List.isPrefixOf_iff_prefix.mp h₁₁.2
    exact .bom rest h₁₁.1 rfl
  rw [if_neg h₁₁]
  by_cases h₁₂ : idChar c = true
  · rw [if_pos h₁₂]
    exact .word h₁₂
  rw [if_neg h₁₂]
  refine operatorToken_shape c t (fun hc ht => h₂ ⟨hc, ht⟩) fun hc ht => ?_
  obtain ⟨u, rfl⟩ := List.head?_eq_some_iff.mp ht
  by_contra hmore
  exact h₃ ⟨hc, ht, fun h => hmore (congrArg (42 :: ·) h)⟩

theorem tokensFrom_fuel {fuel : ℕ} (h : s.length ≤ fuel) : tokensFrom fuel s = tokens s := by
  induction hn : s.length using Nat.strong_induction_on generalizing s fuel with
  | _ n ih =>
    subst hn
    cases s with
    | nil => cases fuel <;> rfl
    | cons c t =>
      rw [List.length_cons] at h
      obtain ⟨fuel, rfl⟩ := Nat.exists_eq_succ_of_ne_zero (by omega : fuel ≠ 0)
      have hle := (sqliteGetToken_suffix c t).length_le
      have hsame : ∀ fuel', t.length ≤ fuel' →
          tokensFrom fuel' (sqliteGetToken c t).2 = tokens (sqliteGetToken c t).2 := fun _ h =>
        ih _ (Nat.lt_succ_of_le hle) (hle.trans h) rfl
      have hstep : ∀ fuel', tokensFrom (fuel' + 1) (c :: t) =
          (c, t) :: tokensFrom fuel' (sqliteGetToken c t).2 := fun _ => rfl
      rw [tokens, List.length_cons, hstep, hstep, hsame fuel (by omega), hsame t.length le_rfl]

/-- The first token, and the others. -/
theorem tokens_cons (c : UInt8) (t : CString) :
    tokens (c :: t) = (c, t) :: tokens (sqliteGetToken c t).2 := by
  have hfirst : tokens (c :: t) = (c, t) :: tokensFrom t.length (sqliteGetToken c t).2 := rfl
  rw [hfirst, tokensFrom_fuel (sqliteGetToken_suffix c t).length_le]

/-! ## Between two quotes -/

/-- What follows a token between quotes; a text that is not closed is taken to its end. -/
def quotedEnd (quote : UInt8) (s : CString) : CString :=
  ((quotedToken quote s).map Prod.snd).getD []

theorem quotedEnd_other (hc : c ≠ quote) (t : CString) :
    quotedEnd quote (c :: t) = quotedEnd quote t := by
  unfold quotedEnd
  cases t with
  | nil =>
    have hone : quotedToken quote [c] = none := if_neg hc
    rw [hone]
    rfl
  | cons d t =>
    rw [quotedToken, if_neg hc, Option.map_map]
    rfl

theorem quotedEnd_twice (quote : UInt8) (t : CString) :
    quotedEnd quote (quote :: quote :: t) = quotedEnd quote t := by
  unfold quotedEnd
  rw [quotedToken, if_pos rfl, if_pos rfl, Option.map_map]
  rfl

theorem quotedEnd_closes {d : UInt8} (hd : d ≠ quote) (t : CString) :
    quotedEnd quote (quote :: d :: t) = d :: t := by
  unfold quotedEnd
  rw [quotedToken, if_pos rfl, if_neg hd]
  rfl

/-- The scanner and SQLite read names in double quotes alike. -/
theorem readQuoted_eq_quotedToken (s : CString) : readQuoted 34 s = quotedToken 34 s := by
  fun_induction quotedToken 34 s with
  | case1 => rfl
  | case2 => rfl
  | case3 c hc => exact if_neg hc
  | case4 t ih => rw [readQuoted, if_pos rfl, if_pos ⟨rfl, rfl⟩, ih]
  | case5 d t hd => rw [readQuoted, if_pos rfl, if_neg fun h => hd h.2]
  | case6 c d t hc ih => rw [readQuoted, if_neg hc, ih]

theorem sqliteGetToken_quoted (hc : c = 34 ∨ c = 39 ∨ c = 96) (t : CString) :
    (sqliteGetToken c t).2 = quotedEnd c t := by
  cases htoken : quotedToken c t with
  | none => rcases hc with rfl | rfl | rfl <;> simp [sqliteGetToken, quotedEnd, htoken]
  | some r => rcases hc with rfl | rfl | rfl <;> simp [sqliteGetToken, quotedEnd, htoken]

theorem skipQuotedRaw_length (quote : UInt8) (c : UInt8) (t : CString) :
    (skipQuotedRaw quote (c :: t)).length ≤ t.length := by
  cases t with
  | nil => exact le_rfl
  | cons d t =>
    have hle := (skipQuotedRaw_suffix quote t).length_le
    have hle' := (skipQuotedRaw_suffix quote (d :: t)).length_le
    rw [skipQuotedRaw, List.length_cons]
    split
    · split
      · omega
      · exact le_rfl
    · split
      · omega
      · exact hle'

/-- One byte is no literal. -/
theorem quotedEnd_single (quote c : UInt8) : quotedEnd quote [c] = [] := by
  by_cases hc : c = quote
  · have hone : quotedToken quote [c] = some ([], []) := if_pos hc
    rw [quotedEnd, hone]
    rfl
  · rw [quotedEnd_other hc]
    rfl

/-- A name between quotes ends where SQLite ends it. -/
theorem skipQuotedRaw_eq_quotedEnd (hquote : quote ≠ 39) (t : CString) :
    skipQuotedRaw quote t = quotedEnd quote t := by
  fun_induction skipQuotedRaw quote t with
  | case1 => rfl
  | case2 c => rw [quotedEnd_single]
  | case3 t ih => rw [quotedEnd_twice, ih]
  | case4 d t hd => rw [quotedEnd_closes hd]
  | case5 c d t _ h => exact absurd h.1 hquote
  | case6 c d t hc _ ih => rw [quotedEnd_other hc, ih]

theorem quotedEnd_suffix (quote : UInt8) (s : CString) : quotedEnd quote s <:+ s := by
  unfold quotedEnd
  cases h : quotedToken quote s with
  | none => exact List.nil_suffix
  | some r => exact quotedToken_suffix h

theorem quotedEnd_length (quote c : UInt8) (t : CString) :
    (quotedEnd quote (c :: t)).length ≤ t.length := by
  by_cases hc : c = quote
  · subst hc
    cases t with
    | nil => rw [quotedEnd_single]
    | cons d t =>
      by_cases hd : d = c
      · rw [hd, quotedEnd_twice]
        exact (quotedEnd_suffix c t).length_le.trans (Nat.le_succ _)
      · rw [quotedEnd_closes hd]
  · rw [quotedEnd_other hc]
    exact (quotedEnd_suffix quote t).length_le

/-- Behind an escaped quote the two are a quote apart. -/
theorem skipQuotedRaw_apart (t : CString) :
    (skipQuotedRaw 39 t = quotedEnd 39 (39 :: t) ↔ ∀ e ∈ t, e = 39) ∧
      (skipQuotedRaw 39 (39 :: t) = quotedEnd 39 t ↔ ∀ e ∈ t, e = 39) := by
  induction t with
  | nil =>
    have hnone : ∀ e ∈ ([] : CString), e = 39 := nofun
    exact ⟨iff_of_true (quotedEnd_single 39 39).symm hnone, iff_of_true rfl hnone⟩
  | cons e t ih =>
    by_cases he : e = 39
    · subst he
      have hall : (∀ e ∈ (39 : UInt8) :: t, e = 39) ↔ ∀ e ∈ t, e = 39 := by simp
      have hskip : skipQuotedRaw 39 (39 :: 39 :: t) = skipQuotedRaw 39 t := rfl
      rw [quotedEnd_twice, hall, hskip]
      exact ⟨ih.2, ih.1⟩
    · have hnot : ¬ ∀ e' ∈ e :: t, e' = 39 := fun h => he (h e List.mem_cons_self)
      have hskip : skipQuotedRaw 39 (39 :: e :: t) = e :: t := by
        rw [skipQuotedRaw, if_pos rfl, if_neg he]
      have hle := skipQuotedRaw_length 39 e t
      have hle' := quotedEnd_length 39 e t
      rw [quotedEnd_closes he, hskip, iff_false_right hnot, iff_false_right hnot]
      refine ⟨fun h => ?_, fun h => ?_⟩
      · rw [h, List.length_cons] at hle
        omega
      · rw [← h, List.length_cons] at hle'
        omega

/-- **A string** ends where SQLite ends it when it has no escaped quote. -/
theorem skipQuotedRaw_eq_quotedEnd_iff (t : CString) :
    skipQuotedRaw 39 t = quotedEnd 39 t ↔ EscapeFree t := by
  fun_induction EscapeFree t with
  | case1 => exact iff_of_true rfl trivial
  | case2 c => exact iff_of_true (quotedEnd_single 39 c).symm trivial
  | case3 d t ih =>
    by_cases hd : d = 39
    · subst hd
      have hskip : skipQuotedRaw 39 (39 :: 39 :: t) = skipQuotedRaw 39 t := rfl
      rw [quotedEnd_twice, hskip, ih]
      exact ⟨fun h _ => h, fun h => h rfl⟩
    · have hskip : skipQuotedRaw 39 (39 :: d :: t) = d :: t := by
        rw [skipQuotedRaw, if_pos rfl, if_neg hd]
      rw [hskip, quotedEnd_closes hd]
      exact iff_of_true rfl fun h => absurd h hd
  | case4 t =>
    have hskip : skipQuotedRaw 39 (92 :: 39 :: t) = skipQuotedRaw 39 t := rfl
    rw [hskip, quotedEnd_other (by decide)]
    exact (skipQuotedRaw_apart t).1
  | case5 d t hd _ ih =>
    have hskip : skipQuotedRaw 39 (92 :: d :: t) = skipQuotedRaw 39 t := rfl
    rw [hskip, quotedEnd_other (by decide), quotedEnd_other hd, ih]
  | case6 c d t hc hd ih =>
    have hskip : skipQuotedRaw 39 (c :: d :: t) = skipQuotedRaw 39 (d :: t) := by
      rw [skipQuotedRaw, if_neg hc, if_neg fun h => hd h.2]
    rw [hskip, quotedEnd_other hc, ih]

/-! ## Brackets and blobs -/

theorem skipQuotedRaw_eq_nil_iff (t : CString) : skipQuotedRaw 91 t = [] ↔ NoBracket t := by
  fun_induction NoBracket t with
  | case1 => exact iff_of_true rfl trivial
  | case2 c => exact iff_of_true rfl trivial
  | case3 d t ih =>
    by_cases hd : d = 91
    · subst hd
      have hskip : skipQuotedRaw 91 (91 :: 91 :: t) = skipQuotedRaw 91 t := rfl
      rw [hskip, ih]
      exact (and_iff_right rfl).symm
    · rw [skipQuotedRaw, if_pos rfl, if_neg hd]
      exact iff_of_false nofun fun h => hd h.1
  | case4 c d t hc ih =>
    have hskip : skipQuotedRaw 91 (c :: d :: t) = skipQuotedRaw 91 (d :: t) := by
      rw [skipQuotedRaw, if_neg hc, if_neg (by simp)]
    rw [hskip, ih]

/-- What is left follows a quote. -/
theorem skipQuotedRaw_behind (h : skipQuotedRaw quote s ≠ []) :
    ∃ v, s = v ++ quote :: skipQuotedRaw quote s := by
  fun_induction skipQuotedRaw quote s with
  | case1 => exact absurd rfl h
  | case2 => exact absurd rfl h
  | case3 t ih =>
    obtain ⟨v, hv⟩ := ih h
    exact ⟨quote :: quote :: v, congrArg (quote :: quote :: ·) hv⟩
  | case4 d t _ => exact ⟨[], rfl⟩
  | case5 c d t _ _ ih =>
    obtain ⟨v, hv⟩ := ih h
    exact ⟨c :: d :: v, congrArg (c :: d :: ·) hv⟩
  | case6 c d t _ _ ih =>
    obtain ⟨v, hv⟩ := ih h
    exact ⟨c :: v, congrArg (c :: ·) hv⟩

theorem sqliteGetToken_bracket (t : CString) :
    (sqliteGetToken 91 t).2 = (t.dropWhile fun d => d != 93).tail := by
  cases hdrop : t.dropWhile fun d => d != 93 with
  | nil => simp [sqliteGetToken, hdrop]
  | cons d rest => simp [sqliteGetToken, hdrop]

/-- **A bracketed identifier** ends where SQLite ends it only at the end of the text. -/
theorem skipQuotedRaw_bracket_iff (t : CString) :
    skipQuotedRaw 91 t = (sqliteGetToken 91 t).2 ↔
      (sqliteGetToken 91 t).2 = [] ∧ NoBracket t := by
  rw [← skipQuotedRaw_eq_nil_iff]
  refine ⟨fun h => ?_, fun h => h.2.trans h.1.symm⟩
  by_cases hnil : skipQuotedRaw 91 t = []
  · exact ⟨h.symm.trans hnil, hnil⟩
  · exfalso
    obtain ⟨v, hv⟩ := skipQuotedRaw_behind hnil
    rw [h, sqliteGetToken_bracket t] at hv hnil
    cases hdrop : t.dropWhile fun d => d != 93 with
    | nil => exact hnil (by rw [hdrop]; rfl)
    | cons d rest =>
      have hd : d = 93 := by
        have hnot := List.head_dropWhile_not (fun d : UInt8 => d != 93) (l := t)
          (by rw [hdrop]; exact List.cons_ne_nil _ _)
        simpa [hdrop] using hnot
      have ht := List.takeWhile_append_dropWhile (p := fun d : UInt8 => d != 93) (l := t)
      rw [hdrop, hd] at ht
      rw [hdrop, List.tail_cons, ← ht] at hv
      have hsame := List.append_inj_right' hv rfl
      exact absurd (List.cons.inj hsame).1 (by decide)

/-- A blob literal has digits between its quotes. -/
theorem exists_digits_of_blob (h : (sqliteGetToken c t).1 = .blob) :
    ∃ w, t = 39 :: (w ++ 39 :: (sqliteGetToken c t).2) ∧ ∀ d ∈ w, isXDigit d = true := by
  have hshape := sqliteGetToken_shape c t
  generalize sqliteGetToken c t = token at h hshape ⊢
  cases hshape with
  | blob w rest hc ht hw => exact ⟨w, ht, hw⟩
  | _ => cases h

/-- It is passed over unless a quote follows. -/
theorem skipQuotedRaw_digits {w : CString} (hw : ∀ d ∈ w, isXDigit d = true) (r : CString) :
    skipQuotedRaw 39 (w ++ 39 :: r) = r ↔ r.head? ≠ some 39 := by
  have hdigit : ∀ d : UInt8, isXDigit d = true → d ≠ 39 ∧ d ≠ 92 := fun d hd =>
    ⟨ne_of_test hd (by decide), ne_of_test hd (by decide)⟩
  induction w with
  | nil =>
    cases r with
    | nil => exact iff_of_true rfl nofun
    | cons d r =>
      rw [List.nil_append, skipQuotedRaw, if_pos rfl]
      by_cases hd : d = 39
      · rw [if_pos hd, hd]
        refine iff_of_false (fun h => ?_) fun h => h rfl
        have hle := (skipQuotedRaw_suffix 39 r).length_le
        rw [h, List.length_cons] at hle
        omega
      · rw [if_neg hd]
        exact iff_of_true rfl fun h => hd (Option.some.inj h)
  | cons d w ih =>
    rw [List.forall_mem_cons] at hw
    obtain ⟨hquote, hescape⟩ := hdigit d hw.1
    obtain ⟨e, u, hmore⟩ := List.exists_cons_of_ne_nil (l := w ++ 39 :: r) (by simp)
    rw [List.cons_append, hmore, skipQuotedRaw, if_neg hquote, if_neg fun h => hescape h.2,
      ← hmore]
    exact ih hw.2

/-- **The two end a literal alike** exactly when it is plain. -/
theorem endsAlike_iff (c : UInt8) (t : CString) : EndsAlike c t ↔ LiteralPlain c t := by
  have hblob : ((sqliteGetToken c t).1 = .blob → skipQuotedRaw 39 t.tail = (sqliteGetToken c t).2) ↔
      ((sqliteGetToken c t).1 = .blob → (sqliteGetToken c t).2.head? ≠ some 39) := by
    refine imp_congr_right fun h => ?_
    obtain ⟨w, ht, hw⟩ := exists_digits_of_blob h
    have htail : t.tail = w ++ 39 :: (sqliteGetToken c t).2 := congrArg List.tail ht
    rw [← skipQuotedRaw_digits hw, htail]
  constructor
  · rintro ⟨hquote, hb⟩
    refine ⟨fun hc => ?_, fun hc => ?_, hblob.mp hb⟩
    · subst hc
      rw [← skipQuotedRaw_eq_quotedEnd_iff, hquote rfl]
      exact sqliteGetToken_quoted (Or.inr (Or.inl rfl)) t
    · subst hc
      exact (skipQuotedRaw_bracket_iff t).mp (hquote rfl)
  · intro h
    refine ⟨fun hc => ?_, hblob.mpr h.blob⟩
    rcases opensQuote_iff.mp hc with rfl | rfl | rfl | rfl
    · rw [(skipQuotedRaw_eq_quotedEnd_iff t).mpr (h.string rfl)]
      exact (sqliteGetToken_quoted (Or.inr (Or.inl rfl)) t).symm
    · rw [skipQuotedRaw_eq_quotedEnd (by decide)]
      exact (sqliteGetToken_quoted (Or.inl rfl) t).symm
    · rw [skipQuotedRaw_eq_quotedEnd (by decide)]
      exact (sqliteGetToken_quoted (Or.inr (Or.inr rfl)) t).symm
    · exact (skipQuotedRaw_bracket_iff t).mpr (h.bracket rfl)

end EpsilonDB.Eql
