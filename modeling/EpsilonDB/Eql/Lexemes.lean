import EpsilonDB.Eql.Literals

/-!
# Texts put together from lexemes

A statement as a list of what a parser sees in it: white space, literals, words and marks. The
loops of the scanner go through it lexeme by lexeme, where they leave a literal at its end.

- `Lexeme`, `spelled`: the lexemes and their text.
- `Reads`: every lexeme can be told from what follows it, and a literal ends where SQLite ends
  it.
- `Skips`: the scanner leaves every literal there, too.
- `skipSpaces_gap`, `skipSpaces_spelled`, `takeWhile_word`: what the scanner does at a lexeme.
-/

namespace EpsilonDB.Eql

/-- A piece of a statement. -/
inductive Lexeme where
  /-- white space and comments -/
  | gap (g : CString)
  /-- a literal or a quoted identifier, without its quotes -/
  | quoted (quote : UInt8) (body : CString)
  /-- a keyword, a bare identifier or a number, as the scanner delimits it -/
  | word (w : CString)
  /-- any other byte -/
  | mark (c : UInt8)
deriving DecidableEq

/-- The quote at the end. -/
def closing (quote : UInt8) : UInt8 := if quote = 91 then 93 else quote

/-- The text of a lexeme. -/
def Lexeme.spelled : Lexeme → CString
  | .gap g => g
  | .quoted quote body => quote :: (body ++ [closing quote])
  | .word w => w
  | .mark c => [c]

/-- The text of a list of them. -/
def spelled (xs : List Lexeme) : CString := xs.flatMap Lexeme.spelled

/-- The lexeme can be told from what follows it. -/
def Lexeme.Before : Lexeme → CString → Prop
  | .gap g, f => g ≠ [] ∧ skipSpaces (g ++ f) = skipSpaces f
  | .quoted quote body, f => opensQuote quote = true ∧
      (sqliteGetToken quote (body ++ closing quote :: f)).2 = f
  | .word w, f => w ≠ [] ∧ (∀ c ∈ w, isIdentChar c = true) ∧ f.head?.any isIdentChar = false
  | .mark c, f => isIdentChar c = false ∧ opensQuote c = false ∧ skipSpaces (c :: f) = c :: f

instance : ∀ (x : Lexeme) (f : CString), Decidable (x.Before f)
  | .gap _, _ => inferInstanceAs (Decidable (_ ∧ _))
  | .quoted _ _, _ => inferInstanceAs (Decidable (_ ∧ _))
  | .word _, _ => inferInstanceAs (Decidable (_ ∧ _ ∧ _))
  | .mark _, _ => inferInstanceAs (Decidable (_ ∧ _ ∧ _))

/-- The lexemes are those of their text, before the text `f`. -/
def Reads : List Lexeme → CString → Prop
  | [], _ => True
  | x :: xs, f => x.Before (spelled xs ++ f) ∧ Reads xs f

/-- The scanner leaves a literal where it ends. -/
def Lexeme.Skipped : Lexeme → CString → Prop
  | .quoted quote body, f => skipQuotedRaw quote (body ++ closing quote :: f) = f
  | _, _ => True

instance : ∀ (x : Lexeme) (f : CString), Decidable (x.Skipped f)
  | .quoted _ _, _ => inferInstanceAs (Decidable (_ = _))
  | .gap _, _ | .word _, _ | .mark _, _ => inferInstanceAs (Decidable True)

/-- So it leaves all of them. -/
def Skips : List Lexeme → CString → Prop
  | [], _ => True
  | x :: xs, f => x.Skipped (spelled xs ++ f) ∧ Skips xs f

instance decidableReads : ∀ (xs : List Lexeme) (f : CString), Decidable (Reads xs f)
  | [], _ => inferInstanceAs (Decidable True)
  | _ :: xs, f =>
    have := decidableReads xs f
    inferInstanceAs (Decidable (_ ∧ _))

instance decidableSkips : ∀ (xs : List Lexeme) (f : CString), Decidable (Skips xs f)
  | [], _ => inferInstanceAs (Decidable True)
  | _ :: xs, f =>
    have := decidableSkips xs f
    inferInstanceAs (Decidable (_ ∧ _))

variable {xs ys : List Lexeme} {x : Lexeme} {f w : CString} {c : UInt8}

@[simp] theorem spelled_nil : spelled [] = [] := rfl

theorem spelled_cons (x : Lexeme) (xs : List Lexeme) :
    spelled (x :: xs) = x.spelled ++ spelled xs := List.flatMap_cons

theorem spelled_append (xs ys : List Lexeme) :
    spelled (xs ++ ys) = spelled xs ++ spelled ys := List.flatMap_append

theorem reads_append : Reads (xs ++ ys) f ↔ Reads xs (spelled ys ++ f) ∧ Reads ys f := by
  induction xs with
  | nil => exact (and_iff_right trivial).symm
  | cons x xs ih =>
    rw [List.cons_append, Reads, Reads, ih, spelled_append, List.append_assoc, and_assoc]

theorem skips_append : Skips (xs ++ ys) f ↔ Skips xs (spelled ys ++ f) ∧ Skips ys f := by
  induction xs with
  | nil => exact (and_iff_right trivial).symm
  | cons x xs ih =>
    rw [List.cons_append, Skips, Skips, ih, spelled_append, List.append_assoc, and_assoc]

/-! ## What the scanner does at a lexeme -/

/-- A byte of an identifier or a quote is neither white space nor the start of a comment. -/
theorem skipSpaces_of_solid (hc : (isIdentChar c || opensQuote c) = true) (t : CString) :
    skipSpaces (c :: t) = c :: t := by
  have hsolid : Solid c := by
    rcases Bool.or_eq_true_iff.mp hc with hident | hquote
    · exact solid_of_idChar (idChar_of_ident hident)
    · exact solid_of_opensQuote hquote
  obtain ⟨hspace, hminus, hslash⟩ := hsolid
  show skipSpacesComments (t.length + 1) (c :: t) = c :: t
  rw [skipSpacesComments, List.dropWhile_cons_of_neg (by rw [hspace]; decide)]
  split
  · next heq => exact absurd (List.cons.inj heq).1 hminus
  · next heq => exact absurd (List.cons.inj heq).1 hslash
  · rfl

theorem Lexeme.Before.word_head (h : (Lexeme.word w).Before f) :
    ∃ c t, w = c :: t ∧ isIdentChar c = true := by
  obtain ⟨hne, hident, -⟩ := h
  obtain ⟨c, t, rfl⟩ := List.exists_cons_of_ne_nil hne
  exact ⟨c, t, rfl, hident c List.mem_cons_self⟩

/-- A lexeme has bytes. -/
theorem Lexeme.Before.length_pos (h : x.Before f) : 0 < x.spelled.length := by
  cases x with
  | gap g => exact List.length_pos_of_ne_nil h.1
  | quoted quote body => exact Nat.succ_pos _
  | word w => exact List.length_pos_of_ne_nil h.1
  | mark c => exact Nat.one_pos

/-- White space is passed over. -/
theorem skipSpaces_gap {g : CString} (h : (Lexeme.gap g).Before f) :
    skipSpaces ((Lexeme.gap g).spelled ++ f) = skipSpaces f := h.2

/-- Nothing else is. -/
theorem skipSpaces_spelled (h : x.Before f) (hgap : ∀ g, x ≠ .gap g) :
    skipSpaces (x.spelled ++ f) = x.spelled ++ f := by
  cases x with
  | gap g => exact absurd rfl (hgap g)
  | quoted quote body =>
    exact skipSpaces_of_solid (by rw [h.1, Bool.or_true]) _
  | word w =>
    obtain ⟨c, t, rfl, hc⟩ := h.word_head
    exact skipSpaces_of_solid (by rw [hc, Bool.true_or]) _
  | mark c => exact h.2.2

/-- A word is read to its end. -/
theorem takeWhile_word (h : (Lexeme.word w).Before f) :
    (w ++ f).takeWhile isIdentChar = w ∧ (w ++ f).dropWhile isIdentChar = f := by
  obtain ⟨-, hident, hend⟩ := h
  rw [List.takeWhile_append_of_pos hident, List.dropWhile_append_of_pos hident]
  cases f with
  | nil => exact ⟨List.append_nil w, rfl⟩
  | cons d f =>
    have hd : ¬ isIdentChar d = true := by simpa using hend
    rw [List.takeWhile_cons_of_neg hd, List.dropWhile_cons_of_neg hd]
    exact ⟨List.append_nil w, rfl⟩

/-- The cursor at a literal. -/
theorem skipSpaces_quoted {quote : UInt8} {body : CString}
    (h : (Lexeme.quoted quote body).Before f) :
    skipSpaces ((Lexeme.quoted quote body).spelled ++ f) =
      quote :: (body ++ closing quote :: f) := by
  rw [skipSpaces_spelled h nofun]
  simp [Lexeme.spelled]

/-- The cursor at a word. -/
theorem skipSpaces_word (h : (Lexeme.word w).Before f) :
    ∃ c t, isIdentChar c = true ∧ skipSpaces ((Lexeme.word w).spelled ++ f) = c :: t ∧
      (c :: t).takeWhile isIdentChar = w ∧ (c :: t).dropWhile isIdentChar = f := by
  obtain ⟨c, t, rfl, hc⟩ := h.word_head
  exact ⟨c, t ++ f, hc, skipSpaces_spelled h nofun, takeWhile_word h⟩

/-- A name in backticks ends at the first of them. -/
theorem readQuoted_plain {body : CString} (h : 96 ∉ body) :
    readQuoted 96 (body ++ 96 :: f) = some (body, f) := by
  induction body with
  | nil =>
    cases f with
    | nil => rfl
    | cons d f => rfl
  | cons c body ih =>
    rw [List.mem_cons, not_or] at h
    obtain ⟨d, u, hmore⟩ := List.exists_cons_of_ne_nil (l := body ++ 96 :: f) (by simp)
    rw [List.cons_append, hmore, readQuoted, if_neg (Ne.symm h.1), ← hmore, ih h.2]
    rfl

/-- An identifier in quotes is read to its end, but for doubled backticks; the last one may be
open. -/
theorem readIdent_quoted_cases {quote : UInt8} {body : CString}
    (h : (Lexeme.quoted quote body).Before f) (hquote : quote ≠ 39)
    (hback : quote = 96 → 96 ∉ body) (cap : ℕ) :
    readIdent cap (quote :: (body ++ closing quote :: f)) = none ∧ f = [] ∨
      ∃ name, readIdent cap (quote :: (body ++ closing quote :: f)) = some (name, f) := by
  obtain ⟨hopen, hend⟩ := h
  rcases opensQuote_iff.mp hopen with rfl | rfl | rfl | rfl
  · exact absurd rfl hquote
  · have hread : readIdent cap (34 :: (body ++ closing 34 :: f)) =
        (readQuoted 34 (body ++ closing 34 :: f)).map fun r => (snprintf cap r.1, r.2) := rfl
    rw [sqliteGetToken_quoted (Or.inl rfl), quotedEnd, ← readQuoted_eq_quotedToken] at hend
    rw [hread]
    cases hr : readQuoted 34 (body ++ closing 34 :: f) with
    | none =>
      rw [hr] at hend
      exact Or.inl ⟨rfl, hend.symm⟩
    | some r =>
      rw [hr] at hend
      exact Or.inr ⟨snprintf cap r.1, congrArg (fun f => some (_, f)) hend⟩
  · refine Or.inr ⟨snprintf cap body, ?_⟩
    show (readQuoted 96 (body ++ 96 :: f)).map _ = _
    rw [readQuoted_plain (hback rfl)]
    rfl
  · rw [sqliteGetToken_bracket] at hend
    unfold readIdent
    dsimp only
    rw [if_neg (by decide), if_pos rfl]
    cases heq : (body ++ closing 91 :: f).dropWhile fun x => x != 93 with
    | nil =>
      rw [heq] at hend
      exact Or.inl ⟨rfl, hend.symm⟩
    | cons d rest =>
      rw [heq] at hend
      exact Or.inr ⟨_, congrArg (fun f => some (_, f)) hend⟩

theorem readIdent_quoted {quote : UInt8} {body : CString}
    (h : (Lexeme.quoted quote body).Before f) (hf : f ≠ []) (hquote : quote ≠ 39)
    (hback : quote = 96 → 96 ∉ body) (cap : ℕ) :
    ∃ name, readIdent cap (quote :: (body ++ closing quote :: f)) = some (name, f) := by
  rcases readIdent_quoted_cases h hquote hback cap with ⟨-, hnil⟩ | hread
  · exact absurd hnil hf
  · exact hread

/-- A word is an identifier. -/
theorem readIdent_bare {t : CString} (hc : isIdentChar c = true) (cap : ℕ) :
    readIdent cap (c :: t) =
      some (snprintf cap ((c :: t).takeWhile isIdentChar), (c :: t).dropWhile isIdentChar) := by
  have hdouble : c ≠ 34 := ne_of_test hc (by decide)
  have hback : c ≠ 96 := ne_of_test hc (by decide)
  have hbracket : c ≠ 91 := ne_of_test hc (by decide)
  rw [readIdent, if_neg (not_or.mpr ⟨hdouble, hback⟩), if_neg hbracket, if_pos hc]

/-- A mark is none. -/
theorem readIdent_mark {t : CString} (hc : isIdentChar c = false) (hquote : opensQuote c = false)
    (cap : ℕ) : readIdent cap (c :: t) = none := by
  obtain ⟨-, hdouble, hback, hbracket⟩ : ¬ c = 39 ∧ ¬ c = 34 ∧ ¬ c = 96 ∧ ¬ c = 91 := by
    rw [← not_or, ← not_or, ← not_or, ← opensQuote_iff, hquote]
    exact Bool.false_ne_true
  rw [readIdent, if_neg (not_or.mpr ⟨hdouble, hback⟩), if_neg hbracket, if_neg (by rw [hc]; decide)]

end EpsilonDB.Eql
