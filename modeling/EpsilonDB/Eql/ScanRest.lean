import EpsilonDB.Eql.ScanCursor
import EpsilonDB.Eql.References
import EpsilonDB.Eql.Assignments

/-!
# The cursor and the rest of the text (`eql/epsilon_eql.c`)

The lexical layer with a cursor does what the one on the rest of a text does, and so its loops
end.

- `scanAt`: the cursor that has a rest of the text before it.
- `skipSpacesComments_eq`, `skipQuotedRaw_eq`, `readIdent_eq`: blanks, literals and names.
- `parseRef_eq`, `skipAlias_eq`, `more_eq`: references.
-/

namespace EpsilonDB.Eql

open Whiles

/-- A text, and turns for every byte of it and one more. -/
structure Given (sql : CString) (fuel : ℕ) : Prop where
  text : 0 ∉ sql
  enough : sql.length < fuel

namespace EqlScan

/-- The cursor that has the rest `r` of the text before it. -/
def scanAt (sql r : CString) : EqlScan := ⟨sql, sql.length - r.length⟩

variable {sql r t : CString} {c d : UInt8} {fuel : ℕ}

/-! ## Reads and moves -/

theorem len_scanAt (sql r : CString) : (scanAt sql r).len = sql.length := rfl

theorem pos_scanAt (sql r : CString) : (scanAt sql r).pos = sql.length - r.length := rfl

theorem lt_len_scanAt (h : c :: t <:+ sql) : (scanAt sql (c :: t)).pos < (scanAt sql (c :: t)).len := by
  have hle := h.length_le
  rw [len_scanAt, pos_scanAt]
  rw [List.length_cons] at hle ⊢
  omega

theorem not_lt_len_scanAt (sql : CString) : ¬(scanAt sql []).pos < (scanAt sql []).len :=
  Nat.lt_irrefl _

theorem len_le_scanAt (sql : CString) : (scanAt sql []).len ≤ (scanAt sql []).pos :=
  Nat.le_refl _

theorem not_len_le_scanAt (h : c :: t <:+ sql) :
    ¬(scanAt sql (c :: t)).len ≤ (scanAt sql (c :: t)).pos :=
  Nat.not_le.mpr (lt_len_scanAt h)

theorem succ_lt_len (h : c :: d :: t <:+ sql) :
    (scanAt sql (c :: d :: t)).pos + 1 < (scanAt sql (c :: d :: t)).len := by
  have hle := h.length_le
  rw [len_scanAt, pos_scanAt]
  rw [List.length_cons, List.length_cons] at hle ⊢
  omega

theorem not_succ_lt_len (sql : CString) (c : UInt8) :
    ¬(scanAt sql [c]).pos + 1 < (scanAt sql [c]).len := by
  rw [len_scanAt, pos_scanAt, List.length_singleton]
  omega

/-- A byte of the rest. -/
theorem byte_add (h : r <:+ sql) {k : ℕ} (hk : k < r.length) :
    (scanAt sql r).byte ((scanAt sql r).pos + k) = .ok r[k] := by
  obtain ⟨l, rfl⟩ := h
  have hpos : (scanAt (l ++ r) r).pos = l.length := by
    rw [pos_scanAt, List.length_append, Nat.add_sub_cancel]
  have hlt : l.length + k < (l ++ r).length := by
    rw [List.length_append]
    omega
  have hget : (l ++ r)[l.length + k] = r[k] := by
    rw [List.getElem_append_right (Nat.le_add_right _ _)]
    simp only [Nat.add_sub_cancel_left]
  have hsql : l.length + k < (scanAt (l ++ r) r).sql.length := hlt
  rw [hpos, byte, dif_pos hsql]
  exact congrArg Except.ok hget

theorem byte_pos (h : c :: t <:+ sql) :
    (scanAt sql (c :: t)).byte (scanAt sql (c :: t)).pos = .ok c :=
  byte_add h (Nat.succ_pos _)

theorem byte_succ (h : c :: d :: t <:+ sql) :
    (scanAt sql (c :: d :: t)).byte ((scanAt sql (c :: d :: t)).pos + 1) = .ok d :=
  byte_add h (Nat.succ_lt_succ (Nat.succ_pos _))

/-- The terminator. -/
theorem byte_end (h : r <:+ sql) :
    (scanAt sql r).byte ((scanAt sql r).pos + r.length) = .ok 0 := by
  have hle := h.length_le
  have hpos : (scanAt sql r).pos + r.length = sql.length := by rw [pos_scanAt]; omega
  have hend : ¬sql.length < (scanAt sql r).sql.length := Nat.lt_irrefl _
  rw [hpos, byte, dif_neg hend, if_pos (len_scanAt sql r).symm]

theorem move_length {l : CString} (h : l ++ r <:+ sql) :
    (scanAt sql (l ++ r)).move l.length = scanAt sql r := by
  have hle := h.length_le
  rw [List.length_append] at hle
  have hpos : (scanAt sql (l ++ r)).pos + l.length = sql.length - r.length := by
    rw [pos_scanAt, List.length_append]
    omega
  rw [move, hpos]
  rfl

theorem move_one (h : c :: t <:+ sql) : (scanAt sql (c :: t)).move 1 = scanAt sql t :=
  move_length (l := [c]) h

theorem move_two (h : c :: d :: t <:+ sql) : (scanAt sql (c :: d :: t)).move 2 = scanAt sql t :=
  move_length (l := [c, d]) h

theorem suffix_tail (h : c :: t <:+ sql) : t <:+ sql := (List.suffix_cons c t).trans h

theorem suffix_tail₂ (h : c :: d :: t <:+ sql) : t <:+ sql := suffix_tail (suffix_tail h)

/-! ## The lexical layer -/

theorem skipTurn_cons (h : c :: t <:+ sql) (p : UInt8 → Bool) :
    skipTurn p (scanAt sql (c :: t)) =
      .ok (if p c then .again (scanAt sql t) else .done (scanAt sql (c :: t))) := by
  rw [skipTurn, if_pos (lt_len_scanAt h), byte_pos h, ok_bind, move_one h]

theorem skipWhile_eq (h : r <:+ sql) (hfuel : sql.length < fuel) (p : UInt8 → Bool) :
    (scanAt sql r).skipWhile fuel p = .ok (scanAt sql (r.dropWhile p)) := by
  refine loop_eq (scanAt sql) (· <:+ sql) List.length (fun r => scanAt sql (r.dropWhile p))
    (fun r hr => ?_) h (h.length_le.trans_lt hfuel)
  cases r with
  | nil =>
    left
    rw [skipTurn, if_neg (not_lt_len_scanAt sql)]
    rfl
  | cons c t =>
    rw [skipTurn_cons hr]
    split
    · next hp =>
      right
      exact ⟨t, suffix_tail hr, Nat.lt_succ_self _, by rw [List.dropWhile_cons_of_pos hp], rfl⟩
    · next hp =>
      left
      rw [List.dropWhile_cons_of_neg hp]

theorem twoBytes_eq (h : r <:+ sql) (a b : UInt8) :
    (scanAt sql r).twoBytes a b = .ok ([a, b].isPrefixOf r) := by
  rw [twoBytes]
  cases r with
  | nil =>
    rw [if_neg (fun hlt => not_lt_len_scanAt sql (Nat.lt_of_succ_lt hlt))]
    rfl
  | cons c t =>
    cases t with
    | nil =>
      rw [if_neg (not_succ_lt_len sql c)]
      simp [List.isPrefixOf]
    | cons d t =>
      rw [if_pos (succ_lt_len h), byte_pos h, ok_bind, byte_succ h]
      by_cases hc : c = a
      · rw [if_pos hc, ok_bind, hc]
        simp [List.isPrefixOf, Bool.beq_comm]
      · rw [if_neg hc]
        simp [List.isPrefixOf, Ne.symm hc]

theorem strstr_eq (h : r <:+ sql) (h0 : 0 ∉ sql) (hfuel : sql.length < fuel) :
    (scanAt sql r).strstr fuel =
      .ok ((bufFind (cstr "*/") r).map fun i => scanAt sql (r.drop i)) := by
  refine loop_eq (scanAt sql) (· <:+ sql) List.length
    (fun r => (bufFind (cstr "*/") r).map fun i => scanAt sql (r.drop i))
    (fun r hr => ?_) h (h.length_le.trans_lt hfuel)
  cases r with
  | nil =>
    -- the text ends, and there is a NUL behind it
    left
    have hend := byte_end (r := []) hr
    rw [List.length_nil, Nat.add_zero] at hend
    rw [strstrTurn, hend]
    rfl
  | cons c t =>
    have hc0 : c ≠ 0 := fun hc => h0 (hr.subset (hc ▸ List.mem_cons_self))
    have hagain : ¬(cstr "*/").isPrefixOf (c :: t) = true →
        ((bufFind (cstr "*/") t).map fun i => scanAt sql (t.drop i)) =
          (bufFind (cstr "*/") (c :: t)).map fun i => scanAt sql ((c :: t).drop i) := by
      intro hnot
      rw [bufFind, if_neg hnot, Option.map_map]
      rfl
    rw [strstrTurn, byte_pos hr, ok_bind, if_neg hc0]
    by_cases hstar : c = 42
    · rw [if_pos hstar]
      cases t with
      -- a star is the end only if a slash follows it
      | nil =>
        have hend := byte_end (r := [c]) hr
        rw [List.length_singleton] at hend
        rw [hend, ok_bind, move_one hr]
        right
        exact ⟨[], suffix_tail hr, Nat.zero_lt_one, hagain (by simp [cstr, List.isPrefixOf]), rfl⟩
      | cons d t =>
        rw [byte_succ hr, ok_bind, move_one hr]
        by_cases hslash : d = 47
        · left
          rw [if_pos hslash, bufFind, if_pos (by simp [hstar, hslash, cstr, List.isPrefixOf])]
          rfl
        · right
          refine ⟨d :: t, suffix_tail hr, Nat.lt_succ_self _, hagain ?_, by rw [if_neg hslash]⟩
          simp [cstr, List.isPrefixOf, Ne.symm hslash]
    · rw [if_neg hstar, move_one hr]
      right
      refine ⟨t, suffix_tail hr, Nat.lt_succ_self _, hagain ?_, rfl⟩
      simp [cstr, List.isPrefixOf, Ne.symm hstar]

/-- What is found is there. -/
theorem isPrefix_of_bufFind {needle : CString} {i : ℕ} (h : bufFind needle r = some i) :
    needle <+: r.drop i := by
  induction r generalizing i with
  | nil => cases h
  | cons c t ih =>
    rw [bufFind] at h
    split at h
    · next hpre =>
      cases h
      exact List.isPrefixOf_iff_prefix.mp hpre
    · obtain ⟨j, hj, rfl⟩ := Option.map_eq_some_iff.mp h
      exact ih hj

/-- The end of a block comment, or of the text. -/
theorem afterComment_eq (h : r <:+ sql) :
    (((bufFind (cstr "*/") r).map fun i => scanAt sql (r.drop i)).elim ⟨sql, sql.length⟩
      fun stop => stop.move 2) = scanAt sql (afterComment r) := by
  unfold afterComment
  cases hfind : bufFind (cstr "*/") r with
  | none => rfl
  | some i =>
    obtain ⟨t, ht⟩ := isPrefix_of_bufFind hfind
    have hsuffix : (cstr "*/") ++ t <:+ sql := ht ▸ (List.drop_suffix i r).trans h
    show (scanAt sql (r.drop i)).move (cstr "*/").length = scanAt sql (r.drop (i + 2))
    rw [← List.drop_drop, ← ht, move_length hsuffix]
    rfl

theorem skipSpacesComments_eq (h : r <:+ sql) (hg : Given sql fuel) :
    (scanAt sql r).skipSpacesComments fuel = .ok (scanAt sql (skipSpaces r)) := by
  refine loop_eq (scanAt sql) (· <:+ sql) List.length (fun r => scanAt sql (skipSpaces r))
    (fun r hr => ?_) h (h.length_le.trans_lt hg.enough)
  have hspaces : r.dropWhile isSpace <:+ r := List.dropWhile_suffix _
  have hdrop : r.dropWhile isSpace <:+ sql := hspaces.trans hr
  have hle := hspaces.length_le
  rw [spacesTurn, skipWhile_eq hr hg.enough, ok_bind, twoBytes_eq hdrop, ok_bind]
  have hround := skipSpaces_eq r
  generalize r.dropWhile isSpace = d at hround hdrop hle
  cases hline : [45, 45].isPrefixOf d with
  | true =>
    -- a comment to the end of the line
    obtain ⟨t, ht⟩ := List.isPrefixOf_iff_prefix.mp hline
    obtain rfl : 45 :: 45 :: t = d := ht
    have hshorter := (List.dropWhile_suffix (l := t) fun c => c != 10).length_le
    rw [List.length_cons, List.length_cons] at hle
    right
    refine ⟨t.dropWhile fun c => c != 10, (List.dropWhile_suffix _).trans (suffix_tail₂ hdrop),
      by omega, congrArg (scanAt sql) hround.symm, ?_⟩
    rw [if_pos rfl, skipWhile_eq hdrop hg.enough]
    rfl
  | false =>
    -- a comment in slashes and stars, or nothing that is skipped
    rw [if_neg Bool.false_ne_true, twoBytes_eq hdrop, ok_bind]
    cases hblock : [47, 42].isPrefixOf d with
    | true =>
      obtain ⟨t, ht⟩ := List.isPrefixOf_iff_prefix.mp hblock
      obtain rfl : 47 :: 42 :: t = d := ht
      have hshorter := (afterComment_suffix t).length_le
      rw [List.length_cons, List.length_cons] at hle
      right
      refine ⟨afterComment t, (afterComment_suffix t).trans (suffix_tail₂ hdrop), by omega,
        congrArg (scanAt sql) hround.symm, ?_⟩
      rw [if_pos rfl, move_two hdrop, strstr_eq (suffix_tail₂ hdrop) hg.text hg.enough, ok_bind,
        ← afterComment_eq (suffix_tail₂ hdrop)]
      rfl
    | false =>
      left
      have hself : skipSpaces r = d := by
        rw [hround]
        split
        · next t => simp [List.isPrefixOf] at hline
        · next t => simp [List.isPrefixOf] at hblock
        · rfl
      rw [if_neg Bool.false_ne_true, hself]

theorem skipQuotedRaw_eq (h : c :: t <:+ sql) (hfuel : sql.length < fuel) :
    (scanAt sql (c :: t)).skipQuotedRaw fuel = .ok (scanAt sql (Eql.skipQuotedRaw c t)) := by
  rw [skipQuotedRaw, byte_pos h, ok_bind, move_one h]
  refine loop_eq (scanAt sql) (· <:+ sql) List.length
    (fun r => scanAt sql (Eql.skipQuotedRaw c r)) (fun r hr => ?_) (suffix_tail h)
    ((suffix_tail h).length_le.trans_lt hfuel)
  cases r with
  | nil =>
    left
    rw [quotedRawTurn, if_neg (not_lt_len_scanAt sql)]
    rfl
  | cons a r =>
    rw [quotedRawTurn, if_pos (lt_len_scanAt hr), byte_pos hr, ok_bind, move_one hr]
    cases r with
    | nil =>
      have hnot := not_succ_lt_len sql a
      split
      · exact Or.inl rfl
      · rw [if_neg (fun h => hnot h.2.2)]
        exact Or.inr ⟨[], suffix_tail hr, Nat.zero_lt_one, rfl, rfl⟩
    | cons d r =>
      rw [Eql.skipQuotedRaw, move_two hr]
      split
      · rw [if_pos (succ_lt_len hr), byte_succ hr, ok_bind]
        split
        · exact Or.inr ⟨r, suffix_tail₂ hr, by simp only [List.length_cons]; omega, rfl, rfl⟩
        · exact Or.inl rfl
      · by_cases hescape : c = 39 ∧ a = 92
        · rw [if_pos ⟨hescape.1, hescape.2, succ_lt_len hr⟩, if_pos hescape]
          exact Or.inr ⟨r, suffix_tail₂ hr, by simp only [List.length_cons]; omega, rfl, rfl⟩
        · rw [if_neg (fun h => hescape ⟨h.1, h.2.1⟩), if_neg hescape]
          exact Or.inr ⟨d :: r, suffix_tail hr, Nat.lt_succ_self _, rfl, rfl⟩

/-! ## Identifiers -/

variable {cap : ℕ} {out l : CString}

theorem length_put (h : out.length ≤ cap - 1) (c : UInt8) : (put cap out c).length ≤ cap - 1 := by
  rw [put]
  split
  · rw [List.length_append, List.length_singleton]
    omega
  · exact h

/-- What is written is the copy that fits. -/
theorem snprintf_put (h : out.length ≤ cap - 1) (c : UInt8) (l : CString) :
    snprintf cap (put cap out c ++ l) = snprintf cap (out ++ c :: l) := by
  rw [put]
  split
  · rw [List.append_assoc]
    rfl
  · have hfull : cap - 1 = out.length := by omega
    rw [snprintf, snprintf, hfull, List.take_left, List.take_left]

theorem snprintf_self (h : out.length ≤ cap - 1) : snprintf cap out = out :=
  List.take_of_length_le h

/-- What `read_ident` works on, when `x` is the rest of the text and what is written. -/
def readingAt (sql : CString) (x : CString × CString) : Reading := ⟨scanAt sql x.1, x.2⟩

theorem copy_eq (h : r <:+ sql) (hfuel : sql.length < fuel) (keep : UInt8 → Bool) :
    loop (copyTurn cap keep) fuel ⟨scanAt sql r, []⟩ =
      .ok ⟨scanAt sql (r.dropWhile keep), snprintf cap (r.takeWhile keep)⟩ := by
  refine loop_eq (x := (r, [])) (readingAt sql)
    (fun x => x.1 <:+ sql ∧ x.2.length ≤ cap - 1) (fun x => x.1.length)
    (fun x => Reading.mk (scanAt sql (x.1.dropWhile keep)) (snprintf cap (x.2 ++ x.1.takeWhile keep)))
    (fun x hx => ?_) ⟨h, Nat.zero_le _⟩ (h.length_le.trans_lt hfuel)
  obtain ⟨r, out⟩ := x
  obtain ⟨hr, hout⟩ := hx
  dsimp only [readingAt] at hr hout ⊢
  rw [copyTurn]
  cases r with
  | nil =>
    left
    rw [if_neg (not_lt_len_scanAt sql), List.takeWhile_nil, List.append_nil, snprintf_self hout]
    rfl
  | cons c t =>
    rw [if_pos (lt_len_scanAt hr), byte_pos hr, ok_bind, move_one hr]
    split
    · next hkeep =>
      right
      refine ⟨(t, put cap out c), ⟨suffix_tail hr, length_put hout c⟩, Nat.lt_succ_self _, ?_, rfl⟩
      rw [List.dropWhile_cons_of_pos hkeep, List.takeWhile_cons_of_pos hkeep, snprintf_put hout]
    · next hkeep =>
      left
      rw [List.dropWhile_cons_of_neg hkeep, List.takeWhile_cons_of_neg hkeep, List.append_nil,
        snprintf_self hout]

theorem quoted_eq (h : r <:+ sql) (hfuel : sql.length < fuel) (quote : UInt8) :
    loop (quotedTurn cap quote) fuel ⟨scanAt sql r, []⟩ =
      .ok ((readQuoted quote r).map fun q => (snprintf cap q.1, scanAt sql q.2)) := by
  -- the buffer is cut as the name would be at its end
  refine loop_eq (x := (r, [])) (readingAt sql)
    (fun x => x.1 <:+ sql ∧ x.2.length ≤ cap - 1) (fun x => x.1.length)
    (fun x => (readQuoted quote x.1).map fun q => (snprintf cap (x.2 ++ q.1), scanAt sql q.2))
    (fun x hx => ?_) ⟨h, Nat.zero_le _⟩ (h.length_le.trans_lt hfuel)
  obtain ⟨r, out⟩ := x
  obtain ⟨hr, hout⟩ := hx
  dsimp only [readingAt] at hr hout ⊢
  have hagain : ∀ (a : UInt8) (q : CString × CString), (snprintf cap (put cap out a ++ q.1),
      scanAt sql q.2) = (snprintf cap (out ++ a :: q.1), scanAt sql q.2) :=
    fun a q => by rw [snprintf_put hout]
  rw [quotedTurn]
  cases r with
  | nil =>
    -- the text ends inside of the name
    left
    rw [if_neg (not_lt_len_scanAt sql)]
    rfl
  | cons c t =>
    rw [if_pos (lt_len_scanAt hr), byte_pos hr, ok_bind, move_one hr]
    -- the loop looks one byte ahead only behind a double quote
    cases t with
    | nil =>
      rw [readQuoted]
      split
      · left
        rw [if_neg (fun h => not_succ_lt_len sql c h.2), Option.map_some, List.append_nil,
          snprintf_self hout]
      · right
        exact ⟨([], put cap out c), ⟨suffix_tail hr, length_put hout c⟩, Nat.zero_lt_one, rfl, rfl⟩
    | cons d t =>
      rw [readQuoted]
      split
      · by_cases hdouble : quote = 34 ∧ d = 34
        · right
          rw [if_pos hdouble]
          dsimp only
          rw [if_pos ⟨hdouble.1, succ_lt_len hr⟩, byte_succ hr, ok_bind, if_pos hdouble.2, move_two hr]
          refine ⟨(t, put cap out 34), ⟨suffix_tail₂ hr, length_put hout 34⟩,
            by simp only [List.length_cons]; omega, ?_, rfl⟩
          rw [Option.map_map]
          exact congrArg (Option.map · _) (funext fun q => hagain 34 q)
        · left
          rw [if_neg hdouble, Option.map_some, List.append_nil, snprintf_self hout]
          split
          · next hquote =>
            rw [byte_succ hr, ok_bind, if_neg (fun hd => hdouble ⟨hquote.1, hd⟩)]
          · rfl
      · right
        refine ⟨(d :: t, put cap out c), ⟨suffix_tail hr, length_put hout c⟩, Nat.lt_succ_self _, ?_,
          rfl⟩
        rw [Option.map_map]
        exact congrArg (Option.map · _) (funext fun q => hagain c q)

theorem readIdent_eq (h : r <:+ sql) (hfuel : sql.length < fuel) (cap : ℕ) :
    (scanAt sql r).readIdent fuel cap =
      .ok ((Eql.readIdent cap r).map fun q => (q.1, scanAt sql q.2)) := by
  rw [readIdent]
  cases r with
  | nil =>
    rw [if_pos (len_le_scanAt sql)]
    rfl
  | cons c t =>
    rw [if_neg (not_len_le_scanAt h), byte_pos h, ok_bind, move_one h, Eql.readIdent]
    split
    · rw [quoted_eq (suffix_tail h) hfuel, Option.map_map]
      rfl
    · split
      · have hdrop : t.dropWhile (fun c => c != 93) <:+ sql :=
          (List.dropWhile_suffix _).trans (suffix_tail h)
        rw [copy_eq (suffix_tail h) hfuel, ok_bind]
        dsimp only
        generalize t.dropWhile (fun c => c != 93) = d at hdrop ⊢
        cases d with
        | nil =>
          rw [if_pos (len_le_scanAt sql)]
          rfl
        | cons e d =>
          rw [if_neg (not_len_le_scanAt hdrop), move_one hdrop]
          rfl
      · cases hident : isIdentChar c with
        | false => rfl
        | true =>
          have hcopy : loop (copyTurn cap isIdentChar) fuel ⟨scanAt sql (c :: t), []⟩ = _ :=
            copy_eq h hfuel isIdentChar
          simp only [Bool.not_true, if_true, hcopy, ok_bind]
          rfl

theorem bytes_eq (h : r <:+ sql) {n : ℕ} (hn : n ≤ r.length) :
    (scanAt sql r).bytes n = .ok (r.take n) := by
  induction n generalizing r with
  | zero => rfl
  | succ n ih =>
    cases r with
    | nil => cases hn
    | cons c t =>
      rw [bytes, byte_pos h, ok_bind, move_one h, ih (suffix_tail h) (Nat.le_of_succ_le_succ hn)]
      rfl

/-! ## References -/

theorem segment_eq (h : r <:+ sql) (hg : Given sql fuel) : (scanAt sql r).segment fuel =
    .ok ((Eql.readIdent 256 (skipSpaces r)).elim (none, scanAt sql (skipSpaces r))
      fun q => (some q.1, scanAt sql q.2)) := by
  rw [segment, skipSpacesComments_eq h hg, ok_bind,
    readIdent_eq ((skipSpaces_suffix r).trans h) hg.enough, ok_bind]
  cases Eql.readIdent 256 (skipSpaces r) with
  | none => rfl
  | some q => rfl

theorem dot_of_eq (h : r <:+ sql) (hg : Given sql fuel) (hdot : skipSpaces r = 46 :: t) :
    (scanAt sql r).dot fuel = .ok (true, scanAt sql t) := by
  have hsuffix : 46 :: t <:+ sql := hdot ▸ (skipSpaces_suffix r).trans h
  rw [dot, skipSpacesComments_eq h hg, ok_bind, hdot, if_pos (lt_len_scanAt hsuffix),
    byte_pos hsuffix, ok_bind, move_one hsuffix]
  rfl

theorem dot_of_ne (h : r <:+ sql) (hg : Given sql fuel)
    (hdot : ∀ t, skipSpaces r ≠ 46 :: t) :
    (scanAt sql r).dot fuel = .ok (false, scanAt sql (skipSpaces r)) := by
  have hsuffix := (skipSpaces_suffix r).trans h
  rw [dot, skipSpacesComments_eq h hg, ok_bind]
  cases hs : skipSpaces r with
  | nil => rw [if_neg (not_lt_len_scanAt sql)]
  | cons c t =>
    rw [hs] at hsuffix
    have hc : c ≠ 46 := fun hc => hdot t (hc ▸ hs)
    rw [if_pos (lt_len_scanAt hsuffix), byte_pos hsuffix, ok_bind, if_neg hc]

theorem parseRef_eq (h : r <:+ sql) (hg : Given sql fuel) :
    (scanAt sql r).parseRef fuel =
      .ok ((Eql.parseRef r).1, scanAt sql (Eql.parseRef r).2) := by
  have hs := (skipSpaces_suffix r).trans h
  rw [parseRef, segment_eq h hg, ok_bind, Eql.parseRef]
  dsimp only
  -- a name, and behind each dot one more, at most three in all
  cases hdb : Eql.readIdent 256 (skipSpaces r) with
  | none => rfl
  | some q =>
    obtain ⟨db, r₁⟩ := q
    have h₁ := (readIdent_suffix hdb).1.trans hs
    have hs₁ := (skipSpaces_suffix r₁).trans h₁
    dsimp only [Option.elim]
    generalize hdot : skipSpaces r₁ = s₁ at hs₁ ⊢
    split
    · next r₂ =>
      have h₂ := suffix_tail hs₁
      have hs₂ := (skipSpaces_suffix r₂).trans h₂
      rw [dot_of_eq h₁ hg hdot, ok_bind]
      dsimp only
      rw [if_neg (by decide), segment_eq h₂ hg, ok_bind]
      cases hpart : Eql.readIdent 256 (skipSpaces r₂) with
      | none => rfl
      | some q =>
        obtain ⟨part, r₃⟩ := q
        have h₃ := (readIdent_suffix hpart).1.trans hs₂
        have hs₃ := (skipSpaces_suffix r₃).trans h₃
        dsimp only [Option.elim]
        generalize hdot' : skipSpaces r₃ = s₃ at hs₃ ⊢
        split
        · next r₄ =>
          rw [dot_of_eq h₃ hg hdot', ok_bind]
          dsimp only
          rw [if_neg (by decide), segment_eq (suffix_tail hs₃) hg, ok_bind]
          cases Eql.readIdent 256 (skipSpaces r₄) with
          | none => rfl
          | some q => rfl
        · next hne =>
          rw [dot_of_ne h₃ hg (fun t ht => hne t (hdot'.symm.trans ht)), ok_bind, hdot']
          rfl
    · next hne =>
      rw [dot_of_ne h₁ hg (fun t ht => hne t (hdot.symm.trans ht)), ok_bind, hdot]
      rfl

/-- Where a loop over `p` stops. -/
theorem pos_dropWhile (h : r <:+ sql) (p : UInt8 → Bool) :
    (scanAt sql (r.dropWhile p)).pos = (scanAt sql r).pos + (r.takeWhile p).length := by
  have hle := h.length_le
  have hlen := congrArg List.length (List.takeWhile_append_dropWhile (p := p) (l := r))
  rw [List.length_append] at hlen
  rw [pos_scanAt, pos_scanAt]
  omega

theorem bytes_takeWhile (h : r <:+ sql) (p : UInt8 → Bool) :
    (scanAt sql r).bytes (r.takeWhile p).length = .ok (r.takeWhile p) := by
  have hprefix := List.takeWhile_prefix (l := r) p
  rw [bytes_eq h hprefix.length_le, ← List.prefix_iff_eq_take.mp hprefix]

theorem skipAlias_eq (h : r <:+ sql) (hg : Given sql fuel) :
    (scanAt sql r).skipAlias fuel = .ok (scanAt sql (Eql.skipAlias r)) := by
  have hs := (skipSpaces_suffix r).trans h
  have hrest : (skipSpaces r).dropWhile isIdentChar <:+ sql := (List.dropWhile_suffix _).trans hs
  rw [skipAlias, skipSpacesComments_eq h hg, ok_bind, skipWhile_eq hs hg.enough, ok_bind,
    Eql.skipAlias]
  dsimp only
  rw [pos_dropWhile hs, Nat.add_sub_cancel_left]
  by_cases hword : (skipSpaces r).takeWhile isIdentChar = [] ∨
      8 ≤ ((skipSpaces r).takeWhile isIdentChar).length
  · rw [if_pos hword, if_neg]
    rintro ⟨hpos, hlt⟩
    rcases hword with hnil | hlong
    · rw [hnil, List.length_nil] at hpos
      omega
    · omega
  · have hpos : 0 < ((skipSpaces r).takeWhile isIdentChar).length :=
      List.length_pos_iff.mpr fun hnil => hword (Or.inl hnil)
    have hshort : ((skipSpaces r).takeWhile isIdentChar).length < 8 :=
      Nat.lt_of_not_le fun hle => hword (Or.inr hle)
    rw [if_neg hword, if_pos ⟨by omega, hshort⟩, bytes_takeWhile hs, ok_bind]
    split
    · have hs' := (skipSpaces_suffix _).trans hrest
      rw [skipSpacesComments_eq hrest hg, ok_bind, skipWhile_eq hs' hg.enough, ok_bind,
        pos_dropWhile hs']
      split
      · next hlt => rw [if_neg (fun hnil => by rw [hnil, List.length_nil] at hlt; omega)]
      · next hlt =>
        rw [if_pos]
        exact List.length_eq_zero_iff.mp (by omega)
    · split
      · rfl
      · rfl

/-- What a scanner works on, when `x` is the tables and the rest of the text. -/
def scanningAt (sql : CString) (x : List Table × CString) : Scanning := ⟨x.1, scanAt sql x.2⟩

variable {tables : List Table}

theorem more_eq (h : r <:+ sql) (hg : Given sql fuel) :
    loop (moreTurn fuel) fuel ⟨tables, scanAt sql r⟩ =
      .ok ⟨(more tables r).1, scanAt sql (more tables r).2⟩ := by
  refine loop_eq (x := (tables, r)) (scanningAt sql) (fun x => x.2 <:+ sql)
    (fun x => x.2.length) (fun x => scanningAt sql (more x.1 x.2))
    (fun x hr => ?_) h (h.length_le.trans_lt hg.enough)
  obtain ⟨tables, r⟩ := x
  dsimp only [scanningAt] at hr ⊢
  rw [moreTurn, skipSpacesComments_eq hr hg, ok_bind]
  cases hs : skipSpaces r with
  | nil =>
    left
    rw [if_pos (len_le_scanAt sql), more_of_ne (by rw [hs]; exact fun h => by cases h)]
  | cons c t =>
    have ht : c :: t <:+ sql := hs ▸ (skipSpaces_suffix r).trans hr
    rw [if_neg (not_len_le_scanAt ht), byte_pos ht, ok_bind]
    by_cases hc : c = 44
    · subst hc
      have hlt := (skipSpaces_cons_lt hs).2
      have hrest := parseRef_suffix t
      rw [if_neg (fun hne => hne rfl), move_one ht, parseRef_eq (suffix_tail ht) hg, ok_bind,
        more_comma hs]
      cases href : Eql.parseRef t with
      | mk names rest =>
        rw [href] at hrest
        cases names with
        | none => exact Or.inl rfl
        | some names =>
          exact Or.inr ⟨(addRef tables names.1 names.2.1 names.2.2, rest),
            hrest.trans (suffix_tail ht), hrest.length_le.trans_lt hlt, rfl, rfl⟩
    · left
      rw [if_pos hc, more_of_ne (by rw [hs]; exact fun h => hc (Option.some.inj h))]

end EqlScan

end EpsilonDB.Eql
