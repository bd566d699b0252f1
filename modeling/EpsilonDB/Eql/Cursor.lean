import EpsilonDB.Eql.Scan
import Mathlib.Data.List.DropRight

/-!
# Cursors go forward

Every function of the scanner leaves a rest of the text it was given, and an identifier that
is read takes bytes.

- `skipSpaces_suffix`, `skipQuotedRaw_suffix`, `afterComment_suffix`, `readIdent_suffix`: what
  is left is a rest of the text.
- `upTo_append`: what was read and what is left are the text.
- `skipSpaces_eq`, `skipSpaces_idem`: a round of `skip_spaces_comments`, and that one call is
  enough.
- `readIdent_cases`: a quoted identifier has two bytes and more, and a bare one is read to its
  last byte.
-/

namespace EpsilonDB.Eql

variable {s r : CString}

/-- What was read and what is left. -/
theorem upTo_append (h : r <:+ s) : upTo s r ++ r = s := by
  obtain ⟨l, rfl⟩ := h
  unfold upTo
  rw [List.length_append, Nat.add_sub_cancel, List.take_left']
  rfl

theorem length_upTo (h : r <:+ s) : (upTo s r).length = s.length - r.length := by
  have hlen := congrArg List.length (upTo_append h)
  rw [List.length_append] at hlen
  omega

theorem drop_upTo (h : r <:+ s) : s.drop (upTo s r).length = r := by
  obtain ⟨l, rfl⟩ := h
  rw [length_upTo (List.suffix_append l r), List.length_append, Nat.add_sub_cancel,
    List.drop_left' rfl]

theorem afterComment_suffix (s : CString) : afterComment s <:+ s := by
  unfold afterComment
  split
  · exact List.drop_suffix _ s
  · exact List.nil_suffix

theorem skipSpacesComments_suffix (fuel : ℕ) (s : CString) : skipSpacesComments fuel s <:+ s := by
  induction fuel generalizing s with
  | zero => exact List.suffix_rfl
  | succ fuel ih =>
    have hspaces : s.dropWhile isSpace <:+ s := List.dropWhile_suffix _
    unfold skipSpacesComments
    split
    · next t heq =>
      rw [heq] at hspaces
      exact (ih _).trans ((List.dropWhile_suffix _).trans
        ((List.suffix_cons _ _).trans ((List.suffix_cons _ _).trans hspaces)))
    · next t heq =>
      rw [heq] at hspaces
      exact (ih _).trans ((afterComment_suffix t).trans
        ((List.suffix_cons _ _).trans ((List.suffix_cons _ _).trans hspaces)))
    · exact hspaces

theorem skipSpaces_suffix (s : CString) : skipSpaces s <:+ s := skipSpacesComments_suffix _ s

/-- A round is enough for every byte. -/
theorem skipSpacesComments_fuel {fuel : ℕ} (h : s.length ≤ fuel) :
    skipSpacesComments fuel s = skipSpaces s := by
  unfold skipSpaces
  induction hn : s.length using Nat.strong_induction_on generalizing s fuel with
  | _ n ih =>
    subst hn
    cases fuel with
    | zero =>
      obtain rfl := List.eq_nil_of_length_eq_zero (Nat.le_zero.mp h)
      rfl
    | succ fuel =>
      cases s with
      | nil => rfl
      | cons c t =>
        have hlen := (List.dropWhile_suffix (l := c :: t) isSpace).length_le
        rw [List.length_cons] at h hlen ⊢
        have hsame : ∀ r : CString, r.length < t.length →
            skipSpacesComments fuel r = skipSpacesComments t.length r := by
          intro r hr
          have hshort : r.length < (c :: t).length := by
            rw [List.length_cons]
            omega
          exact (ih _ hshort (by omega) rfl).trans (ih _ hshort (by omega) rfl).symm
        unfold skipSpacesComments
        split
        · next u heq =>
          rw [heq, List.length_cons, List.length_cons] at hlen
          have hle := (List.dropWhile_suffix (l := u) fun c => c != 10).length_le
          exact hsame _ (by omega)
        · next u heq =>
          rw [heq, List.length_cons, List.length_cons] at hlen
          have hle := (afterComment_suffix u).length_le
          exact hsame _ (by omega)
        · rfl

/-- A round of `skip_spaces_comments`. -/
theorem skipSpaces_eq (s : CString) : skipSpaces s = match s.dropWhile isSpace with
    | 45 :: 45 :: t => skipSpaces (t.dropWhile fun c => c != 10)
    | 47 :: 42 :: t => skipSpaces (afterComment t)
    | t => t := by
  have hround : skipSpacesComments (s.length + 1) s = _ := skipSpacesComments_fuel (Nat.le_succ _)
  have hlen := (List.dropWhile_suffix (l := s) isSpace).length_le
  rw [← hround, skipSpacesComments]
  generalize s.dropWhile isSpace = d at hlen ⊢
  split
  · next u =>
    rw [List.length_cons, List.length_cons] at hlen
    have hle := (List.dropWhile_suffix (l := u) fun c => c != 10).length_le
    exact skipSpacesComments_fuel (by omega)
  · next u =>
    rw [List.length_cons, List.length_cons] at hlen
    have hle := (afterComment_suffix u).length_le
    exact skipSpacesComments_fuel (by omega)
  · simp

/-- White space is skipped once. -/
theorem skipSpaces_idem (s : CString) : skipSpaces (skipSpaces s) = skipSpaces s := by
  induction hn : s.length using Nat.strong_induction_on generalizing s with
  | _ n ih =>
    subst hn
    have hlen := (List.dropWhile_suffix (l := s) isSpace).length_le
    have hagain : (s.dropWhile isSpace).dropWhile isSpace = s.dropWhile isSpace :=
      List.dropWhile_idempotent isSpace s
    rw [skipSpaces_eq s]
    split
    · next u heq =>
      rw [heq, List.length_cons, List.length_cons] at hlen
      have hle := (List.dropWhile_suffix (l := u) fun c => c != 10).length_le
      exact ih _ (by omega) _ rfl
    · next u heq =>
      rw [heq, List.length_cons, List.length_cons] at hlen
      have hle := (afterComment_suffix u).length_le
      exact ih _ (by omega) _ rfl
    · next hline hblock =>
      rw [skipSpaces_eq, hagain]
      split
      · next u heq => exact absurd heq (hline u)
      · next u heq => exact absurd heq (hblock u)
      · rfl

theorem skipSpaces_cons_lt {d : UInt8} (h : skipSpaces s = d :: r) :
    r <:+ s ∧ r.length < s.length := by
  have hsuffix := skipSpaces_suffix s
  rw [h] at hsuffix
  exact ⟨(List.suffix_cons _ _).trans hsuffix, Nat.lt_of_succ_le hsuffix.length_le⟩

theorem skipQuotedRaw_suffix (quote : UInt8) (s : CString) : skipQuotedRaw quote s <:+ s := by
  fun_induction skipQuotedRaw quote s with
  | case1 => exact List.suffix_rfl
  | case2 => exact List.nil_suffix
  | case3 t ih => exact ih.trans ((List.suffix_cons _ _).trans (List.suffix_cons _ _))
  | case4 d t => exact List.suffix_cons _ _
  | case5 c d t _ _ ih => exact ih.trans ((List.suffix_cons _ _).trans (List.suffix_cons _ _))
  | case6 c d t _ _ ih => exact ih.trans (List.suffix_cons _ _)

theorem readQuoted_suffix {quote : UInt8} {name : CString}
    (h : readQuoted quote s = some (name, r)) : r <:+ s ∧ r.length < s.length := by
  fun_induction readQuoted quote s generalizing name r with
  | case1 => cases h
  | case2 =>
    cases h
    exact ⟨List.nil_suffix, Nat.zero_lt_one⟩
  | case3 => cases h
  | case4 _ t _ ih =>
    obtain ⟨⟨name', r'⟩, hr, heq⟩ := Option.map_eq_some_iff.mp h
    cases heq
    obtain ⟨hsuffix, hlt⟩ := ih hr
    exact ⟨hsuffix.trans ((List.suffix_cons _ _).trans (List.suffix_cons _ _)),
      by simp only [List.length_cons]; omega⟩
  | case5 =>
    cases h
    exact ⟨List.suffix_cons _ _, Nat.lt_succ_self _⟩
  | case6 c d t hc ih =>
    obtain ⟨⟨name', r'⟩, hr, heq⟩ := Option.map_eq_some_iff.mp h
    cases heq
    obtain ⟨hsuffix, hlt⟩ := ih hr
    exact ⟨hsuffix.trans (List.suffix_cons _ _), hlt.trans (Nat.lt_succ_self _)⟩

/-- **An identifier**: a quoted one has two bytes and more, and a bare one is read to its last
byte. -/
theorem readIdent_cases {cap : ℕ} {name : CString} (h : readIdent cap s = some (name, r)) :
    r <:+ s ∧ (r.length + 2 ≤ s.length ∨
      r.length < s.length ∧ (∃ c t, s = c :: t ∧ isIdentChar c = true) ∧
        ∀ d ∈ r.head?, isIdentChar d = false) := by
  cases s with
  | nil => cases h
  | cons c t =>
    unfold readIdent at h
    dsimp only at h
    split at h
    · obtain ⟨⟨name', r'⟩, hr, heq⟩ := Option.map_eq_some_iff.mp h
      -- a quoted name takes its two quotes
      cases heq
      obtain ⟨hsuffix, hlt⟩ := readQuoted_suffix hr
      exact ⟨hsuffix.trans (List.suffix_cons _ _), Or.inl (Nat.succ_le_succ hlt)⟩
    · split at h
      · have hdrop : t.dropWhile (fun x => x != 93) <:+ t := List.dropWhile_suffix _
        split at h
        · cases h
        · next d rest heq =>
          -- so does a name in brackets
          cases h
          rw [heq] at hdrop
          refine ⟨(List.suffix_cons _ _).trans (hdrop.trans (List.suffix_cons _ _)), Or.inl ?_⟩
          have := hdrop.length_le
          simp only [List.length_cons] at this ⊢
          omega
      · split at h
        · next hident =>
          -- a bare name takes a byte at least, and ends before one that is no part of a name
          cases h
          have hdrop : (c :: t).dropWhile isIdentChar = t.dropWhile isIdentChar :=
            List.dropWhile_cons_of_pos hident
          have hsuffix : t.dropWhile isIdentChar <:+ t := List.dropWhile_suffix _
          rw [hdrop]
          refine ⟨hsuffix.trans (List.suffix_cons _ _),
            Or.inr ⟨Nat.lt_succ_of_le hsuffix.length_le, ⟨c, t, rfl, hident⟩, ?_⟩⟩
          intro d hd
          cases hhead : t.dropWhile isIdentChar with
          | nil =>
            rw [hhead] at hd
            cases hd
          | cons e l =>
            rw [hhead] at hd
            cases hd
            have hne : t.dropWhile isIdentChar ≠ [] := by
              rw [hhead]
              exact List.cons_ne_nil _ _
            have hnot := List.head_dropWhile_not isIdentChar hne
            simp only [hhead, List.head_cons] at hnot
            exact Bool.not_eq_true _ ▸ hnot
        · cases h

theorem readIdent_suffix {cap : ℕ} {name : CString} (h : readIdent cap s = some (name, r)) :
    r <:+ s ∧ r.length < s.length := by
  obtain ⟨hsuffix, hlong | hbare⟩ := readIdent_cases h
  · exact ⟨hsuffix, by omega⟩
  · exact ⟨hsuffix, hbare.1⟩

end EpsilonDB.Eql
