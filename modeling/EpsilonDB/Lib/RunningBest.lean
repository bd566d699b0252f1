import Mathlib.Order.Lattice
import Mathlib.Data.List.Basic
import Mathlib.Data.List.Induction
import Mathlib.Data.List.Perm.Basic

/-!
# Running best with agreement count

A scan keeps the newest candidate seen so far and counts how many candidates of its
kind it has met *since that kind took the lead*. A strictly newer candidate of another
kind resets the count, one of the same kind only moves the lead.

- `step` / `run`: one candidate, and a list of candidates in order.
- `copies k l`: the candidates of kind `k`.
- `fresh k l`: the candidates of kind `k` that are newer than every candidate of
  another kind. No order of the list keeps the scan from counting them.
- `run_newest`, `count_le`, `fresh_le`: the lead is a newest candidate, and the count
  lies between the fresh and all copies of its kind.
- `run_cons_newest`, `exists_perm_run_fresh`: both bounds are attained.
- `forall_perm_accepts_iff`: the kinds accepted in every order.
- `outcome_perm_iff`: exactly when the accepted result does not depend on the order.
-/

namespace RunningBest

universe u v w

variable {α : Type u} {K : Type v} {T : Type w} [DecidableEq K] [LinearOrder T]
variable (kind : α → K) (ts : α → T)

/-- The lead and its count after one more candidate. -/
def next (s : α × Nat) (r : α) : α × Nat :=
  let n := if kind r = kind s.1 then s.2 + 1 else s.2
  if ts s.1 < ts r then (r, if kind r = kind s.1 then n else 1) else (s.1, n)

/-- One candidate: the first one takes the lead. -/
def step (s : Option (α × Nat)) (r : α) : Option (α × Nat) :=
  match s with
  | none => some (r, 1)
  | some s => some (next kind ts s r)

/-- The scan of a list. -/
def run (l : List α) : Option (α × Nat) := l.foldl (step kind ts) none

/-- The lead of the scan when its count reaches `required`. -/
def outcome (required : Nat) (l : List α) : Option α :=
  match run kind ts l with
  | none => none
  | some (b, n) => if required ≤ n then some b else none

/-- `r` is a newest candidate of `l`. -/
def Newest (l : List α) (r : α) : Prop := r ∈ l ∧ ∀ x ∈ l, ts x ≤ ts r

/-- The candidates of kind `k`. -/
def copies (k : K) (l : List α) : List α := l.filter fun x => kind x = k

/-- The candidates of kind `k` newer than every candidate of another kind. -/
def fresh (k : K) (l : List α) : List α :=
  l.filter fun x => kind x = k ∧ ∀ y ∈ l, kind y ≠ k → ts y < ts x

variable {kind ts}

/-! ## One candidate -/

theorem next_newer {b r : α} {n : Nat} (h : ts b < ts r) :
    next kind ts (b, n) r = (r, if kind r = kind b then n + 1 else 1) := by
  unfold next
  rw [if_pos h]
  by_cases hk : kind r = kind b
  · simp only [if_pos hk]
  · simp only [if_neg hk]

theorem next_older {b r : α} {n : Nat} (h : ts r ≤ ts b) :
    next kind ts (b, n) r = (b, if kind r = kind b then n + 1 else n) := by
  unfold next
  rw [if_neg (not_lt.mpr h)]

theorem run_concat (l : List α) (r : α) :
    run kind ts (l ++ [r]) = step kind ts (run kind ts l) r := by
  rw [run, List.foldl_append]
  rfl

theorem run_append_some {l : List α} {s : α × Nat} (h : run kind ts l = some s)
    (l' : List α) : run kind ts (l ++ l') = some (l'.foldl (next kind ts) s) := by
  induction l' using List.reverseRecOn with
  | nil => rw [List.append_nil, h]; rfl
  | append_singleton l' r ih =>
    rw [← List.append_assoc, run_concat, ih, List.foldl_append]
    rfl

theorem run_cons (r : α) (l : List α) :
    run kind ts (r :: l) = some (l.foldl (next kind ts) (r, 1)) :=
  run_append_some (l := [r]) rfl l

variable (kind ts) in
theorem exists_run_of_ne_nil {l : List α} (h : l ≠ []) :
    ∃ b n, run kind ts l = some (b, n) := by
  cases l with
  | nil => exact absurd rfl h
  | cons r l => exact ⟨_, _, run_cons r l⟩

/-- A scan with a lead before its last candidate, or without any. -/
theorem run_concat_eq_some {l : List α} {r b : α} {n : Nat}
    (h : run kind ts (l ++ [r]) = some (b, n)) :
    (l = [] ∧ r = b ∧ 1 = n) ∨
      ∃ b' n', run kind ts l = some (b', n') ∧ next kind ts (b', n') r = (b, n) := by
  rw [run_concat] at h
  by_cases hl : l = []
  · subst hl
    obtain ⟨rfl, rfl⟩ := Prod.mk.inj (Option.some.inj h)
    exact Or.inl ⟨rfl, rfl, rfl⟩
  · obtain ⟨b', n', hrun⟩ := exists_run_of_ne_nil kind ts hl
    rw [hrun] at h
    exact Or.inr ⟨b', n', hrun, Option.some.inj h⟩

/-- What the last candidate `r` does to the scan of `l`. -/
inductive LastStep (kind : α → K) (ts : α → T) (l : List α) (r : α) : α → Nat → Prop where
  | first (hl : l = []) : LastStep kind ts l r r 1
  | newer {b n} (hrun : run kind ts l = some (b, n)) (hlt : ts b < ts r) :
    LastStep kind ts l r r (if kind r = kind b then n + 1 else 1)
  | older {b n} (hrun : run kind ts l = some (b, n)) (hge : ts r ≤ ts b) :
    LastStep kind ts l r b (if kind r = kind b then n + 1 else n)

theorem lastStep_of_run {l : List α} {r b : α} {n : Nat}
    (h : run kind ts (l ++ [r]) = some (b, n)) : LastStep kind ts l r b n := by
  rcases run_concat_eq_some h with ⟨hl, rfl, rfl⟩ | ⟨b', n', hrun, hnext⟩
  · exact .first hl
  · rcases lt_or_ge (ts b') (ts r) with hlt | hge
    · rw [next_newer hlt] at hnext
      obtain ⟨rfl, rfl⟩ := Prod.mk.inj hnext
      exact .newer hrun hlt
    · rw [next_older hge] at hnext
      obtain ⟨rfl, rfl⟩ := Prod.mk.inj hnext
      exact .older hrun hge

/-! ## Whole lists -/

/-- The lead is a newest candidate. -/
theorem run_newest {l : List α} {b : α} {n : Nat} (h : run kind ts l = some (b, n)) :
    Newest ts l b := by
  induction l using List.reverseRecOn generalizing b n with
  | nil => cases h
  | append_singleton l r ih =>
    cases lastStep_of_run h with
    | first hl =>
      subst hl
      exact ⟨List.mem_singleton_self r, fun x hx => by rw [List.mem_singleton.mp hx]⟩
    | newer hrun hlt =>
      obtain ⟨-, hmax⟩ := ih hrun
      refine ⟨List.mem_append_right _ (List.mem_singleton_self r), ?_⟩
      exact List.forall_mem_append.mpr
        ⟨fun x hx => (hmax x hx).trans hlt.le, List.forall_mem_singleton.mpr le_rfl⟩
    | older hrun hge =>
      obtain ⟨hmem, hmax⟩ := ih hrun
      refine ⟨List.mem_append_left _ hmem, ?_⟩
      exact List.forall_mem_append.mpr ⟨hmax, List.forall_mem_singleton.mpr hge⟩

theorem copies_append (k : K) (l l' : List α) :
    copies kind k (l ++ l') = copies kind k l ++ copies kind k l' :=
  List.filter_append ..

theorem length_copies_concat (k : K) (l : List α) (r : α) :
    (copies kind k (l ++ [r])).length =
      (copies kind k l).length + if kind r = k then 1 else 0 := by
  rw [copies_append, List.length_append]
  unfold copies
  by_cases hk : kind r = k
  · simp [hk]
  · simp [hk]

/-- The copies of two kinds are different candidates. -/
theorem length_copies_add_le {k k' : K} (hne : k ≠ k') (l : List α) :
    (copies kind k l).length + (copies kind k' l).length ≤ l.length := by
  induction l with
  | nil => exact le_rfl
  | cons x l ih =>
    unfold copies at ih ⊢
    rw [List.filter_cons, List.filter_cons, List.length_cons]
    by_cases hx : kind x = k
    · have hx' : kind x ≠ k' := fun heq => hne (hx.symm.trans heq)
      rw [if_pos (decide_eq_true hx), if_neg (by simpa using hx'), List.length_cons]
      omega
    · rw [if_neg (by simpa using hx)]
      split
      · rw [List.length_cons]
        omega
      · omega

/-- The count never exceeds the copies of the lead's kind. -/
theorem count_le {l : List α} {b : α} {n : Nat} (h : run kind ts l = some (b, n)) :
    n ≤ (copies kind (kind b) l).length := by
  induction l using List.reverseRecOn generalizing b n with
  | nil => cases h
  | append_singleton l r ih =>
    rw [length_copies_concat]
    cases lastStep_of_run h with
    | first _ =>
      rw [if_pos rfl]
      omega
    | newer hrun _ =>
      have hle := ih hrun
      rw [if_pos rfl]
      split
      · rename_i hk
        rw [hk]
        omega
      · omega
    | older hrun _ =>
      have hle := ih hrun
      split <;> omega

/-- Candidates of kind `k` that lie in `p` and are fresh in `l`. -/
def freshIn (kind : α → K) (ts : α → T) (k : K) (l p : List α) : List α :=
  p.filter fun x => kind x = k ∧ ∀ y ∈ l, kind y ≠ k → ts y < ts x

theorem mem_freshIn {k : K} {l p : List α} {x : α} :
    x ∈ freshIn kind ts k l p ↔
      x ∈ p ∧ kind x = k ∧ ∀ y ∈ l, kind y ≠ k → ts y < ts x := by
  rw [freshIn, List.mem_filter, decide_eq_true_eq]

/-- While a candidate of another kind leads, no fresh candidate has been met. -/
theorem freshIn_eq_nil {k : K} {l p : List α} {b : α} (hb : Newest ts p b) (hbl : b ∈ l)
    (hk : kind b ≠ k) : freshIn kind ts k l p = [] := by
  rw [List.eq_nil_iff_forall_not_mem]
  intro x hx
  obtain ⟨hxp, -, hnew⟩ := mem_freshIn.mp hx
  exact absurd (hb.2 x hxp) (not_le.mpr (hnew b hbl hk))

/-- A candidate of another kind is not fresh. -/
theorem freshIn_singleton_of_ne {k : K} {l : List α} {r : α} (hk : kind r ≠ k) :
    freshIn kind ts k l [r] = [] := by
  rw [List.eq_nil_iff_forall_not_mem]
  intro x hx
  obtain ⟨hxr, hxk, -⟩ := mem_freshIn.mp hx
  rw [List.mem_singleton.mp hxr] at hxk
  exact hk hxk

/-- **The step**: after a part `p` of the list `l`, a lead of kind `k` has counted every
fresh candidate of `p`. -/
theorem length_freshIn_le {k : K} {l : List α} (p : List α) (hp : ∀ x ∈ p, x ∈ l) {b : α}
    {n : Nat} (h : run kind ts p = some (b, n)) (hk : kind b = k) :
    (freshIn kind ts k l p).length ≤ n := by
  induction p using List.reverseRecOn generalizing b n with
  | nil => cases h
  | append_singleton p r ih =>
    have hp' : ∀ x ∈ p, x ∈ l := fun x hx => hp x (List.mem_append_left _ hx)
    have hone : (freshIn kind ts k l [r]).length ≤ 1 := List.length_filter_le ..
    have hsplit : freshIn kind ts k l (p ++ [r]) =
        freshIn kind ts k l p ++ freshIn kind ts k l [r] := List.filter_append ..
    rw [hsplit, List.length_append]
    cases lastStep_of_run h with
    | first hnil =>
      subst hnil
      simpa [freshIn] using hone
    | @newer b' n' hrun hlt =>
      have hb' := run_newest hrun
      by_cases hsame : kind r = kind b'
      · have hle := ih hp' hrun (hsame ▸ hk)
        rw [if_pos hsame]
        omega
      · -- a lead of another kind means that nothing fresh came before `r`
        have hforeign : freshIn kind ts k l p = [] :=
          freshIn_eq_nil hb' (hp' b' hb'.1) fun heq => hsame (hk.trans heq.symm)
        rw [if_neg hsame, hforeign, List.length_nil]
        omega
    | older hrun hge =>
      have hle := ih hp' hrun hk
      by_cases hsame : kind r = kind b
      · rw [if_pos hsame]
        omega
      · rw [if_neg hsame, freshIn_singleton_of_ne fun heq => hsame (heq.trans hk.symm),
          List.length_nil]
        omega

/-- **The run**: the count covers the fresh copies of the lead's kind. -/
theorem fresh_le {l : List α} {b : α} {n : Nat} (h : run kind ts l = some (b, n)) :
    (fresh kind ts (kind b) l).length ≤ n :=
  length_freshIn_le l (fun _ hx => hx) h rfl

theorem mem_fresh {k : K} {l : List α} {x : α} :
    x ∈ fresh kind ts k l ↔ x ∈ l ∧ kind x = k ∧ ∀ y ∈ l, kind y ≠ k → ts y < ts x :=
  mem_freshIn

/-- A fresh candidate settles the kind of every newest one. -/
theorem kind_of_newest {k : K} {l : List α} {x b : α} (hx : x ∈ fresh kind ts k l)
    (hb : Newest ts l b) : kind b = k := by
  by_contra hne
  obtain ⟨hxl, -, hnew⟩ := mem_fresh.mp hx
  exact absurd (hb.2 x hxl) (not_le.mpr (hnew b hb.1 hne))

/-- A kind all newest candidates share has a fresh one. -/
theorem mem_fresh_of_newest {k : K} {l : List α} {b : α} (hb : Newest ts l b)
    (hk : ∀ r, Newest ts l r → kind r = k) : b ∈ fresh kind ts k l := by
  refine mem_fresh.mpr ⟨hb.1, hk b hb, fun y hy hne => ?_⟩
  rcases lt_or_eq_of_le (hb.2 y hy) with hlt | heq
  · exact hlt
  · exact absurd (hk y ⟨hy, fun x hx => (hb.2 x hx).trans_eq heq.symm⟩) hne

theorem length_fresh_le_copies (k : K) (l : List α) :
    (fresh kind ts k l).length ≤ (copies kind k l).length := by
  unfold fresh copies
  refine (List.monotone_filter_right l fun x hx => ?_).length_le
  simp only [decide_eq_true_eq] at hx ⊢
  exact hx.1

/-- The scan accepts kind `k`. -/
def Accepts (kind : α → K) (ts : α → T) (required : Nat) (k : K) (l : List α) : Prop :=
  ∃ b n, run kind ts l = some (b, n) ∧ kind b = k ∧ required ≤ n

theorem accepts_iff {k : K} {required : Nat} {l : List α} {b : α} {n : Nat}
    (h : run kind ts l = some (b, n)) :
    Accepts kind ts required k l ↔ kind b = k ∧ required ≤ n := by
  constructor
  · rintro ⟨b', n', hrun, hk, hle⟩
    rw [h] at hrun
    cases hrun
    exact ⟨hk, hle⟩
  · rintro ⟨hk, hle⟩
    exact ⟨b, n, h, hk, hle⟩

theorem Accepts.le_copies {k : K} {required : Nat} {l : List α}
    (h : Accepts kind ts required k l) : required ≤ (copies kind k l).length := by
  obtain ⟨b, n, hrun, rfl, hle⟩ := h
  exact hle.trans (count_le hrun)

/-! ## Both bounds are attained -/

/-- Candidates that are not newer leave the lead alone and count by their kind. -/
theorem foldl_next_older {b : α} (l : List α) (h : ∀ x ∈ l, ts x ≤ ts b) (n : Nat) :
    l.foldl (next kind ts) (b, n) = (b, n + (copies kind (kind b) l).length) := by
  induction l generalizing n with
  | nil => rfl
  | cons x l ih =>
    rw [List.foldl_cons, next_older (h x List.mem_cons_self),
      ih fun y hy => h y (List.mem_cons_of_mem _ hy)]
    unfold copies
    by_cases hk : kind x = kind b
    · simp [hk]
      omega
    · simp [hk]

/-- With a newest candidate in front, every copy of it counts. -/
theorem run_cons_newest {r : α} {l : List α} (h : Newest ts (r :: l) r) :
    run kind ts (r :: l) = some (r, (copies kind (kind r) (r :: l)).length) := by
  rw [run_cons, foldl_next_older l fun x hx => h.2 x (List.mem_cons_of_mem _ hx)]
  unfold copies
  simp [Nat.add_comm]

variable (ts) in
/-- Candidates of one kind, from a lead of that kind, all count. -/
theorem foldl_next_same {k : K} (l : List α) (h : ∀ x ∈ l, kind x = k) {b : α}
    (hb : kind b = k) (n : Nat) :
    ∃ b', l.foldl (next kind ts) (b, n) = (b', n + l.length) ∧ kind b' = k := by
  induction l generalizing b n with
  | nil => exact ⟨b, rfl, hb⟩
  | cons x l ih =>
    have hx := h x List.mem_cons_self
    have hrest : ∀ y ∈ l, kind y = k := fun y hy => h y (List.mem_cons_of_mem _ hy)
    rw [List.foldl_cons]
    rcases lt_or_ge (ts b) (ts x) with hlt | hge
    · rw [next_newer hlt, if_pos (hx.trans hb.symm)]
      obtain ⟨b', heq, hb'⟩ := ih hrest hx (n + 1)
      exact ⟨b', by rw [heq, List.length_cons]; congr 1; omega, hb'⟩
    · rw [next_older hge, if_pos (hx.trans hb.symm)]
      obtain ⟨b', heq, hb'⟩ := ih hrest hb (n + 1)
      exact ⟨b', by rw [heq, List.length_cons]; congr 1; omega, hb'⟩

variable (ts) in
/-- Candidates of kind `k`, each newer than a lead of another kind, all count. -/
theorem foldl_next_fresh {k : K} (l : List α) (hne : l ≠ []) (h : ∀ x ∈ l, kind x = k) {b : α}
    (hb : kind b ≠ k) (hnew : ∀ x ∈ l, ts b < ts x) (n : Nat) :
    ∃ b', l.foldl (next kind ts) (b, n) = (b', l.length) ∧ kind b' = k := by
  cases l with
  | nil => exact absurd rfl hne
  | cons x l =>
    have hx := h x List.mem_cons_self
    rw [List.foldl_cons, next_newer (hnew x List.mem_cons_self),
      if_neg fun heq => hb (heq.symm.trans hx)]
    obtain ⟨b', heq, hb'⟩ :=
      foldl_next_same ts l (fun y hy => h y (List.mem_cons_of_mem _ hy)) hx 1
    exact ⟨b', by rw [heq, List.length_cons]; congr 1; omega, hb'⟩

/-- The worst order: other kinds first, then the copies they outdate, then the fresh
ones. Only the last count. -/
theorem run_worst {k : K} {others stale new : List α} (hothers : ∀ y ∈ others, kind y ≠ k)
    (hstale : ∀ x ∈ stale, kind x = k ∧ ∃ y ∈ others, ts x ≤ ts y)
    (hnew : ∀ x ∈ new, kind x = k ∧ ∀ y ∈ others, ts y < ts x) (hne : new ≠ []) :
    ∃ b, run kind ts (others ++ stale ++ new) = some (b, new.length) ∧ kind b = k := by
  by_cases hnil : others = []
  · -- without other kinds nothing is outdated
    have hstale : stale = [] := by
      rw [List.eq_nil_iff_forall_not_mem]
      intro x hx
      obtain ⟨-, y, hy, -⟩ := hstale x hx
      rw [hnil] at hy
      cases hy
    rw [hnil, hstale, List.nil_append, List.nil_append]
    cases new with
    | nil => exact absurd rfl hne
    | cons x new =>
      obtain ⟨b, heq, hb⟩ := foldl_next_same ts new
        (fun y hy => (hnew y (List.mem_cons_of_mem _ hy)).1) (hnew x List.mem_cons_self).1 1
      rw [run_cons, heq]
      exact ⟨b, by rw [List.length_cons, Nat.add_comm], hb⟩
  · obtain ⟨y, n, hrun⟩ := exists_run_of_ne_nil kind ts hnil
    have hy := run_newest hrun
    have hold : ∀ x ∈ stale, ts x ≤ ts y := fun x hx => by
      obtain ⟨-, z, hz, hle⟩ := hstale x hx
      exact hle.trans (hy.2 z hz)
    rw [run_append_some (run_append_some hrun stale), foldl_next_older stale hold]
    obtain ⟨b, heq, hb⟩ := foldl_next_fresh ts new hne (fun x hx => (hnew x hx).1)
      (hothers y hy.1) (fun x hx => (hnew x hx).2 y hy.1) (n + (copies kind (kind y) stale).length)
    exact ⟨b, by rw [heq], hb⟩

/-- The copies of a kind that some other candidate outdates, or ties with. -/
def stale (kind : α → K) (ts : α → T) (k : K) (l : List α) : List α :=
  (copies kind k l).filter fun x => !decide (∀ y ∈ l, kind y ≠ k → ts y < ts x)

theorem mem_stale {k : K} {l : List α} {x : α} :
    x ∈ stale kind ts k l ↔
      (x ∈ l ∧ kind x = k) ∧ ∃ y ∈ l, kind y ≠ k ∧ ts x ≤ ts y := by
  simp only [stale, copies, List.mem_filter, decide_eq_true_eq, Bool.not_eq_true',
    decide_eq_false_iff_not, not_forall, not_lt, exists_prop]

/-- The other kinds, the stale and the fresh copies are the whole list. -/
theorem perm_split (k : K) (l : List α) :
    (l.filter (fun x => !decide (kind x = k)) ++ stale kind ts k l ++ fresh kind ts k l).Perm
      l := by
  have hfresh : fresh kind ts k l =
      (copies kind k l).filter fun x => decide (∀ y ∈ l, kind y ≠ k → ts y < ts x) := by
    rw [fresh, copies, List.filter_filter]
    refine List.filter_congr fun x _ => ?_
    rw [Bool.decide_and, Bool.and_comm]
  have hcopies : (stale kind ts k l ++ fresh kind ts k l).Perm (copies kind k l) := by
    rw [hfresh]
    exact List.perm_append_comm.trans (List.filter_append_perm _ _)
  rw [List.append_assoc]
  exact ((hcopies.append_left _).trans List.perm_append_comm).trans (List.filter_append_perm _ l)

/-- Some order counts the fresh copies only. -/
theorem exists_perm_run_fresh {k : K} {l : List α} (h : fresh kind ts k l ≠ []) :
    ∃ l' b, l'.Perm l ∧ run kind ts l' = some (b, (fresh kind ts k l).length) ∧
      kind b = k := by
  have hothers : ∀ y, y ∈ l.filter (fun x => !decide (kind x = k)) ↔ y ∈ l ∧ kind y ≠ k := by
    intro y
    rw [List.mem_filter, Bool.not_eq_true', decide_eq_false_iff_not]
  obtain ⟨b, hrun, hb⟩ : ∃ b, run kind ts (l.filter (fun x => !decide (kind x = k)) ++
      stale kind ts k l ++ fresh kind ts k l) = some (b, (fresh kind ts k l).length) ∧
      kind b = k := run_worst (fun y hy => ((hothers y).mp hy).2)
    (fun x hx => by
      obtain ⟨⟨-, hk⟩, y, hy, hne, hle⟩ := mem_stale.mp hx
      exact ⟨hk, y, (hothers y).mpr ⟨hy, hne⟩, hle⟩)
    (fun x hx => by
      obtain ⟨-, hk, hnew⟩ := mem_fresh.mp hx
      exact ⟨hk, fun y hy => hnew y ((hothers y).mp hy).1 ((hothers y).mp hy).2⟩) h
  exact ⟨_, b, perm_split k l, hrun, hb⟩

/-! ## Order independence -/

section Perm

theorem Newest.perm {l l' : List α} {r : α} (h : Newest ts l r) (hp : l'.Perm l) :
    Newest ts l' r :=
  ⟨hp.mem_iff.mpr h.1, fun x hx => h.2 x (hp.mem_iff.mp hx)⟩

theorem length_copies_perm {l l' : List α} (hp : l'.Perm l) (k : K) :
    (copies kind k l').length = (copies kind k l).length :=
  (hp.filter _).length_eq

theorem length_fresh_perm {l l' : List α} (hp : l'.Perm l) (k : K) :
    (fresh kind ts k l').length = (fresh kind ts k l).length := by
  have hcongr : fresh kind ts k l' =
      l'.filter fun x => kind x = k ∧ ∀ y ∈ l, kind y ≠ k → ts y < ts x := by
    refine List.filter_congr fun x _ => ?_
    simp only [hp.mem_iff]
  rw [hcongr]
  exact (hp.filter _).length_eq

variable (kind) in
/-- A newest candidate can lead from the front. -/
theorem exists_perm_run_newest {l : List α} {r : α} (h : Newest ts l r) :
    ∃ l' : List α, l'.Perm l ∧
      run kind ts l' = some (r, (copies kind (kind r) l).length) := by
  obtain ⟨s, t, rfl⟩ := List.append_of_mem h.1
  have hp : (r :: (s ++ t)).Perm (s ++ r :: t) := List.perm_middle.symm
  refine ⟨r :: (s ++ t), hp, ?_⟩
  rw [run_cons_newest (h.perm hp), length_copies_perm hp]

/-- **A kind is accepted in every order** iff enough of its copies are fresh. -/
theorem forall_perm_accepts_iff {required : Nat} (hpos : 0 < required) {k : K} {l : List α} :
    (∀ l' : List α, l'.Perm l → Accepts kind ts required k l') ↔
      required ≤ (fresh kind ts k l).length := by
  constructor
  · intro h
    by_cases hne : fresh kind ts k l = []
    · -- some newest candidate is of another kind, and may lead from the front
      obtain ⟨b, n, hrun, -, -⟩ := h l (List.Perm.refl l)
      obtain ⟨r, hr, hk⟩ : ∃ r, Newest ts l r ∧ kind r ≠ k := by
        by_contra hall
        have hmem : b ∈ fresh kind ts k l := mem_fresh_of_newest (run_newest hrun) fun r hr =>
          not_not.mp fun hk => hall ⟨r, hr, hk⟩
        rw [hne] at hmem
        cases hmem
      obtain ⟨l', hp, hrun'⟩ := exists_perm_run_newest kind hr
      exact absurd ((accepts_iff hrun').mp (h l' hp)).1 hk
    · obtain ⟨l', b, hp, hrun, -⟩ := exists_perm_run_fresh hne
      exact ((accepts_iff hrun).mp (h l' hp)).2
  · intro h l' hp
    rw [← length_fresh_perm hp] at h
    obtain ⟨x, hx⟩ : ∃ x, x ∈ fresh kind ts k l' := by
      refine List.exists_mem_of_ne_nil _ fun hnil => ?_
      rw [hnil, List.length_nil] at h
      omega
    obtain ⟨b, n, hrun⟩ := exists_run_of_ne_nil kind ts
      (List.ne_nil_of_mem (mem_fresh.mp hx).1)
    have hk := kind_of_newest hx (run_newest hrun)
    refine ⟨b, n, hrun, hk, ?_⟩
    have hle := fresh_le hrun
    rw [hk] at hle
    exact h.trans hle

end Perm

section Outcome

variable {V : Type*} {key : V → K} {val : α → V}

variable (key val ts) in
/-- The newest candidates are all short of `required` copies, or they share one value
with `required` fresh copies. -/
def Settled (required : Nat) (l : List α) : Prop :=
  (∀ r, Newest ts l r → (copies (key ∘ val) (key (val r)) l).length < required) ∨
    ∃ v, (∀ r, Newest ts l r → val r = v) ∧
      required ≤ (fresh (key ∘ val) ts (key v) l).length

theorem Settled.perm {required : Nat} {l l' : List α} (h : Settled ts key val required l)
    (hp : l'.Perm l) : Settled ts key val required l' := by
  rcases h with h | ⟨v, hv, hfresh⟩
  · left
    intro r hr
    rw [length_copies_perm hp]
    exact h r (hr.perm hp.symm)
  · right
    exact ⟨v, fun r hr => hv r (hr.perm hp.symm), by rwa [length_fresh_perm hp]⟩

theorem outcome_of_run {required : Nat} {l : List α} {b : α} {n : Nat}
    (h : run kind ts l = some (b, n)) :
    outcome kind ts required l = if required ≤ n then some b else none := by
  rw [outcome, h]

/-- Without a newest candidate that has enough copies nothing is accepted. -/
theorem outcome_eq_none {required : Nat} {l : List α}
    (h : ∀ r, Newest ts l r → (copies kind (kind r) l).length < required) :
    outcome kind ts required l = none := by
  cases hrun : run kind ts l with
  | none => rw [outcome, hrun]
  | some s =>
    obtain ⟨b, n⟩ := s
    have hlt := (count_le hrun).trans_lt (h b (run_newest hrun))
    rw [outcome_of_run hrun, if_neg (not_le.mpr hlt)]

/-- The value all newest candidates share is accepted when enough copies are fresh. -/
theorem outcome_eq_some {required : Nat} {l : List α} {v : V} (hne : l ≠ [])
    (hv : ∀ r, Newest ts l r → val r = v)
    (hfresh : required ≤ (fresh (key ∘ val) ts (key v) l).length) :
    (outcome (key ∘ val) ts required l).map val = some v := by
  obtain ⟨b, n, hrun⟩ := exists_run_of_ne_nil (key ∘ val) ts hne
  have hb := hv b (run_newest hrun)
  have hle := fresh_le hrun
  rw [Function.comp_apply, hb] at hle
  rw [outcome_of_run hrun, if_pos (hfresh.trans hle), Option.map_some, hb]

/-- **Order independence, exactly.** -/
theorem outcome_perm_iff (required : Nat) (l : List α) :
    (∀ l', l'.Perm l → (outcome (key ∘ val) ts required l').map val =
        (outcome (key ∘ val) ts required l).map val) ↔ Settled ts key val required l := by
  constructor
  · intro h
    by_cases hsmall : ∀ r, Newest ts l r →
        (copies (key ∘ val) (key (val r)) l).length < required
    · exact Or.inl hsmall
    · -- with a well-copied newest candidate `r` in front, its value is accepted
      obtain ⟨r, hr, hcopies⟩ : ∃ r, Newest ts l r ∧
          required ≤ (copies (key ∘ val) (key (val r)) l).length := by
        simpa only [not_forall, not_lt, exists_prop] using hsmall
      have hfront : ∀ x, Newest ts l x → ∃ l', l'.Perm l ∧
          run (key ∘ val) ts l' = some (x, (copies (key ∘ val) (key (val x)) l).length) :=
        fun x hx => exists_perm_run_newest (key ∘ val) hx
      obtain ⟨l₁, hp₁, hrun₁⟩ := hfront r hr
      have haccept : (outcome (key ∘ val) ts required l).map val = some (val r) := by
        rw [← h l₁ hp₁, outcome_of_run hrun₁, if_pos hcopies]
        rfl
      -- so every newest candidate has this value, since it could stand in front as well
      have hval : ∀ x, Newest ts l x → val x = val r := by
        intro x hx
        obtain ⟨l₂, hp₂, hrun₂⟩ := hfront x hx
        have := h l₂ hp₂
        rw [haccept, outcome_of_run hrun₂] at this
        split at this
        · exact Option.some.inj this
        · cases this
      refine Or.inr ⟨val r, hval, ?_⟩
      have hmem : r ∈ fresh (key ∘ val) ts (key (val r)) l :=
        mem_fresh_of_newest hr fun x hx => congrArg key (hval x hx)
      obtain ⟨l₃, b, hp₃, hrun₃, -⟩ := exists_perm_run_fresh (List.ne_nil_of_mem hmem)
      have := h l₃ hp₃
      rw [haccept, outcome_of_run hrun₃] at this
      split at this
      · assumption
      · cases this
  · rintro h l' hp
    rcases h with h | ⟨v, hv, hfresh⟩
    · have hnone : ∀ l'', l''.Perm l → outcome (key ∘ val) ts required l'' = none := by
        intro l'' hp''
        refine outcome_eq_none fun r hr => ?_
        rw [length_copies_perm hp'']
        exact h r (hr.perm hp''.symm)
      rw [hnone l' hp, hnone l (List.Perm.refl l)]
    · by_cases hne : l = []
      · subst hne
        rw [List.perm_nil.mp hp]
      · have hne' : l' ≠ [] := fun heq => hne (List.nil_perm.mp (heq ▸ hp))
        rw [outcome_eq_some hne hv hfresh,
          outcome_eq_some hne' (fun r hr => hv r (hr.perm hp.symm))
            (by rwa [length_fresh_perm hp])]

end Outcome

end RunningBest
