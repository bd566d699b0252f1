import EpsilonDB.Lib.RunningBest

/-!
# Selecting candidates before or after a running best

A selection keeps whole kinds. Scanning the selected candidates only and scanning all of
them need not accept the same kinds: an unselected candidate can reset a count, or lead.

- `ahead k l`: the copies of kind `k` newer than everything that is not selected.
- `coupled_run`: as long as a selected candidate leads, both scans have the same lead, and
  their counts agree unless both cover the copies ahead.
- `accepts_filter_iff`: an undisturbed kind is accepted by both scans or by neither.
- `arrangement`: an order of the list in which a disturbed kind is accepted by one only.
- `select_commutes_iff`: exactly when both scans accept the same kinds in every order.
-/

namespace RunningBest

universe u v w

variable {α : Type u} {K : Type v} {T : Type w} [DecidableEq K] [LinearOrder T]
variable {kind : α → K} {ts : α → T}

variable {sel : α → Bool} {k : K}

/-- The selection keeps or drops whole kinds of `l`. -/
def KeepsKinds (kind : α → K) (sel : α → Bool) (l : List α) : Prop :=
  ∀ x ∈ l, ∀ y ∈ l, kind x = kind y → sel x = sel y

/-- Candidates of kind `k` in `p` that are newer than everything in `l` that is not
selected. -/
def ahead (kind : α → K) (ts : α → T) (sel : α → Bool) (k : K) (l p : List α) : List α :=
  p.filter fun x => kind x = k ∧ ∀ y ∈ l, sel y = false → ts y < ts x

theorem mem_ahead {l p : List α} {x : α} :
    x ∈ ahead kind ts sel k l p ↔
      x ∈ p ∧ kind x = k ∧ ∀ y ∈ l, sel y = false → ts y < ts x := by
  rw [ahead, List.mem_filter, decide_eq_true_eq]

variable (kind ts sel k) in
theorem length_ahead_concat (l p : List α) (r : α) :
    (ahead kind ts sel k l (p ++ [r])).length ≤ (ahead kind ts sel k l p).length + 1 ∧
      (kind r ≠ k → (ahead kind ts sel k l (p ++ [r])).length =
        (ahead kind ts sel k l p).length) := by
  have hsplit : ahead kind ts sel k l (p ++ [r]) =
      ahead kind ts sel k l p ++ ahead kind ts sel k l [r] := List.filter_append ..
  rw [hsplit, List.length_append]
  refine ⟨Nat.add_le_add_left (List.length_filter_le ..) _, fun hr => ?_⟩
  have hnil : ahead kind ts sel k l [r] = [] := by
    rw [List.eq_nil_iff_forall_not_mem]
    intro x hx
    obtain ⟨hxr, hxk, -⟩ := mem_ahead.mp hx
    exact hr (List.mem_singleton.mp hxr ▸ hxk)
  rw [hnil, List.length_nil, Nat.add_zero]

/-- What the scan of `p` and the scan of its selected candidates have in common. While a
selected candidate leads, both have this lead; and for kind `k` the counts agree, or both
cover the candidates ahead. While another candidate leads, none ahead has been met. -/
structure Coupled (kind : α → K) (ts : α → T) (sel : α → Bool) (k : K) (l p : List α)
    (b : α) (n : Nat) : Prop where
  lead : sel b = true → ∃ n', run kind ts (p.filter sel) = some (b, n') ∧
    (kind b = k → n ≤ n' ∧ (n = n' ∨ (ahead kind ts sel k l p).length ≤ n))
  none_ahead : sel b = false → (ahead kind ts sel k l p).length = 0

/-- A candidate that is not selected has nothing ahead of it that came before a newer or
equally new lead. -/
theorem length_ahead_eq_zero {l p : List α} {b r : α} (hb : ∀ x ∈ p, ts x ≤ ts b)
    (hle : ts b ≤ ts r) (hr : r ∈ l) (hsel : sel r = false) :
    (ahead kind ts sel k l p).length = 0 := by
  rw [List.length_eq_zero_iff, List.eq_nil_iff_forall_not_mem]
  intro x hx
  obtain ⟨hxp, -, hnew⟩ := mem_ahead.mp hx
  exact absurd ((hb x hxp).trans hle) (not_le.mpr (hnew r hr hsel))

theorem run_filter_concat (p : List α) (r : α) :
    run kind ts ((p ++ [r]).filter sel) =
      if sel r then step kind ts (run kind ts (p.filter sel)) r
      else run kind ts (p.filter sel) := by
  rw [List.filter_append]
  cases hr : sel r
  · simp [hr]
  · rw [if_pos rfl, ← run_concat]
    simp [hr]

/-- The lead of the selected candidates is one of them. -/
theorem run_filter_le {p : List α} {b' : α} {n' : Nat}
    (h : run kind ts (p.filter sel) = some (b', n')) : b' ∈ p ∧ sel b' = true :=
  List.mem_filter.mp (run_newest h).1

/-- While the lead is not selected, a selected candidate either takes the lead in both scans or
is not ahead of it. -/
theorem Coupled.concat_overtaking {l p : List α} {r b : α} {n : Nat}
    (hsel : KeepsKinds kind sel l) (hrun : run kind ts p = some (b, n))
    (hp : ∀ x ∈ p ++ [r], x ∈ l) (h : Coupled kind ts sel k l p b n) (hr : sel r = true)
    (hbsel : sel b = false) :
    Coupled kind ts sel k l (p ++ [r]) (next kind ts (b, n) r).1 (next kind ts (b, n) r).2 := by
  have hb := run_newest hrun
  have hrl : r ∈ l := hp r (List.mem_append_right _ (List.mem_singleton_self r))
  have hbl : b ∈ l := hp b (List.mem_append_left _ hb.1)
  obtain ⟨hgrow, -⟩ := length_ahead_concat kind ts sel k l p r
  have hnone := h.none_ahead hbsel
  have hkind : kind r ≠ kind b := fun heq => by
    rw [hsel r hrl b hbl heq, hbsel] at hr
    cases hr
  rcases lt_or_ge (ts b) (ts r) with hlt | hge
  · -- `r` takes the lead in both scans
    rw [next_newer hlt, if_neg hkind]
    refine ⟨fun _ => ?_, fun hno => by rw [hr] at hno; cases hno⟩
    rw [run_filter_concat, if_pos hr]
    cases hf : run kind ts (p.filter sel) with
    | none => exact ⟨1, rfl, fun _ => ⟨le_rfl, Or.inl rfl⟩⟩
    | some s =>
      obtain ⟨b', n'⟩ := s
      have hb' := (hb.2 b' (run_filter_le hf).1).trans_lt hlt
      refine ⟨if kind r = kind b' then n' + 1 else 1, ?_, fun _ => ⟨?_, Or.inr ?_⟩⟩
      · show some (next kind ts (b', n') r) = _
        rw [next_newer hb']
      · split <;> omega
      · omega
  · -- `r` is not ahead of the lead, which stays
    rw [next_older hge]
    refine ⟨fun hyes => (by rw [hbsel] at hyes; cases hyes), fun _ => ?_⟩
    have hmax : ∀ x ∈ p ++ [r], ts x ≤ ts b :=
      List.forall_mem_append.mpr ⟨hb.2, List.forall_mem_singleton.mpr hge⟩
    exact length_ahead_eq_zero hmax le_rfl hbl hbsel

/-- While the lead is selected, a selected candidate does the same in both scans. -/
theorem Coupled.concat_following {l p : List α} {r b : α} {n : Nat}
    (h : Coupled kind ts sel k l p b n) (hr : sel r = true) (hbsel : sel b = true) :
    Coupled kind ts sel k l (p ++ [r]) (next kind ts (b, n) r).1 (next kind ts (b, n) r).2 := by
  obtain ⟨hgrow, hsame⟩ := length_ahead_concat kind ts sel k l p r
  obtain ⟨n', hf, hcount⟩ := h.lead hbsel
  rcases lt_or_ge (ts b) (ts r) with hlt | hge
  · rw [next_newer hlt]
    refine ⟨fun _ => ⟨if kind r = kind b then n' + 1 else 1, ?_, fun hk => ?_⟩,
      fun hno => by rw [hr] at hno; cases hno⟩
    · rw [run_filter_concat, if_pos hr, hf]
      show some (next kind ts (b, n') r) = _
      rw [next_newer hlt]
    · by_cases heq : kind r = kind b
      · obtain ⟨hle, hor⟩ := hcount (heq ▸ hk)
        rw [if_pos heq, if_pos heq]
        omega
      · -- the count starts anew in both
        rw [if_neg heq, if_neg heq]
        exact ⟨le_rfl, Or.inl rfl⟩
  · rw [next_older hge]
    refine ⟨fun _ => ⟨if kind r = kind b then n' + 1 else n', ?_, fun hk => ?_⟩,
      fun hno => by rw [hbsel] at hno; cases hno⟩
    · rw [run_filter_concat, if_pos hr, hf]
      show some (next kind ts (b, n') r) = _
      rw [next_older hge]
    · obtain ⟨hle, hor⟩ := hcount hk
      by_cases heq : kind r = kind b
      · rw [if_pos heq, if_pos heq]
        omega
      · have hlength := hsame fun hrk => heq (hrk.trans hk.symm)
        rw [if_neg heq, if_neg heq]
        omega

/-- **The step** of a selected candidate. -/
theorem Coupled.concat_selected {l p : List α} {r b : α} {n : Nat}
    (hsel : KeepsKinds kind sel l) (hrun : run kind ts p = some (b, n))
    (hp : ∀ x ∈ p ++ [r], x ∈ l) (h : Coupled kind ts sel k l p b n) (hr : sel r = true) :
    Coupled kind ts sel k l (p ++ [r]) (next kind ts (b, n) r).1 (next kind ts (b, n) r).2 := by
  cases hbsel : sel b with
  | false => exact h.concat_overtaking hsel hrun hp hr hbsel
  | true => exact h.concat_following hr hbsel

/-- **The step** of a candidate that is not selected. -/
theorem Coupled.concat_unselected {l p : List α} {r b : α} {n : Nat}
    (hsel : KeepsKinds kind sel l) (hrun : run kind ts p = some (b, n))
    (hp : ∀ x ∈ p ++ [r], x ∈ l) (h : Coupled kind ts sel k l p b n) (hr : sel r = false) :
    Coupled kind ts sel k l (p ++ [r]) (next kind ts (b, n) r).1 (next kind ts (b, n) r).2 := by
  have hb := run_newest hrun
  have hrl : r ∈ l := hp r (List.mem_append_right _ (List.mem_singleton_self r))
  have hbl : b ∈ l := hp b (List.mem_append_left _ hb.1)
  rcases lt_or_ge (ts b) (ts r) with hlt | hge
  · -- nothing met so far, nor `r` itself, is ahead of `r`
    rw [next_newer hlt]
    refine ⟨fun hyes => (by rw [hr] at hyes; cases hyes), fun _ => ?_⟩
    have hmax : ∀ x ∈ p ++ [r], ts x ≤ ts r := List.forall_mem_append.mpr
      ⟨fun x hx => (hb.2 x hx).trans hlt.le, List.forall_mem_singleton.mpr le_rfl⟩
    exact length_ahead_eq_zero hmax le_rfl hrl hr
  · rw [next_older hge]
    cases hbsel : sel b with
    | false =>
      refine ⟨fun hyes => (by rw [hbsel] at hyes; cases hyes), fun _ => ?_⟩
      have hmax : ∀ x ∈ p ++ [r], ts x ≤ ts b :=
        List.forall_mem_append.mpr ⟨hb.2, List.forall_mem_singleton.mpr hge⟩
      exact length_ahead_eq_zero hmax le_rfl hbl hbsel
    | true =>
      -- the kinds differ, so the count stays
      have hkind : kind r ≠ kind b := fun heq => by
        rw [hsel r hrl b hbl heq, hbsel] at hr
        cases hr
      obtain ⟨n', hf, hcount⟩ := h.lead hbsel
      refine ⟨fun _ => ⟨n', ?_, fun hk => ?_⟩, fun hno => by rw [hbsel] at hno; cases hno⟩
      · rw [run_filter_concat, hr, if_neg Bool.false_ne_true, hf]
      · obtain ⟨-, hsame⟩ := length_ahead_concat kind ts sel k l p r
        have hlength := hsame fun hrk => hkind (hrk.trans hk.symm)
        rw [if_neg hkind, hlength]
        exact hcount hk

/-- **The run**: the two scans stay coupled. -/
theorem coupled_run {l : List α} (hsel : KeepsKinds kind sel l)
    (p : List α) (hp : ∀ x ∈ p, x ∈ l) {b : α} {n : Nat} (h : run kind ts p = some (b, n)) :
    Coupled kind ts sel k l p b n := by
  induction p using List.reverseRecOn generalizing b n with
  | nil => cases h
  | append_singleton p r ih =>
    rcases run_concat_eq_some h with ⟨rfl, rfl, rfl⟩ | ⟨b', n', hl, hnext⟩
    · refine ⟨fun hyes => ⟨1, ?_, fun _ => ⟨le_rfl, Or.inl rfl⟩⟩, fun hno => ?_⟩
      · rw [run_filter_concat, if_pos hyes]
        rfl
      · refine length_ahead_eq_zero (b := r) (r := r) (fun x hx => ?_) le_rfl
          (hp r (List.mem_append_right _ (List.mem_singleton_self r))) hno
        rw [List.nil_append, List.mem_singleton] at hx
        rw [hx]
    · have hc := ih (fun x hx => hp x (List.mem_append_left _ hx)) hl
      obtain ⟨rfl, rfl⟩ : (next kind ts (b', n') r).1 = b ∧ (next kind ts (b', n') r).2 = n :=
        Prod.mk.inj hnext
      cases hr : sel r
      · exact hc.concat_unselected hsel hl hp hr
      · exact hc.concat_selected hsel hl hp hr

omit [DecidableEq K] in
theorem KeepsKinds.perm {l l' : List α} (h : KeepsKinds kind sel l) (hp : l'.Perm l) :
    KeepsKinds kind sel l' :=
  fun x hx y hy => h x (hp.mem_iff.mp hx) y (hp.mem_iff.mp hy)

/-- Either a selected candidate of another kind is newer than every copy of `k`, or
`required` copies are newer than everything that is not selected. -/
def Undisturbed (kind : α → K) (ts : α → T) (sel : α → Bool) (required : Nat) (k : K)
    (l : List α) : Prop :=
  (∃ g ∈ l, sel g = true ∧ kind g ≠ k ∧ ∀ x ∈ l, kind x = k → ts x < ts g) ∨
    required ≤ (ahead kind ts sel k l l).length

theorem Undisturbed.perm {required : Nat} {l l' : List α}
    (h : Undisturbed kind ts sel required k l) (hp : l'.Perm l) :
    Undisturbed kind ts sel required k l' := by
  rcases h with ⟨g, hg, hsel, hk, hnew⟩ | h
  · exact Or.inl ⟨g, hp.mem_iff.mpr hg, hsel, hk, fun x hx => hnew x (hp.mem_iff.mp hx)⟩
  · right
    have hcongr : ahead kind ts sel k l' l' =
        l'.filter fun x => kind x = k ∧ ∀ y ∈ l, sel y = false → ts y < ts x := by
      refine List.filter_congr fun x _ => ?_
      simp only [hp.mem_iff]
    rw [hcongr]
    exact h.trans_eq (hp.filter _).length_eq.symm

/-- Selecting first makes no difference for a kind that is undisturbed. -/
theorem accepts_filter_iff {required : Nat} (hpos : 0 < required) {l : List α}
    (hsel : KeepsKinds kind sel l)
    (h : Undisturbed kind ts sel required k l) :
    Accepts kind ts required k (l.filter sel) ↔ Accepts kind ts required k l := by
  rcases h with ⟨g, hg, hgsel, hgk, hnew⟩ | h
  · -- neither scan ends with a lead of kind `k`
    have hno : ∀ l' : List α, g ∈ l' → (∀ x ∈ l', x ∈ l) → ¬ Accepts kind ts required k l' := by
      rintro l' hgl' hsub ⟨b, n, hrun, hk, -⟩
      have hb := run_newest hrun
      exact absurd (hb.2 g hgl') (not_le.mpr (hnew b (hsub b hb.1) hk))
    exact iff_of_false (hno _ (List.mem_filter.mpr ⟨hg, hgsel⟩) fun x => List.mem_of_mem_filter)
      (hno l hg fun x hx => hx)
  · have hne : l ≠ [] := by
      rintro rfl
      simp only [ahead, List.filter_nil, List.length_nil] at h
      omega
    obtain ⟨b, n, hrun⟩ := exists_run_of_ne_nil kind ts hne
    have hc : Coupled kind ts sel k l l b n := coupled_run hsel l (fun _ hx => hx) hrun
    have hb : sel b = true := by
      by_contra hno
      have := hc.none_ahead (by simpa using hno)
      omega
    obtain ⟨n', hrun', hcount⟩ := hc.lead hb
    rw [accepts_iff hrun', accepts_iff hrun]
    refine and_congr_right fun hk => ?_
    obtain ⟨hle, hor⟩ := hcount hk
    omega

/-- Candidates of other kinds never raise the count of kind `k`. -/
theorem foldl_next_others (l : List α) (h : ∀ x ∈ l, kind x ≠ k) {b b' : α} {n n' : Nat}
    (hfold : l.foldl (next kind ts) (b, n) = (b', n')) (hk : kind b' = k) :
    kind b = k ∧ n' = n := by
  induction l generalizing b n with
  | nil =>
    cases hfold
    exact ⟨hk, rfl⟩
  | cons x l ih =>
    have hrest : ∀ y ∈ l, kind y ≠ k := fun y hy => h y (List.mem_cons_of_mem _ hy)
    have hx := h x List.mem_cons_self
    rw [List.foldl_cons] at hfold
    rcases lt_or_ge (ts b) (ts x) with hlt | hge
    · rw [next_newer hlt] at hfold
      exact absurd (ih hrest hfold).1 hx
    · rw [next_older hge] at hfold
      obtain ⟨hb, hn⟩ := ih hrest hfold
      rw [if_neg fun heq => hx (heq.trans hb)] at hn
      exact ⟨hb, hn⟩

/-! ## An order that shows a disturbance -/

/-- The copies of `k` that something not selected outdates, or ties with. -/
def behind (kind : α → K) (ts : α → T) (sel : α → Bool) (k : K) (l : List α) : List α :=
  (copies kind k l).filter fun x => !decide (∀ y ∈ l, sel y = false → ts y < ts x)

/-- What is not selected first, then the copies of `k` behind and ahead of it, then the
selected candidates of other kinds. -/
def arrangement (kind : α → K) (ts : α → T) (sel : α → Bool) (k : K) (l : List α) : List α :=
  l.filter (fun x => !sel x) ++ (behind kind ts sel k l ++ ahead kind ts sel k l l) ++
    l.filter (fun x => sel x && !decide (kind x = k))

theorem mem_behind {l : List α} {x : α} :
    x ∈ behind kind ts sel k l ↔
      (x ∈ l ∧ kind x = k) ∧ ∃ y ∈ l, sel y = false ∧ ts x ≤ ts y := by
  simp only [behind, copies, List.mem_filter, decide_eq_true_eq, Bool.not_eq_true',
    decide_eq_false_iff_not, not_forall, not_lt, exists_prop]

theorem mem_unselected {l : List α} {x : α} :
    x ∈ l.filter (fun x => !sel x) ↔ x ∈ l ∧ sel x = false := by
  rw [List.mem_filter, Bool.not_eq_true']

theorem mem_others {l : List α} {x : α} :
    x ∈ l.filter (fun x => sel x && !decide (kind x = k)) ↔
      x ∈ l ∧ sel x = true ∧ kind x ≠ k := by
  rw [List.mem_filter, Bool.and_eq_true, Bool.not_eq_true', decide_eq_false_iff_not]

theorem mem_copies {l : List α} {x : α} : x ∈ copies kind k l ↔ x ∈ l ∧ kind x = k := by
  rw [copies, List.mem_filter, decide_eq_true_eq]

theorem perm_copies (l : List α) :
    (behind kind ts sel k l ++ ahead kind ts sel k l l).Perm (copies kind k l) := by
  have hahead : ahead kind ts sel k l l = (copies kind k l).filter
      fun x => decide (∀ y ∈ l, sel y = false → ts y < ts x) := by
    rw [ahead, copies, List.filter_filter]
    refine List.filter_congr fun x _ => ?_
    rw [Bool.decide_and, Bool.and_comm]
  rw [hahead]
  exact List.perm_append_comm.trans (List.filter_append_perm _ _)

theorem kind_of_mem_parts {l : List α} {x : α}
    (hx : x ∈ behind kind ts sel k l ++ ahead kind ts sel k l l) : kind x = k :=
  (mem_copies.mp ((perm_copies l).mem_iff.mp hx)).2

section Arrangement

variable {l : List α} (hselk : ∀ x ∈ l, kind x = k → sel x = true)

include hselk

theorem perm_arrangement : (arrangement kind ts sel k l).Perm l := by
  have hcopies : copies kind k l = (l.filter sel).filter fun x => decide (kind x = k) := by
    rw [List.filter_filter, copies]
    refine List.filter_congr fun x hxl => ?_
    by_cases hx : kind x = k
    · simp [hx, hselk x hxl hx]
    · simp [hx]
  have hothers : l.filter (fun x => sel x && !decide (kind x = k)) =
      (l.filter sel).filter fun x => !decide (kind x = k) := by
    rw [List.filter_filter]
    refine List.filter_congr fun x _ => ?_
    rw [Bool.and_comm]
  have hselected : (copies kind k l ++ l.filter (fun x => sel x && !decide (kind x = k))).Perm
      (l.filter sel) := by
    rw [hcopies, hothers]
    exact List.filter_append_perm _ _
  rw [arrangement, List.append_assoc]
  exact ((((perm_copies l).append_right _).trans hselected).append_left _).trans
    (List.perm_append_comm.trans (List.filter_append_perm sel l))

/-- Selecting drops the first part only. -/
theorem filter_arrangement :
    (arrangement kind ts sel k l).filter sel =
      (behind kind ts sel k l ++ ahead kind ts sel k l l) ++
        l.filter (fun x => sel x && !decide (kind x = k)) := by
  rw [arrangement, List.append_assoc, List.filter_append, List.filter_eq_nil_iff.mpr,
    List.nil_append, List.filter_eq_self]
  · intro x hx
    rcases List.mem_append.mp hx with hx | hx
    · have hx := mem_copies.mp ((perm_copies l).mem_iff.mp hx)
      exact hselk x hx.1 hx.2
    · exact (mem_others.mp hx).2.1
  · intro x hx
    rw [(mem_unselected.mp hx).2]
    exact Bool.false_ne_true

/-- Selected, the copies of `k` come first and all count, since nothing after is newer. -/
theorem accepts_filter_arrangement {required : Nat} (hpos : 0 < required)
    (hcopies : required ≤ (copies kind k l).length)
    (hnone : ¬ ∃ g ∈ l, sel g = true ∧ kind g ≠ k ∧ ∀ x ∈ l, kind x = k → ts x < ts g) :
    Accepts kind ts required k ((arrangement kind ts sel k l).filter sel) := by
  rw [filter_arrangement hselk]
  have hkinds : ∀ x ∈ behind kind ts sel k l ++ ahead kind ts sel k l l, kind x = k :=
    fun x hx => kind_of_mem_parts hx
  have hperm : (behind kind ts sel k l ++ ahead kind ts sel k l l).Perm (copies kind k l) :=
    perm_copies l
  have hlen := hperm.length_eq
  cases hcase : behind kind ts sel k l ++ ahead kind ts sel k l l with
  | nil =>
    rw [hcase, List.length_nil] at hlen
    omega
  | cons c cs =>
    rw [hcase] at hkinds hlen hperm
    obtain ⟨b, hfold, hb⟩ := foldl_next_same ts cs
      (fun y hy => hkinds y (List.mem_cons_of_mem _ hy)) (hkinds c List.mem_cons_self) 1
    have hrun : run kind ts (c :: cs) = some (b, 1 + cs.length) := by rw [run_cons, hfold]
    have hold : ∀ x ∈ l.filter (fun x => sel x && !decide (kind x = k)), ts x ≤ ts b := by
      intro x hx
      obtain ⟨hxl, hxs, hxk⟩ := mem_others.mp hx
      by_contra hlt
      refine hnone ⟨x, hxl, hxs, hxk, fun y hy hyk => ?_⟩
      have hyc : y ∈ c :: cs := hperm.mem_iff.mpr (mem_copies.mpr ⟨hy, hyk⟩)
      exact ((run_newest hrun).2 y hyc).trans_lt (not_le.mp hlt)
    refine ⟨b, _, by rw [run_append_some hrun, foldl_next_older _ hold], hb, ?_⟩
    rw [List.length_cons] at hlen
    omega

/-- Unselected, only the copies ahead count before the other selected candidates come. -/
theorem count_le_ahead {b : α} {n : Nat}
    (hrun : run kind ts (l.filter (fun x => !sel x) ++
      (behind kind ts sel k l ++ ahead kind ts sel k l l)) = some (b, n)) (hk : kind b = k) :
    n ≤ (ahead kind ts sel k l l).length := by
  have hothers : ∀ y ∈ l.filter (fun x => !sel x), kind y ≠ k := fun y hy heq => by
    have := hselk y (mem_unselected.mp hy).1 heq
    rw [(mem_unselected.mp hy).2] at this
    cases this
  have hbehind : ∀ x ∈ behind kind ts sel k l,
      kind x = k ∧ ∃ y ∈ l.filter (fun x => !sel x), ts x ≤ ts y := fun x hx => by
    obtain ⟨⟨-, hxk⟩, y, hy, hys, hxy⟩ := mem_behind.mp hx
    exact ⟨hxk, y, mem_unselected.mpr ⟨hy, hys⟩, hxy⟩
  rw [← List.append_assoc] at hrun
  by_cases hnil : ahead kind ts sel k l l = []
  · -- no copy is newer than what is not selected, so none leads
    rw [hnil, List.append_nil] at hrun
    by_cases hun : l.filter (fun x => !sel x) = []
    · have hempty : behind kind ts sel k l = [] := by
        rw [List.eq_nil_iff_forall_not_mem]
        intro x hx
        obtain ⟨-, y, hy, -⟩ := hbehind x hx
        rw [hun] at hy
        cases hy
      rw [hun, hempty] at hrun
      cases hrun
    · obtain ⟨y, m, hy⟩ := exists_run_of_ne_nil kind ts hun
      have hold : ∀ x ∈ behind kind ts sel k l, ts x ≤ ts y := fun x hx => by
        obtain ⟨-, z, hz, hxz⟩ := hbehind x hx
        exact hxz.trans ((run_newest hy).2 z hz)
      rw [run_append_some hy, foldl_next_older _ hold] at hrun
      have heq : y = b := congrArg Prod.fst (Option.some.inj hrun)
      exact absurd (heq ▸ hk) (hothers y (run_newest hy).1)
  · obtain ⟨b', hworst, -⟩ := run_worst hothers hbehind (fun x hx => by
      obtain ⟨-, hxk, hxn⟩ := mem_ahead.mp hx
      exact ⟨hxk, fun y hy => hxn y (mem_unselected.mp hy).1 (mem_unselected.mp hy).2⟩) hnil
    rw [hworst] at hrun
    have heq : (ahead kind ts sel k l l).length = n :=
      congrArg Prod.snd (Option.some.inj hrun)
    exact heq.ge

theorem not_accepts_arrangement {required : Nat}
    (hfew : (ahead kind ts sel k l l).length < required)
    (hcopies : required ≤ (copies kind k l).length) :
    ¬ Accepts kind ts required k (arrangement kind ts sel k l) := by
  rintro ⟨b, n, hrun, hk, hle⟩
  rw [arrangement] at hrun
  have hne : l.filter (fun x => !sel x) ++
      (behind kind ts sel k l ++ ahead kind ts sel k l l) ≠ [] := by
    intro hnil
    have hlen : (behind kind ts sel k l ++ ahead kind ts sel k l l).length =
        (copies kind k l).length := (perm_copies l).length_eq
    rw [List.append_eq_nil_iff] at hnil
    rw [hnil.2, List.length_nil] at hlen
    omega
  obtain ⟨b', n', hpre⟩ := exists_run_of_ne_nil kind ts hne
  rw [run_append_some hpre, Option.some.injEq] at hrun
  obtain ⟨hk', hn⟩ := foldl_next_others _ (fun x hx => (mem_others.mp hx).2.2) hrun hk
  have := count_le_ahead hselk hpre hk'
  omega

end Arrangement

/-- **Selection commutes with the scan, exactly**, when at most one kind can have enough
copies. -/
theorem select_commutes_iff {required : Nat} (hpos : 0 < required) {l : List α}
    (hsel : KeepsKinds kind sel l) :
    (∀ l' : List α, l'.Perm l → ∀ x ∈ l, sel x = true →
        (Accepts kind ts required (kind x) (l'.filter sel) ↔
          Accepts kind ts required (kind x) l')) ↔
      ∀ x ∈ l, sel x = true → required ≤ (copies kind (kind x) l).length →
        Undisturbed kind ts sel required (kind x) l := by
  constructor
  · intro h x hx hxs hcopies
    by_contra hdist
    obtain ⟨hnone, hfew⟩ := not_or.mp hdist
    have hselk : ∀ y ∈ l, kind y = kind x → sel y = true := fun y hyl hy =>
      (hsel y hyl x hx hy).trans hxs
    exact not_accepts_arrangement hselk (not_le.mp hfew) hcopies
      ((h _ (perm_arrangement hselk) x hx hxs).mp
        (accepts_filter_arrangement hselk hpos hcopies hnone))
  · intro h l' hp x hx hxs
    by_cases hcopies : required ≤ (copies kind (kind x) l).length
    · exact accepts_filter_iff hpos (hsel.perm hp) ((h x hx hxs hcopies).perm hp)
    · have hfew : ¬ required ≤ (copies kind (kind x) l').length := by
        rwa [length_copies_perm hp]
      refine iff_of_false (fun hacc => hfew (hacc.le_copies.trans ?_)) fun hacc =>
        hfew hacc.le_copies
      unfold copies
      exact (List.filter_sublist.filter _).length_le

end RunningBest
