import Mathlib.Algebra.BigOperators.Group.List.Basic

/-!
# Tables of counters

A table is searched from its start for a key. The counters that are found are changed in place;
where there are none, fresh ones are appended, under as much of the key as a table can keep.

- `bump`, `tally`: one change, and one for each element of a list.
- `Kept`: a table has no key that it could not keep; `kept_tally`.
- `total`: all that a table has under a key; `total_tally`, whatever the order and however
  often a key that is too long was appended.
- `mem_iff_total`: a table of different keys is its totals; `nodup_tally`.
- `mem_merged`: tables put together.
-/

namespace Tallies

variable {κ C β : Type*} [DecidableEq κ]

/-- Change the first counters of the key, or append counters. -/
def bump (cut : κ → κ) (zero : C) (k : κ) (f : C → C) : List (κ × C) → List (κ × C)
  | [] => [(cut k, f zero)]
  | e :: t => if e.1 = k then (e.1, f e.2) :: t else e :: bump cut zero k f t

/-- A change for each element. -/
def tally (cut : κ → κ) (zero : C) (key : β → κ) (f : β → C → C) (bs : List β)
    (t : List (κ × C)) : List (κ × C) :=
  bs.foldl (fun t b => bump cut zero (key b) (f b) t) t

/-- Every key is one that the table keeps whole. -/
def Kept (cut : κ → κ) (t : List (κ × C)) : Prop := ∀ e ∈ t, cut e.1 = e.1

/-! ## Keys -/

section Keys

variable {cut : κ → κ} {zero : C} {k x : κ} {f : C → C} {t : List (κ × C)}

theorem keys_bump :
    (bump cut zero k f t).map Prod.fst =
      if k ∈ t.map Prod.fst then t.map Prod.fst else t.map Prod.fst ++ [cut k] := by
  induction t with
  | nil => rfl
  | cons e t ih =>
    by_cases he : e.1 = k
    · rw [bump, if_pos he, if_pos (by simp [he])]
      rfl
    · rw [bump, if_neg he, List.map_cons, ih, List.map_cons]
      have hiff : k ∈ e.1 :: t.map Prod.fst ↔ k ∈ t.map Prod.fst := by
        rw [List.mem_cons, or_iff_right (Ne.symm he)]
      simp only [hiff]
      split <;> rfl

omit [DecidableEq κ] in
theorem kept_iff_keys : Kept cut t ↔ ∀ x ∈ t.map Prod.fst, cut x = x := by
  simp [Kept]

/-- A key that was cut once is kept. -/
theorem kept_bump (hcut : ∀ x, cut (cut x) = cut x) (ht : Kept cut t) :
    Kept cut (bump cut zero k f t) := by
  rw [kept_iff_keys] at ht ⊢
  rw [keys_bump]
  split
  · exact ht
  · intro x hx
    rcases List.mem_append.mp hx with hx | hx
    · exact ht x hx
    · rw [List.mem_singleton.mp hx, hcut]

theorem mem_keys_bump (ht : Kept cut t) :
    x ∈ (bump cut zero k f t).map Prod.fst ↔ x ∈ t.map Prod.fst ∨ cut k = x := by
  rw [keys_bump]
  split
  · next hk =>
    constructor
    · exact Or.inl
    · rintro (hx | rfl)
      · exact hx
      · rwa [kept_iff_keys.mp ht k hk]
  · rw [List.mem_append, List.mem_singleton, eq_comm]

/-- A key that is kept whole is not appended twice. -/
theorem nodup_bump (hk : cut k = k) (ht : (t.map Prod.fst).Nodup) :
    ((bump cut zero k f t).map Prod.fst).Nodup := by
  rw [keys_bump]
  split
  · exact ht
  · next hnew =>
    rw [hk]
    refine List.nodup_append.mpr ⟨ht, by simp, fun a ha b hb => ?_⟩
    rw [List.mem_singleton.mp hb]
    exact fun h => hnew (h ▸ ha)

variable {key : β → κ} {g : β → C → C} {bs : List β}

theorem mem_keys_tally (hcut : ∀ x, cut (cut x) = cut x) (ht : Kept cut t) :
    x ∈ (tally cut zero key g bs t).map Prod.fst ↔
      x ∈ t.map Prod.fst ∨ ∃ b ∈ bs, cut (key b) = x := by
  induction bs generalizing t with
  | nil => simp [tally]
  | cons b bs ih =>
    have hkept : Kept cut (bump cut zero (key b) (g b) t) := kept_bump hcut ht
    have hstep := ih hkept
    rw [mem_keys_bump ht] at hstep
    rw [List.exists_mem_cons_iff, ← or_assoc]
    exact hstep

theorem nodup_tally (hkey : ∀ b ∈ bs, cut (key b) = key b) (ht : (t.map Prod.fst).Nodup) :
    ((tally cut zero key g bs t).map Prod.fst).Nodup := by
  induction bs generalizing t with
  | nil => exact ht
  | cons b bs ih =>
    obtain ⟨hb, hbs⟩ := List.forall_mem_cons.mp hkey
    exact ih hbs (nodup_bump hb ht)

end Keys

/-! ## Totals -/

section Totals

variable [AddCommMonoid C]

/-- Everything under the key. -/
def total (k : κ) (t : List (κ × C)) : C := (t.map fun e => if e.1 = k then e.2 else 0).sum

variable {cut : κ → κ} {k x : κ} {f : C → C} {d c : C} {t : List (κ × C)}

theorem total_cons (e : κ × C) (t : List (κ × C)) :
    total x (e :: t) = (if e.1 = x then e.2 else 0) + total x t :=
  List.sum_cons

theorem total_eq_zero (h : x ∉ t.map Prod.fst) : total x t = 0 := by
  induction t with
  | nil => rfl
  | cons e t ih =>
    obtain ⟨he, ht⟩ := not_or.mp (mt List.mem_cons.mpr h)
    rw [total_cons, if_neg (Ne.symm he), ih ht, add_zero]

/-- **One change** is added to what is under the key as the table keeps it. -/
theorem total_bump (hf : ∀ c, f c = c + d) (ht : Kept cut t) :
    total x (bump cut 0 k f t) = total x t + if cut k = x then d else 0 := by
  induction t with
  | nil =>
    rw [bump, hf, total_cons, zero_add]
    exact add_comm _ _
  | cons e t ih =>
    obtain ⟨he, ht⟩ := List.forall_mem_cons.mp ht
    by_cases hk : e.1 = k
    · rw [bump, if_pos hk, total_cons, total_cons, hf]
      have hcut : cut k = e.1 := hk ▸ he
      rw [hcut]
      split
      · exact add_right_comm _ _ _
      · rw [add_zero]
    · rw [bump, if_neg hk, total_cons, total_cons, ih ht, add_assoc]

variable {key : β → κ} {g : β → C → C} {amount : β → C} {bs : List β}

/-- **All changes** are added up, key by key. -/
theorem total_tally (hcut : ∀ x, cut (cut x) = cut x) (hg : ∀ b c, g b c = c + amount b)
    (ht : Kept cut t) :
    total x (tally cut 0 key g bs t) =
      total x t + (bs.map fun b => if cut (key b) = x then amount b else 0).sum := by
  induction bs generalizing t with
  | nil => exact (add_zero _).symm
  | cons b bs ih =>
    have hkept : Kept cut (bump cut 0 (key b) (g b) t) := kept_bump hcut ht
    have hstep := ih hkept
    rw [total_bump (hg b) ht, add_assoc] at hstep
    exact hstep

/-- **A table of different keys is its totals.** -/
theorem mem_iff_total (ht : (t.map Prod.fst).Nodup) :
    (x, c) ∈ t ↔ x ∈ t.map Prod.fst ∧ total x t = c := by
  induction t with
  | nil => simp
  | cons e t ih =>
    obtain ⟨he, ht⟩ := List.nodup_cons.mp ht
    rw [List.mem_cons, ih ht, total_cons, List.map_cons, List.mem_cons]
    by_cases hx : e.1 = x
    · subst hx
      rw [if_pos rfl, total_eq_zero he, add_zero]
      constructor
      · rintro (h | ⟨h, -⟩)
        · exact ⟨Or.inl rfl, (congrArg Prod.snd h).symm⟩
        · exact absurd h he
      · rintro ⟨-, rfl⟩
        exact Or.inl rfl
    · have hne : (x, c) ≠ e := fun h => hx (congrArg Prod.fst h).symm
      rw [if_neg hx, zero_add, or_iff_right hne, or_iff_right (Ne.symm hx)]

/-- **Tables put together** are their totals, added up. -/
theorem mem_merged {ι : Type*} {f : κ × C → C → C} {l : List ι} {table : ι → List (κ × C)}
    (hcut : ∀ x, cut (cut x) = cut x) (hf : ∀ e c, f e c = c + e.2)
    (hkept : ∀ i ∈ l, Kept cut (table i)) :
    (x, c) ∈ tally cut 0 Prod.fst f (l.flatMap table) [] ↔
      (∃ i ∈ l, x ∈ (table i).map Prod.fst) ∧ c = (l.map fun i => total x (table i)).sum := by
  have hcutKey : ∀ e ∈ l.flatMap table, cut e.1 = e.1 := fun e he => by
    obtain ⟨i, hi, he⟩ := List.mem_flatMap.mp he
    exact hkept i hi e he
  have hnodup : ((tally cut 0 Prod.fst f (l.flatMap table) []).map Prod.fst).Nodup :=
    nodup_tally hcutKey (by simp)
  have hsum : ((l.flatMap table).map fun e => if cut e.1 = x then e.2 else 0).sum =
      (l.map fun i => total x (table i)).sum := by
    clear hcutKey hnodup
    induction l with
    | nil => rfl
    | cons i l ih =>
      obtain ⟨hi, hl⟩ := List.forall_mem_cons.mp hkept
      rw [List.flatMap_cons, List.map_append, List.sum_append, ih hl, List.map_cons,
        List.sum_cons, total]
      congr 2
      exact List.map_congr_left fun e he => by rw [hi e he]
  rw [mem_iff_total hnodup, mem_keys_tally hcut (List.forall_mem_nil _),
    total_tally hcut hf (List.forall_mem_nil _), hsum, total_eq_zero List.not_mem_nil, zero_add,
    List.map_nil, or_iff_right List.not_mem_nil]
  refine and_congr ?_ eq_comm
  constructor
  · rintro ⟨e, he, rfl⟩
    obtain ⟨i, hi, hei⟩ := List.mem_flatMap.mp he
    exact ⟨i, hi, (hcutKey e he).symm ▸ List.mem_map_of_mem hei⟩
  · rintro ⟨i, hi, hx⟩
    obtain ⟨e, he, rfl⟩ := List.mem_map.mp hx
    have hmem := List.mem_flatMap.mpr ⟨i, hi, he⟩
    exact ⟨e, hmem, hcutKey e hmem⟩

end Totals

end Tallies
