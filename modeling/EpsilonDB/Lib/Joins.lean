import Mathlib.Data.Set.Basic
import Mathlib.Data.List.Perm.Basic
import Mathlib.Order.Defs.LinearOrder

/-!
# Messages that commute

A state takes in messages, one after the other. Where two messages commute, and a message that
comes again does nothing, what a state ends as depends on the set of the messages only: neither
their order nor their repetitions matter.

- `Joins`: the messages of a set commute and are idempotent.
- `Joins.foldl_of_mem`, `Joins.foldl_congr`: so it ends, and a message that comes once more
  changes nothing.
- `newer`, `joins_newer`: the value with the greater key wins, and values of one key are equal.
- `Joins.comap`, `Joins.prod`, `Joins.pi`: parts of the messages, and states of several parts.
-/

universe u v

/-- The messages of `ds` commute, and a second time they do nothing. -/
structure Joins {σ : Type u} {δ : Type v} (f : σ → δ → σ) (ds : Set δ) : Prop where
  comm : ∀ s, ∀ x ∈ ds, ∀ y ∈ ds, f (f s x) y = f (f s y) x
  idem : ∀ s, ∀ x ∈ ds, f (f s x) x = f s x

namespace Joins

variable {σ : Type u} {δ : Type v} {f : σ → δ → σ} {ds : Set δ} {l l' : List δ}

/-- The order does not matter. -/
theorem foldl_perm (h : Joins f ds) (hl : ∀ x ∈ l, x ∈ ds) (hp : l.Perm l') (s : σ) :
    l.foldl f s = l'.foldl f s :=
  hp.foldl_eq' (fun x hx y hy z => h.comm z x (hl x hx) y (hl y hy)) s

/-- **A message that comes once more** changes nothing. -/
theorem foldl_of_mem (h : Joins f ds) (hl : ∀ x ∈ l, x ∈ ds) {x : δ} (hx : x ∈ l) (s : σ) :
    f (l.foldl f s) x = l.foldl f s := by
  obtain ⟨l₁, l₂, rfl⟩ := List.append_of_mem hx
  have hlast : (l₁ ++ x :: l₂).Perm (l₁ ++ l₂ ++ [x]) :=
    List.perm_middle.trans (List.perm_append_singleton x _).symm
  rw [h.foldl_perm hl hlast, List.foldl_append]
  exact h.idem _ x (hl x hx)

theorem foldl_of_subset (h : Joins f ds) (hl : ∀ x ∈ l, x ∈ ds) (hsub : ∀ x ∈ l', x ∈ l) (s : σ) :
    l'.foldl f (l.foldl f s) = l.foldl f s := by
  induction l' with
  | nil => rfl
  | cons x l' ih =>
    rw [List.foldl_cons, h.foldl_of_mem hl (hsub x List.mem_cons_self)]
    exact ih fun y hy => hsub y (List.mem_cons_of_mem x hy)

/-- **The end depends on the set of the messages.** -/
theorem foldl_congr (h : Joins f ds) (hl : ∀ x ∈ l, x ∈ ds) (hsame : ∀ x, x ∈ l ↔ x ∈ l')
    (s : σ) : l.foldl f s = l'.foldl f s := by
  have hl' : ∀ x ∈ l', x ∈ ds := fun x hx => hl x ((hsame x).mpr hx)
  have hboth : ∀ x ∈ l ++ l', x ∈ ds := fun x hx =>
    (List.mem_append.mp hx).elim (hl x) (hl' x)
  calc l.foldl f s
    _ = l'.foldl f (l.foldl f s) := (h.foldl_of_subset hl (fun x => (hsame x).mpr) s).symm
    _ = (l ++ l').foldl f s := List.foldl_append.symm
    _ = (l' ++ l).foldl f s := h.foldl_perm hboth List.perm_append_comm s
    _ = l.foldl f (l'.foldl f s) := List.foldl_append
    _ = l'.foldl f s := h.foldl_of_subset hl' (fun x => (hsame x).mp) s

/-- A part of each message. -/
theorem comap {ε : Type v} {es : Set ε} {g : ε → δ} (h : Joins f (g '' es)) :
    Joins (fun s x => f s (g x)) es where
  comm := fun s x hx y hy => h.comm s (g x) ⟨x, hx, rfl⟩ (g y) ⟨y, hy, rfl⟩
  idem := fun s x hx => h.idem s (g x) ⟨x, hx, rfl⟩

/-- Two parts, each with its own part of a message. -/
theorem prod {σ' : Type u} {f' : σ' → δ → σ'} (h : Joins f ds) (h' : Joins f' ds) :
    Joins (fun (s : σ × σ') x => (f s.1 x, f' s.2 x)) ds where
  comm := fun s x hx y hy => Prod.ext (h.comm s.1 x hx y hy) (h'.comm s.2 x hx y hy)
  idem := fun s x hx => Prod.ext (h.idem s.1 x hx) (h'.idem s.2 x hx)

/-- A part for each index. -/
theorem pi {ι : Type v} {f : ι → σ → δ → σ} (h : ∀ i, Joins (f i) ds) :
    Joins (fun (s : ι → σ) x i => f i (s i) x) ds where
  comm := fun s x hx y hy => funext fun i => (h i).comm (s i) x hx y hy
  idem := fun s x hx => funext fun i => (h i).idem (s i) x hx

end Joins

section Newer

variable {α : Type u} {κ : Type v} [LinearOrder κ] (key : α → κ)

/-- The value with the greater key; the first one when there is none. -/
def newer (a b : α) : α := if key a < key b then b else a

theorem key_newer (a b : α) : key (newer key a b) = max (key a) (key b) := by
  unfold newer
  split
  · rename_i hlt
    exact (max_eq_right hlt.le).symm
  · rename_i hge
    exact (max_eq_left (not_lt.mp hge)).symm

/-- Of two messages the greater one decides, whichever comes first. -/
theorem newer_of_lt {x y : α} (h : key x < key y) (s : α) :
    newer key (newer key s x) y = newer key s y ∧ newer key (newer key s y) x = newer key s y := by
  unfold newer
  by_cases hx : key s < key x
  · rw [if_pos hx, if_pos h, if_pos (hx.trans h)]
    exact ⟨rfl, if_neg h.not_gt⟩
  · rw [if_neg hx]
    refine ⟨rfl, ?_⟩
    split
    · exact if_neg h.not_gt
    · rfl

/-- The newer value joins, where values of one key are equal. -/
theorem joins_newer {ds : Set α} (huniq : ∀ x ∈ ds, ∀ y ∈ ds, key x = key y → x = y) :
    Joins (newer key) ds where
  comm := by
    intro s x hx y hy
    rcases lt_trichotomy (key x) (key y) with hlt | heq | hlt
    · obtain ⟨hfirst, hlast⟩ := newer_of_lt key hlt s
      exact hfirst.trans hlast.symm
    · rw [huniq x hx y hy heq]
    · obtain ⟨hfirst, hlast⟩ := newer_of_lt key hlt s
      exact hlast.trans hfirst.symm
  idem := by
    intro s x _
    unfold newer
    by_cases hx : key s < key x
    · rw [if_pos hx, if_neg (lt_irrefl _)]
    · rw [if_neg hx, if_neg hx]

end Newer
