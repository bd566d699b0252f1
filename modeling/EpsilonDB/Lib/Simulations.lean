import Mathlib.Data.List.Basic

/-!
# Programs over two kinds of states

A program reads and changes a state and gives an answer. Where related states are read alike and
changed alike, two programs give the same answers, one call after the other.

- `Agree`: from related states, the same answer and related states; `Agree.andThen` and
  `Agree.foldl` put programs together.
- `answers`, `answers_eq`: the answers of a whole run.
-/

namespace Simulations

variable {σ τ α β γ L : Type*}

/-- The programs answer alike from related states, and end in related states. -/
def Agree (R : σ → τ → Prop) (f : σ → α × σ) (g : τ → α × τ) : Prop :=
  ∀ s t, R s t → (f s).1 = (g t).1 ∧ R (f s).2 (g t).2

namespace Agree

variable {R : σ → τ → Prop} {f f' : σ → α × σ} {g g' : τ → α × τ}

/-- An answer that is known. -/
theorem known (a : α) : Agree R (fun s => (a, s)) (fun t => (a, t)) := fun _ _ h => ⟨rfl, h⟩

/-- One program after the other. -/
theorem andThen (h : Agree R f g) {k : α → σ → β × σ} {l : α → τ → β × τ}
    (hk : ∀ a, Agree R (k a) (l a)) :
    Agree R (fun s => k (f s).1 (f s).2) (fun t => l (g t).1 (g t).2) := by
  intro s t hst
  obtain ⟨hanswer, hstate⟩ := h s t hst
  show (k (f s).1 (f s).2).1 = (l (g t).1 (g t).2).1 ∧ R (k (f s).1 (f s).2).2 (l (g t).1 (g t).2).2
  rw [hanswer]
  exact hk (g t).1 _ _ hstate

theorem ite {c : Prop} [Decidable c] (h : Agree R f g) (h' : Agree R f' g') :
    Agree R (fun s => if c then f s else f' s) (fun t => if c then g t else g' t) := by
  by_cases hc : c
  · simpa only [if_pos hc] using h
  · simpa only [if_neg hc] using h'

/-- **A loop** whose rounds agree. -/
theorem foldl {k : γ → α → σ → α × σ} {l : γ → α → τ → α × τ}
    (h : ∀ c a, Agree R (k c a) (l c a)) (cs : List γ) (a : α) :
    Agree R (fun s => cs.foldl (fun p c => k c p.1 p.2) (a, s))
      (fun t => cs.foldl (fun p c => l c p.1 p.2) (a, t)) := by
  induction cs generalizing a with
  | nil => exact known a
  | cons c cs ih => exact andThen (h c a) ih

/-- A loop whose answers nobody looks at. -/
theorem foldl_state {k : γ → σ → α × σ} {l : γ → τ → α × τ} (h : ∀ c, Agree R (k c) (l c))
    (cs : List γ) {s : σ} {t : τ} (hst : R s t) :
    R (cs.foldl (fun s c => (k c s).2) s) (cs.foldl (fun t c => (l c t).2) t) := by
  induction cs generalizing s t with
  | nil => exact hst
  | cons c cs ih => exact ih (h c s t hst).2

end Agree

/-- The answers of a run. -/
def answers (step : L → σ → α × σ) : List L → σ → List α
  | [], _ => []
  | l :: ls, s => (step l s).1 :: answers step ls (step l s).2

/-- **A run** of one is a run of the other. -/
theorem answers_eq {R : σ → τ → Prop} {step : L → σ → α × σ} {step' : L → τ → α × τ}
    (h : ∀ l, Agree R (step l) (step' l)) (ls : List L) {s : σ} {t : τ} (hst : R s t) :
    answers step ls s = answers step' ls t := by
  induction ls generalizing s t with
  | nil => rfl
  | cons l ls ih =>
    obtain ⟨hanswer, hstate⟩ := h l s t hst
    rw [answers, answers, hanswer, ih hstate]

end Simulations
