import Mathlib.Data.Set.Basic

/-!
# Views of a state

A state is looked at through `view : σ → ι → γ`, one part for each index. Two states agree
off a set of indices when every other part is the same. An operation confined to one index
leaves the other parts as they are and makes of its own part something that depends on
nothing else, so it keeps any agreement: what is not looked at cannot be told apart.

- `AgreeOff view K`: agreement off `K`, an equivalence.
- `Confined view i f`: `f` reads and writes the part at `i` only, its answer included.
- `Confined.agreeOff`, `Confined.answer_eq`: one operation in two runs.
- `Confined.keeps`: one operation in one run.
- `agreeOff_foldl_keeps`: a list of operations in one run.
- `agreeOff_foldl_filter`: what is looked at depends on those of a list that touch it.
- `SettlesAt view i g`: `g` touches the part at `i` only, and a second time changes nothing more.
- `foldl_settles`: in a list where no other step touches the part, it is as after that step alone.
-/

namespace EpsilonDB

variable {σ ι γ α β : Type}

/-- The states have the same parts off `K`. -/
def AgreeOff (view : σ → ι → γ) (K : Set ι) (s s' : σ) : Prop := ∀ i ∉ K, view s i = view s' i

section AgreeOff

variable {view : σ → ι → γ} {K : Set ι} {s s' s'' : σ}

theorem AgreeOff.refl (view : σ → ι → γ) (K : Set ι) (s : σ) : AgreeOff view K s s :=
  fun _ _ => rfl

theorem AgreeOff.symm (h : AgreeOff view K s s') : AgreeOff view K s' s :=
  fun i hi => (h i hi).symm

theorem AgreeOff.trans (h : AgreeOff view K s s') (h' : AgreeOff view K s' s'') :
    AgreeOff view K s s'' :=
  fun i hi => (h i hi).trans (h' i hi)

end AgreeOff

/-- `f` is confined to the part at `i`: the other parts stay, and what becomes of this one,
like the answer, is a function of it alone. -/
structure Confined (view : σ → ι → γ) (i : ι) (f : σ → α × σ) : Prop where
  frame : ∀ s, ∀ j ≠ i, view (f s).2 j = view s j
  part : ∀ s s', view s i = view s' i → view (f s).2 i = view (f s').2 i
  answer : ∀ s s', view s i = view s' i → (f s).1 = (f s').1

namespace Confined

variable {view : σ → ι → γ} {K : Set ι} {i : ι} {f : σ → α × σ}

/-- Two runs that agree still agree after it, whether `i` is looked at or not. -/
theorem agreeOff (hf : Confined view i f) {s s' : σ} (h : AgreeOff view K s s') :
    AgreeOff view K (f s).2 (f s').2 := by
  intro j hj
  by_cases hji : j = i
  · subst hji
    exact hf.part s s' (h j hj)
  · rw [hf.frame s j hji, hf.frame s' j hji, h j hj]

theorem answer_eq (hf : Confined view i f) (hi : i ∉ K) {s s' : σ} (h : AgreeOff view K s s') :
    (f s).1 = (f s').1 :=
  hf.answer s s' (h i hi)

/-- One run differs from its start at `i` only. -/
theorem keeps (hf : Confined view i f) (hi : i ∈ K) (s : σ) : AgreeOff view K s (f s).2 :=
  fun j hj => (hf.frame s j fun hji => hj (hji ▸ hi)).symm

end Confined

/-- A list of steps keeps the parts that each of them keeps. -/
theorem agreeOff_foldl_keeps {view : σ → ι → γ} {K : Set ι} {step : σ → β → σ} (l : List β)
    (hstep : ∀ b ∈ l, ∀ s, AgreeOff view K s (step s b)) (s : σ) :
    AgreeOff view K s (l.foldl step s) := by
  induction l generalizing s with
  | nil => exact .refl view K s
  | cons b l ih =>
    exact (hstep b List.mem_cons_self s).trans
      (ih (fun c hc => hstep c (List.mem_cons_of_mem b hc)) _)

/-- What is looked at does not depend on steps that leave it as it is. -/
theorem agreeOff_foldl_filter {view : σ → ι → γ} {K : Set ι} {step : σ → β → σ} {q : β → Bool}
    (hagree : ∀ b s s', AgreeOff view K s s' → AgreeOff view K (step s b) (step s' b)) (l : List β)
    (hkeep : ∀ b ∈ l, q b = false → ∀ s, AgreeOff view K s (step s b)) {s s' : σ}
    (h : AgreeOff view K s s') :
    AgreeOff view K (l.foldl step s) ((l.filter q).foldl step s') := by
  induction l generalizing s s' with
  | nil => exact h
  | cons b l ih =>
    have hrest : ∀ c ∈ l, q c = false → ∀ s, AgreeOff view K s (step s c) :=
      fun c hc => hkeep c (List.mem_cons_of_mem b hc)
    cases hb : q b with
    | false =>
      rw [List.filter_cons_of_neg (Bool.eq_false_iff.mp hb)]
      exact ih hrest ((hkeep b List.mem_cons_self hb s).symm.trans h)
    | true =>
      rw [List.filter_cons_of_pos hb]
      exact ih hrest (hagree b s s' h)

/-- `g` settles the part at `i`: the other parts stay, what becomes of this one is a function of
it alone, and doing it again changes nothing. -/
structure SettlesAt (view : σ → ι → γ) (i : ι) (g : σ → σ) : Prop where
  frame : ∀ s, ∀ j ≠ i, view (g s) j = view s j
  part : ∀ s s', view s i = view s' i → view (g s) i = view (g s') i
  again : ∀ s, view (g (g s)) i = view (g s) i

/-- A part that one step of a list settles and the others leave, as often as the step comes, is
what the step makes of it at the start. -/
theorem foldl_settles (view : σ → ι → γ) {i : ι} (step : σ → β → σ) {b : β}
    (hpart : ∀ s s', view s i = view s' i → view (step s b) i = view (step s' b) i)
    (hagain : ∀ s, view (step (step s b) b) i = view (step s b) i) (l : List β)
    (hl : ∀ c ∈ l, c = b ∨ ∀ s, view (step s c) i = view s i) (s : σ) :
    b ∈ l ∧ view (l.foldl step s) i = view (step s b) i ∨
      b ∉ l ∧ view (l.foldl step s) i = view s i := by
  induction l generalizing s with
  | nil => exact .inr ⟨List.not_mem_nil, rfl⟩
  | cons c l ih =>
    obtain ⟨hc, hl⟩ := List.forall_mem_cons.mp hl
    rw [List.foldl_cons]
    rcases hc with rfl | hleaves
    · -- the step itself: what comes later finds its part settled
      refine .inl ⟨List.mem_cons_self, ?_⟩
      rcases ih hl (step s c) with ⟨-, hview⟩ | ⟨-, hview⟩
      · exact hview.trans (hagain s)
      · exact hview
    · rcases ih hl (step s c) with ⟨hmem, hview⟩ | ⟨hmem, hview⟩
      · exact .inl ⟨List.mem_cons_of_mem c hmem, hview.trans (hpart _ _ (hleaves s))⟩
      · by_cases hb : b = c
        · subst hb
          exact .inl ⟨List.mem_cons_self, hview⟩
        · exact .inr ⟨List.not_mem_cons_of_ne_of_not_mem hb hmem, hview.trans (hleaves s)⟩

end EpsilonDB
