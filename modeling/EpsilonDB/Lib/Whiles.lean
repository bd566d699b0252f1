import Mathlib.Data.Nat.Basic

/-!
# Loops that may fault

A loop whose turns may go wrong, run for at most so many of them. A run that needs more is
told apart from one that goes wrong.

- `Run`: a result, a fault, or turns that were not enough.
- `loop`: the turns of a loop.
- `loop_eq`: a loop computes what each of its turns leaves the same, as long as something
  decreases. What the loop holds may be a view of simpler states.
-/

namespace Whiles

universe u v

/-- Why there is no result. -/
inductive Stop (ε : Type u) where
  | endless
  | fault (e : ε)

abbrev Run (ε : Type u) (α : Type v) := Except (Stop ε) α

/-- How a turn ends. -/
inductive Turn (σ : Type u) (α : Type v) where
  | again (s : σ)
  | done (a : α)

variable {ε : Type u} {σ α χ : Type v}

def loop (turn : σ → Run ε (Turn σ α)) : Nat → σ → Run ε α
  | 0, _ => .error .endless
  | n + 1, s => do
    match ← turn s with
    | .again s' => loop turn n s'
    | .done a => .ok a

@[simp] theorem ok_bind {β : Type v} (a : α) (f : α → Run ε β) : (Except.ok a >>= f) = f a := rfl

theorem loop_again {turn : σ → Run ε (Turn σ α)} {n : Nat} {s s' : σ}
    (h : turn s = .ok (.again s')) : loop turn (n + 1) s = loop turn n s' := by
  rw [loop, h]
  rfl

theorem loop_done {turn : σ → Run ε (Turn σ α)} {n : Nat} {s : σ} {a : α}
    (h : turn s = .ok (.done a)) : loop turn (n + 1) s = .ok a := by
  rw [loop, h]
  rfl

/-- **A loop computes** what its turns leave the same. -/
theorem loop_eq {turn : σ → Run ε (Turn σ α)} (view : χ → σ) (Inv : χ → Prop) (μ : χ → Nat)
    (result : χ → α)
    (hturn : ∀ x, Inv x → turn (view x) = .ok (.done (result x)) ∨
      ∃ x', Inv x' ∧ μ x' < μ x ∧ result x' = result x ∧ turn (view x) = .ok (.again (view x')))
    {x : χ} (hx : Inv x) {n : Nat} (hn : μ x < n) :
    loop turn n (view x) = .ok (result x) := by
  induction n generalizing x with
  | zero => omega
  | succ n ih =>
    rcases hturn x hx with hdone | ⟨x', hx', hlt, hsame, hagain⟩
    · exact loop_done hdone
    · rw [loop_again hagain, ← hsame]
      exact ih hx' (by omega)

end Whiles
