import Mathlib.Data.Finset.Card
import Mathlib.Logic.Relation

/-!
# Loops over finitely many states

A loop takes turns. A turn looks at the state alone: it stops with a result, or goes on with
another state and some output.

- `loop`: so many turns of it, if it stops by then.
- `Ends`: the loop stops, with a result and all of its output. `ends_iff`: so it does after
  enough turns.
- `Goes`: the state that a turn goes on with. `ends_iff_goes`: the loop stops at a state that
  it comes to.
- `after`: the state after so many turns. `exists_after_eq`: among finitely many states a
  loop that takes more turns than there are states has come round.
- `loop_enough`: one turn more than there are states is enough.
-/

namespace Loops

universe u v w

/-- What a turn does. -/
inductive Turn (K : Type u) (A : Type v) (R : Type w) where
  | stop (r : R)
  | go (k : K) (out : List A)

variable {K : Type u} {A : Type v} {R : Type w} (turn : K → Turn K A R)

/-- At most so many turns, with the output before them. -/
def loop : Nat → K → List A → Option (R × List A)
  | 0, _, _ => none
  | n + 1, k, acc =>
    match turn k with
    | .stop r => some (r, acc)
    | .go k' out => loop n k' (acc ++ out)

/-- The loop stops. -/
inductive Ends : K → R → List A → Prop where
  | stop {k : K} {r : R} (h : turn k = .stop r) : Ends k r []
  | go {k k' : K} {r : R} {out outs : List A} (h : turn k = .go k' out)
      (hrest : Ends k' r outs) : Ends k r (out ++ outs)

/-- The state after so many turns, when it goes on for so long. -/
def after : Nat → K → Option K
  | 0, k => some k
  | n + 1, k =>
    match turn k with
    | .stop _ => none
    | .go k' _ => after n k'

variable {turn} {k k' : K} {r : R} {acc outs : List A} {n m : Nat}

theorem loop_of_ends (h : Ends turn k r outs) (acc : List A) :
    ∃ n, loop turn n k acc = some (r, acc ++ outs) := by
  induction h generalizing acc with
  | stop h =>
    refine ⟨1, ?_⟩
    rw [loop, h, List.append_nil]
  | @go _ _ _ out _ h _ ih =>
    obtain ⟨n, hn⟩ := ih (acc ++ out)
    refine ⟨n + 1, ?_⟩
    rw [loop, h, ← List.append_assoc]
    exact hn

theorem ends_of_loop (h : loop turn n k acc = some (r, outs)) :
    ∃ outs', outs = acc ++ outs' ∧ Ends turn k r outs' := by
  induction n generalizing k acc with
  | zero => cases h
  | succ n ih =>
    unfold loop at h
    split at h
    · next hturn =>
      cases h
      exact ⟨[], (List.append_nil outs).symm, .stop hturn⟩
    · next hturn =>
      obtain ⟨outs', rfl, hends⟩ := ih h
      exact ⟨_, List.append_assoc .., .go hturn hends⟩

/-- **A loop stops** when it does after some number of turns. -/
theorem ends_iff : Ends turn k r outs ↔ ∃ n, loop turn n k [] = some (r, outs) := by
  constructor
  · intro h
    simpa using loop_of_ends h []
  · rintro ⟨n, h⟩
    obtain ⟨outs', rfl, hends⟩ := ends_of_loop h
    exact hends

/-- A turn goes on with another state. -/
def Goes (turn : K → Turn K A R) (k k' : K) : Prop := ∃ out, turn k = .go k' out

/-- A loop stops at a state that it comes to. -/
theorem ends_iff_goes :
    (∃ outs, Ends turn k r outs) ↔ ∃ k', Relation.ReflTransGen (Goes turn) k k' ∧
      turn k' = .stop r := by
  constructor
  · rintro ⟨outs, h⟩
    induction h with
    | stop h => exact ⟨_, .refl, h⟩
    | go h _ ih =>
      obtain ⟨k', hreach, hstop⟩ := ih
      exact ⟨k', .head ⟨_, h⟩ hreach, hstop⟩
  · rintro ⟨k', hreach, hstop⟩
    induction hreach using Relation.ReflTransGen.head_induction_on with
    | refl => exact ⟨[], .stop hstop⟩
    | head hgo _ ih =>
      obtain ⟨out, hgo⟩ := hgo
      obtain ⟨outs, hends⟩ := ih
      exact ⟨_, .go hgo hends⟩

theorem loop_mono {r : R × List A} (h : loop turn n k acc = some r) (hle : n ≤ m) :
    loop turn m k acc = some r := by
  induction n generalizing k acc m with
  | zero => cases h
  | succ n ih =>
    cases m with
    | zero => omega
    | succ m =>
      unfold loop at h ⊢
      split at h
      · exact h
      · exact ih h (by omega)

/-- The loop has not stopped exactly when there is a state after its turns. -/
theorem loop_eq_none_iff : loop turn n k acc = none ↔ after turn n k ≠ none := by
  induction n generalizing k acc with
  | zero => simp [loop, after]
  | succ n ih =>
    unfold loop after
    split
    · simp
    · exact ih

theorem after_add (n m : Nat) (k : K) :
    after turn (n + m) k = (after turn n k).bind (after turn m) := by
  induction n generalizing k with
  | zero => rw [Nat.zero_add]; rfl
  | succ n ih =>
    rw [Nat.add_right_comm, after, after]
    cases turn k with
    | stop r => rfl
    | go k' out => exact ih k'

/-- A state that comes round comes round again. -/
theorem after_of_comes_round {i p : Nat} (h : after turn (i + p) k = after turn i k) (n : Nat) :
    after turn (i + n * p) k = after turn i k := by
  induction n with
  | zero => rw [Nat.zero_mul, Nat.add_zero]
  | succ n ih =>
    rw [Nat.succ_mul, ← Nat.add_assoc, after_add, ih, ← after_add, h]

theorem after_ne_none_of_le (h : after turn n k ≠ none) (hle : m ≤ n) : after turn m k ≠ none := by
  intro hm
  obtain ⟨d, rfl⟩ := Nat.exists_eq_add_of_le hle
  rw [after_add, hm] at h
  exact h rfl

variable {s : Finset K}

/-- Among finitely many states, a loop that goes on comes round. -/
theorem exists_after_eq (hs : ∀ k k' out, turn k = .go k' out → k' ∈ s)
    (h : after turn (s.card + 1) k ≠ none) :
    ∃ i p, 0 < p ∧ after turn (i + p) k = after turn i k ∧ after turn i k ≠ none := by
  have hmem : ∀ i, after turn (i + 1) k ≠ none → ∃ k' ∈ s, after turn (i + 1) k = some k' := by
    intro i hi
    obtain ⟨k₁, hk₁⟩ := Option.ne_none_iff_exists'.mp
      (after_ne_none_of_le hi (Nat.le_succ i))
    have hstep : after turn (i + 1) k = after turn 1 k₁ := by
      rw [after_add, hk₁]
      rfl
    rw [hstep] at hi ⊢
    unfold after at hi ⊢
    split at hi
    · exact absurd rfl hi
    · next k₂ out hturn => exact ⟨k₂, hs _ _ _ hturn, rfl⟩
  -- one turn more than there are states: two of them end in one state
  have hstates : ∀ i ∈ Finset.range (s.card + 1), ∃ k' ∈ s, after turn (i + 1) k = some k' := by
    intro i hi
    exact hmem i (after_ne_none_of_le h (Finset.mem_range.mp hi))
  have : Nonempty K := ⟨k⟩
  choose! f hf using hstates
  obtain ⟨i, hi, j, hj, hne, heq⟩ := Finset.exists_ne_map_eq_of_card_lt_of_maps_to
    (s := Finset.range (s.card + 1)) (t := s) (f := f) (by simp) (fun i hi => (hf i hi).1)
  have hround : ∀ i j, i ∈ Finset.range (s.card + 1) → j ∈ Finset.range (s.card + 1) → i < j →
      f i = f j → ∃ i p, 0 < p ∧ after turn (i + p) k = after turn i k ∧ after turn i k ≠ none := by
    intro i j hi hj hlt heq
    refine ⟨i + 1, j - i, by omega, ?_, ?_⟩
    · rw [show i + 1 + (j - i) = j + 1 by omega, (hf i hi).2, (hf j hj).2, heq]
    · rw [(hf i hi).2]
      exact Option.some_ne_none _
  rcases Nat.lt_or_gt_of_ne hne with hlt | hlt
  · exact hround i j hi hj hlt heq
  · exact hround j i hj hi hlt heq.symm

/-- **One turn more than there are states** is enough: a loop that has not stopped by then
never stops. -/
theorem loop_enough (hs : ∀ k k' out, turn k = .go k' out → k' ∈ s) (hle : s.card + 1 ≤ n)
    (k : K) (acc : List A) : loop turn n k acc = loop turn (s.card + 1) k acc := by
  cases h : loop turn (s.card + 1) k acc with
  | some r => exact loop_mono h hle
  | none =>
    obtain ⟨i, p, hp, hround, hi⟩ := exists_after_eq hs (loop_eq_none_iff.mp h)
    have hfar : after turn (i + n * p) k ≠ none := by
      rw [after_of_comes_round hround n]
      exact hi
    have hlate : n ≤ i + n * p := le_trans (Nat.le_mul_of_pos_right n hp) (Nat.le_add_left _ i)
    exact loop_eq_none_iff.mpr (after_ne_none_of_le hfar hlate)

end Loops
