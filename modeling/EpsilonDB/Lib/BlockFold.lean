import Mathlib.Data.List.Basic
import Mathlib.Algebra.Group.Nat.Defs

/-!
# Folds over the blocks of a stream

A function on blocks of one length, folded over a text that arrives piece by piece: what is
not a whole block yet waits in a buffer.

- `blocks B m`, `rest B m`: the whole blocks of a text, and what follows the last of them.
- `foldBlocks f B s m`: the fold.
- `foldBlocks_fits`, `foldBlocks_fills`: a piece that fits the buffer, and one that fills it.
  These are the two steps of a machine that holds `foldBlocks f B s m` and `rest B m` of what
  it has read.
-/

namespace BlockFold

variable {α σ : Type*}

/-- The whole blocks of `B` elements. -/
def blocks (B : Nat) (m : List α) : List (List α) :=
  (List.range (m.length / B)).map fun i => (m.drop (B * i)).take B

/-- What follows the last whole block. -/
def rest (B : Nat) (m : List α) : List α := m.drop (B * (m.length / B))

/-- `f` over the whole blocks, from the first. -/
def foldBlocks (f : σ → List α → σ) (B : Nat) (s : σ) (m : List α) : σ :=
  (blocks B m).foldl f s

variable {B : Nat} {m n c : List α}

theorem rest_suffix (B : Nat) (m : List α) : m.take (B * (m.length / B)) ++ rest B m = m :=
  List.take_append_drop _ m

@[simp] theorem length_rest (B : Nat) (m : List α) : (rest B m).length = m.length % B := by
  rw [rest, List.length_drop, Nat.mod_eq_sub]

@[simp] theorem blocks_nil (B : Nat) : blocks B ([] : List α) = [] := by
  rw [blocks, List.length_nil, Nat.zero_div, List.range_zero, List.map_nil]

@[simp] theorem rest_nil (B : Nat) : rest B ([] : List α) = [] := List.drop_nil

/-- A text of whole blocks splits off. -/
theorem blocks_append (hB : 0 < B) (h : B ∣ m.length) :
    blocks B (m ++ n) = blocks B m ++ blocks B n := by
  obtain ⟨k, hk⟩ := h
  have hdiv : (m ++ n).length / B = m.length / B + n.length / B := by
    rw [List.length_append, hk, Nat.mul_add_div hB, Nat.mul_div_cancel_left k hB]
  have hm : m.length / B = k := by rw [hk, Nat.mul_div_cancel_left k hB]
  rw [blocks, hdiv, List.range_add, List.map_append, List.map_map, hm]
  congr 1
  · rw [blocks, hm]
    refine List.map_congr_left fun i hi => ?_
    have hroom : B * (i + 1) ≤ B * k := Nat.mul_le_mul_left B (List.mem_range.mp hi)
    have hle : B * i + B ≤ m.length := by rw [hk, ← Nat.mul_succ]; exact hroom
    rw [List.drop_append_of_le_length (by omega), List.take_append_of_le_length]
    rw [List.length_drop]
    omega
  · refine List.map_congr_left fun i _ => ?_
    show ((m ++ n).drop (B * (k + i))).take B = (n.drop (B * i)).take B
    rw [Nat.mul_add, ← hk, List.drop_append, List.drop_of_length_le (by omega), List.nil_append,
      Nat.add_sub_cancel_left]

theorem blocks_of_lt (h : m.length < B) : blocks B m = [] := by
  rw [blocks, Nat.div_eq_of_lt h, List.range_zero, List.map_nil]

theorem blocks_of_eq (hB : 0 < B) (h : m.length = B) : blocks B m = [m] := by
  rw [blocks, h, Nat.div_self hB]
  show [(m.drop (B * 0)).take B] = [m]
  rw [Nat.mul_zero, List.drop_zero, List.take_of_length_le (Nat.le_of_eq h)]

/-- A text, by its whole blocks and what follows them. -/
theorem blocks_append_rest (hB : 0 < B) :
    blocks B (m ++ c) = blocks B m ++ blocks B (rest B m ++ c) := by
  have hwhole : (m.take (B * (m.length / B))).length = B * (m.length / B) :=
    List.length_take_of_le (Nat.mul_div_le _ _)
  have hdvd : B ∣ (m.take (B * (m.length / B))).length := ⟨_, hwhole⟩
  have hself : blocks B m = blocks B (m.take (B * (m.length / B))) := by
    conv_lhs => rw [← rest_suffix B m]
    rw [blocks_append hB hdvd, blocks_of_lt (m := rest B m), List.append_nil]
    rw [length_rest]
    exact Nat.mod_lt _ hB
  rw [hself, ← blocks_append hB hdvd, ← List.append_assoc, rest_suffix]

theorem rest_eq_self (h : m.length < B) : rest B m = m := by
  rw [rest, Nat.div_eq_of_lt h, Nat.mul_zero, List.drop_zero]

theorem rest_append_rest (hB : 0 < B) : rest B (m ++ c) = rest B (rest B m ++ c) := by
  have hm := Nat.div_add_mod m.length B
  have hdiv : (m ++ c).length / B = m.length / B + (rest B m ++ c).length / B := by
    rw [List.length_append, List.length_append, length_rest]
    conv_lhs => rw [← hm, Nat.add_assoc, Nat.mul_add_div hB]
  have hdrop : (m ++ c).drop (B * (m.length / B)) = rest B m ++ c := by
    rw [List.drop_append_of_le_length (Nat.mul_div_le _ _), rest]
  rw [rest, hdiv, Nat.mul_add, ← List.drop_drop, hdrop]
  rfl

section Fold

variable (f : σ → List α → σ) (s : σ)

@[simp] theorem foldBlocks_nil : foldBlocks f B s [] = s := by
  rw [foldBlocks, blocks_nil, List.foldl_nil]

/-- **A piece that fits the buffer** leaves the fold as it is. -/
theorem foldBlocks_fits (hB : 0 < B) (h : (rest B m ++ c).length < B) :
    foldBlocks f B s (m ++ c) = foldBlocks f B s m ∧ rest B (m ++ c) = rest B m ++ c := by
  constructor
  · rw [foldBlocks, blocks_append_rest hB, blocks_of_lt h, List.append_nil, foldBlocks]
  · rw [rest_append_rest hB, rest_eq_self h]

/-- **A piece that fills the buffer** is one more step of the fold. -/
theorem foldBlocks_fills (hB : 0 < B) (h : (rest B m ++ c).length = B) :
    foldBlocks f B s (m ++ c) = f (foldBlocks f B s m) (rest B m ++ c) ∧
      rest B (m ++ c) = [] := by
  constructor
  · rw [foldBlocks, blocks_append_rest hB, blocks_of_eq hB h, List.foldl_append, foldBlocks]
    rfl
  · rw [← List.length_eq_zero_iff, rest_append_rest hB, length_rest, h, Nat.mod_self]

end Fold

end BlockFold
