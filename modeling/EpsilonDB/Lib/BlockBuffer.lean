import EpsilonDB.Lib.BlockFold
import Mathlib

/-!
# Machines with a block of buffer

A machine that folds a function over the blocks of a text and copies what arrives into a buffer of
one block. A piece is cut at the end of the buffer as often as it reaches it.

- `Ctx`: the folded value, the buffer, and how much of it is in use. It is never full.
- `turn`, `update`: one cut of a piece, and the whole piece.
- `Reads`: the machine holds what `BlockFold` has of a text. `Reads.update`: any piece more.
- `fill`: the same element until so much of the buffer is in use. `Reads.fill`.
-/

namespace BlockBuffer

open BlockFold

variable {α σ : Type*} {B : Nat}

/-- A machine with a buffer of `B` elements. -/
structure Ctx (α σ : Type*) (B : Nat) where
  state : σ
  buffer : Vector α B
  buflen : Fin B

/-- A copy into the buffer, inside its bounds. -/
def copy (buffer : Vector α B) (buflen : Nat) (data : List α) (h : buflen + data.length ≤ B) :
    Vector α B :=
  ⟨(buffer.toList.take buflen ++ data ++ buffer.toList.drop (buflen + data.length)).toArray, by
    simp
    omega⟩

/-- How much of a piece is taken next. -/
def room (ctx : Ctx α σ B) (data : List α) : Nat := min (B - ctx.buflen) data.length

theorem length_take_room (ctx : Ctx α σ B) (data : List α) :
    ctx.buflen + (data.take (room ctx data)).length ≤ B := by
  rw [room, List.length_take]
  omega

section Machine

variable [NeZero B] (f : σ → List α → σ)

/-- One cut of a piece. -/
def turn (ctx : Ctx α σ B) (data : List α) : Ctx α σ B :=
  let buffer := copy ctx.buffer ctx.buflen (data.take (room ctx data)) (length_take_room ctx data)
  if h : ctx.buflen + room ctx data = B then
    { state := f ctx.state buffer.toList, buffer, buflen := 0 }
  else
    { state := ctx.state
      buffer
      buflen := ⟨ctx.buflen + room ctx data, by
        have hle : room ctx data ≤ B - ctx.buflen := Nat.min_le_left _ _
        omega⟩ }

/-- A whole piece. -/
def update (ctx : Ctx α σ B) : List α → Ctx α σ B
  | [] => ctx
  | b :: data => update (turn f ctx (b :: data)) ((b :: data).drop (room ctx (b :: data)))
termination_by data => data.length
decreasing_by
  rw [List.length_drop, List.length_cons, room, List.length_cons]
  omega

end Machine

variable {f : σ → List α → σ} {s : σ} {m data : List α} {ctx : Ctx α σ B}

/-- What the machine holds of the text `m` it has read, from the value `s`. -/
def Reads (f : σ → List α → σ) (s : σ) (m : List α) (ctx : Ctx α σ B) : Prop :=
  ctx.state = foldBlocks f B s m ∧ ctx.buffer.toList.take ctx.buflen = rest B m

theorem reads_nil [NeZero B] (buffer : Vector α B) : Reads f s [] ⟨s, buffer, 0⟩ :=
  ⟨(foldBlocks_nil _ _).symm, by rw [rest_nil]; exact List.take_zero⟩

theorem Reads.buflen_eq (h : Reads f s m ctx) : (ctx.buflen : Nat) = m.length % B := by
  rw [← length_rest, ← h.2, List.length_take, Vector.length_toList]
  omega

/-- What a copy leaves at the front of the buffer. -/
theorem take_copy (buffer : Vector α B) {buflen : Nat} {data : List α}
    (h : buflen + data.length ≤ B) :
    (copy buffer buflen data h).toList.take (buflen + data.length) =
      buffer.toList.take buflen ++ data := by
  refine List.take_left' ?_
  rw [List.length_append, List.length_take, Vector.length_toList]
  omega

/-- How many elements there are from the end of what is in use to `p`, around at the end of the
buffer. -/
def gap (B p q : Nat) : Nat := (B + p - q) % B

theorem gap_succ {p q : Nat} (hp : p < B) (hq : q < B) (hne : q ≠ p) :
    gap B p q = gap B p ((q + 1) % B) + 1 := by
  rw [gap, gap]
  rcases Nat.lt_or_gt_of_ne hne with h | h
  · rw [Nat.mod_eq_of_lt (show q + 1 < B by omega),
      show B + p - (q + 1) = (p - (q + 1)) + B by omega,
      show B + p - q = (p - q) + B by omega, Nat.add_mod_right, Nat.add_mod_right,
      Nat.mod_eq_of_lt (by omega), Nat.mod_eq_of_lt (by omega)]
    omega
  · rw [Nat.mod_eq_of_lt (show B + p - q < B by omega)]
    rcases (show q + 1 ≤ B by omega).lt_or_eq with hend | hend
    · rw [Nat.mod_eq_of_lt hend, Nat.mod_eq_of_lt (by omega)]
      omega
    · rw [hend, Nat.mod_self, show B + p - 0 = p + B by omega, Nat.add_mod_right,
        Nat.mod_eq_of_lt hp]
      omega

section Reading

variable [NeZero B]

/-- **One cut** reads what it takes. -/
theorem Reads.turn (h : Reads f s m ctx) (data : List α) :
    Reads f s (m ++ data.take (room ctx data)) (turn f ctx data) := by
  have hB : 0 < B := Nat.pos_of_ne_zero (NeZero.ne B)
  have hlen : (data.take (room ctx data)).length = room ctx data :=
    List.length_take_of_le (Nat.min_le_right _ _)
  have hcopy := take_copy ctx.buffer (length_take_room ctx data)
  rw [h.2, hlen] at hcopy
  have hroom : (rest B m ++ data.take (room ctx data)).length = ctx.buflen + room ctx data := by
    rw [List.length_append, length_rest, h.buflen_eq, hlen]
  rw [BlockBuffer.turn]
  split
  · next hfull =>
    obtain ⟨hfold, hrest⟩ := foldBlocks_fills f s hB (hroom.trans hfull)
    rw [hfull, List.take_of_length_le (by rw [Vector.length_toList])] at hcopy
    exact ⟨by rw [hfold, ← h.1, ← hcopy], hrest.symm⟩
  · next hfull =>
    have hle : room ctx data ≤ B - ctx.buflen := Nat.min_le_left _ _
    obtain ⟨hfold, hrest⟩ := foldBlocks_fits f s hB
      (show (rest B m ++ data.take (room ctx data)).length < B by omega)
    exact ⟨by rw [hfold, ← h.1], by rw [hrest, ← hcopy]⟩

/-- **Any piece more.** -/
theorem Reads.update (h : Reads f s m ctx) (data : List α) :
    Reads f s (m ++ data) (update f ctx data) := by
  fun_induction BlockBuffer.update f ctx data generalizing m with
  | case1 ctx =>
    rw [List.append_nil]
    exact h
  | case2 ctx b data ih =>
    have hnext := ih (h.turn (b :: data))
    rwa [List.append_assoc, List.take_append_drop] at hnext

/-- One element moves the end of what is in use on, around at the end of the buffer. -/
theorem buflen_update_one (ctx : Ctx α σ B) (b : α) :
    ((BlockBuffer.update f ctx [b]).buflen : Nat) = (ctx.buflen + 1) % B := by
  have hB : 0 < B := Nat.pos_of_ne_zero (NeZero.ne B)
  have hroom : ∀ ctx : Ctx α σ B, room ctx [b] = 1 := by
    intro ctx
    rw [room, List.length_singleton]
    omega
  rw [BlockBuffer.update, hroom, List.drop_one, List.tail_cons, BlockBuffer.update,
    BlockBuffer.turn]
  split
  · next hfull =>
    rw [hroom] at hfull
    show ((0 : Fin B) : Nat) = (ctx.buflen + 1 : Nat) % B
    rw [show (ctx.buflen + 1 : Nat) = B from hfull, Nat.mod_self]
    rfl
  · next hfull =>
    rw [hroom] at hfull
    show ctx.buflen + room _ [b] = (ctx.buflen + 1 : Nat) % B
    rw [hroom, Nat.mod_eq_of_lt]
    have hne : (ctx.buflen + 1 : Nat) ≠ B := hfull
    omega

variable (f) in
/-- The same element, one by one, until `p` elements are in use. -/
def fill (b : α) (p : Fin B) (ctx : Ctx α σ B) : Ctx α σ B :=
  if ctx.buflen = p then ctx else fill b p (BlockBuffer.update f ctx [b])
termination_by gap B p ctx.buflen
decreasing_by
  rename_i hne
  rw [buflen_update_one, gap_succ p.isLt ctx.buflen.isLt fun h => hne (Fin.ext h)]
  exact Nat.lt_succ_self _

/-- **The filling loop** ends, after the fewest elements that bring the end to `p`. -/
theorem Reads.fill {b : α} {p : Fin B} (h : Reads f s m ctx) :
    Reads f s (m ++ List.replicate (gap B p (m.length % B)) b) (fill f b p ctx) := by
  induction ctx using BlockBuffer.fill.induct f b p generalizing m with
  | case1 ctx heq =>
    rw [BlockBuffer.fill, if_pos heq, ← h.buflen_eq, heq, gap, Nat.add_sub_cancel, Nat.mod_self]
    exact (List.append_nil m).symm ▸ h
  | case2 ctx hne ih =>
    have hgap := gap_succ p.isLt ctx.buflen.isLt fun heq => hne (Fin.ext heq)
    have hnext : (m ++ [b]).length % B = (ctx.buflen + 1) % B := by
      rw [h.buflen_eq, List.length_append, List.length_singleton, Nat.mod_add_mod]
    rw [BlockBuffer.fill, if_neg hne, ← h.buflen_eq, hgap, List.replicate_succ, List.append_cons,
      ← hnext]
    exact ih (h.update [b])

end Reading

end BlockBuffer
