import Mathlib.Data.List.Basic

/-!
# Streams that arrive in chunks

A stream socket delivers the bytes it was given but not the boundaries they were
written with. What is still to arrive is a list of chunks; a read takes what is left
of the first one, or as much of it as there is room for.

- `recv room cs`: one read. It returns nothing only at the end of the stream.
- `readFull n cs`: reads repeated until `n` elements are there.
- `Decodes enc out dec`: `dec` reads back what `enc` wrote, whatever the chunks are and
  whatever follows.
- `Decodes.many`: so does a sequence of them, to the last element.
-/

namespace EpsilonDB.Chunked

variable {α β γ : Type}

/-- One read with room for `room` elements; an empty chunk is no read at all. -/
def recv (room : Nat) : List (List α) → Option (List α × List (List α))
  | [] => none
  | [] :: cs => recv room cs
  | (x :: c) :: cs =>
    if (x :: c).length ≤ room then some (x :: c, cs)
    else some ((x :: c).take room, (x :: c).drop room :: cs)

theorem recv_cons {room : Nat} {c : List α} {cs : List (List α)} (hne : c ≠ []) :
    recv room (c :: cs) =
      if c.length ≤ room then some (c, cs) else some (c.take room, c.drop room :: cs) := by
  cases c with
  | nil => exact absurd rfl hne
  | cons x c => rfl

theorem recv_eq_none {room : Nat} {cs : List (List α)} :
    recv room cs = none ↔ cs.flatten = [] := by
  induction cs with
  | nil => exact iff_of_true rfl rfl
  | cons c cs ih =>
    cases c with
    | nil => exact ih
    | cons x c =>
      refine iff_of_false (fun h => ?_) (by simp)
      unfold recv at h
      split at h <;> cases h

/-- A read takes what it returns from the front of the stream. -/
theorem recv_append {room : Nat} {cs cs' : List (List α)} {b : List α}
    (h : recv room cs = some (b, cs')) : b ++ cs'.flatten = cs.flatten := by
  induction cs with
  | nil => cases h
  | cons c cs ih =>
    cases c with
    | nil => exact ih h
    | cons x c =>
      unfold recv at h
      split at h
      · obtain ⟨rfl, rfl⟩ := Prod.mk.inj (Option.some.inj h)
        rfl
      · obtain ⟨rfl, rfl⟩ := Prod.mk.inj (Option.some.inj h)
        rw [List.flatten_cons, List.flatten_cons, ← List.append_assoc, List.take_append_drop]

/-- **A read** returns the next elements, at least one and no more than there is room for. -/
theorem recv_spec {room : Nat} (hroom : 0 < room) {cs cs' : List (List α)} {b : List α}
    (h : recv room cs = some (b, cs')) :
    b ≠ [] ∧ b.length ≤ room ∧ b ++ cs'.flatten = cs.flatten := by
  refine ⟨?_, ?_, recv_append h⟩
  · rintro rfl
    induction cs with
    | nil => cases h
    | cons c cs ih =>
      cases c with
      | nil => exact ih h
      | cons x c =>
        unfold recv at h
        split at h
        · cases h
        · have htake := (Prod.mk.inj (Option.some.inj h)).1
          rcases List.take_eq_nil_iff.mp htake with h | h
          · omega
          · cases h
  · induction cs with
    | nil => cases h
    | cons c cs ih =>
      cases c with
      | nil => exact ih h
      | cons x c =>
        unfold recv at h
        split at h
        · rename_i hle
          rw [← (Prod.mk.inj (Option.some.inj h)).1]
          exact hle
        · rw [← (Prod.mk.inj (Option.some.inj h)).1]
          exact List.length_take_le room _

/-- Reads until `n` elements are there; nothing when the stream ends before. -/
def readFull : Nat → List (List α) → Option (List α × List (List α))
  | 0, cs => some ([], cs)
  | n + 1, cs =>
    match _hr : recv (n + 1) cs with
    | none => none
    | some (b, cs') => (readFull (n + 1 - b.length) cs').map fun r => (b ++ r.1, r.2)
termination_by n => n
decreasing_by
  have := List.length_pos_iff.mpr (recv_spec n.succ_pos _hr).1
  omega

/-- **Reading `n` elements** takes the first `n` of the stream, however it is cut. -/
theorem readFull_of_le {n : Nat} {cs : List (List α)} (h : n ≤ cs.flatten.length) :
    ∃ cs', readFull n cs = some (cs.flatten.take n, cs') ∧ cs'.flatten = cs.flatten.drop n := by
  induction n, cs using readFull.induct with
  | case1 cs =>
    rw [readFull]
    exact ⟨cs, rfl, rfl⟩
  | case2 n cs hr =>
    rw [recv_eq_none.mp hr] at h
    cases h
  | case3 n cs b cs₁ hr ih =>
    obtain ⟨hne, hle, hsplit⟩ := recv_spec n.succ_pos hr
    rw [← hsplit, List.length_append] at h
    obtain ⟨cs', hread, hflat⟩ := ih (by omega)
    refine ⟨cs', ?_, ?_⟩
    · rw [readFull, hr]
      simp only [hread, Option.map_some, ← hsplit, List.take_append, List.take_of_length_le hle]
    · rw [hflat, ← hsplit, List.drop_append, List.drop_of_length_le hle, List.nil_append]

theorem readFull_append {cs : List (List α)} {b rest : List α} (h : cs.flatten = b ++ rest) :
    ∃ cs', readFull b.length cs = some (b, cs') ∧ cs'.flatten = rest := by
  have hle : b.length ≤ cs.flatten.length := by
    rw [h, List.length_append]
    omega
  obtain ⟨cs', hread, hflat⟩ := readFull_of_le hle
  rw [h, List.take_left] at hread
  rw [h, List.drop_left] at hflat
  exact ⟨cs', hread, hflat⟩

/-- What was read has the length that was asked for. -/
theorem length_of_readFull {n : Nat} {cs cs' : List (List α)} {b : List α}
    (h : readFull n cs = some (b, cs')) : b.length = n := by
  induction n, cs using readFull.induct generalizing b with
  | case1 cs =>
    rw [readFull] at h
    obtain ⟨rfl, -⟩ := Prod.mk.inj (Option.some.inj h)
    rfl
  | case2 n cs hr =>
    rw [readFull, hr] at h
    cases h
  | case3 n cs b₁ cs₁ hr ih =>
    have hle := (recv_spec n.succ_pos hr).2.1
    rw [readFull, hr] at h
    obtain ⟨⟨b₂, cs₂⟩, hread, heq⟩ := Option.map_eq_some_iff.mp h
    obtain ⟨rfl, rfl⟩ := Prod.mk.inj heq
    rw [List.length_append, ih hread]
    omega

/-- What was read and what is still to arrive is what was to arrive. -/
theorem flatten_of_readFull {n : Nat} {cs cs' : List (List α)} {b : List α}
    (h : readFull n cs = some (b, cs')) : b ++ cs'.flatten = cs.flatten := by
  induction n, cs using readFull.induct generalizing b cs' with
  | case1 cs =>
    rw [readFull] at h
    obtain ⟨rfl, rfl⟩ := Prod.mk.inj (Option.some.inj h)
    rfl
  | case2 n cs hr =>
    rw [readFull, hr] at h
    cases h
  | case3 n cs b₁ cs₁ hr ih =>
    have hsplit := (recv_spec n.succ_pos hr).2.2
    rw [readFull, hr] at h
    obtain ⟨⟨b₂, cs₂⟩, hread, heq⟩ := Option.map_eq_some_iff.mp h
    obtain ⟨rfl, rfl⟩ := Prod.mk.inj heq
    rw [List.append_assoc, ih hread, hsplit]

/-! ## Codecs over chunks -/

/-- `dec` reads back what `enc` wrote and leaves the rest. -/
def Decodes (enc : β → List α) (out : β → γ)
    (dec : List (List α) → Option (γ × List (List α))) : Prop :=
  ∀ x cs rest, cs.flatten = enc x ++ rest →
    ∃ cs', dec cs = some (out x, cs') ∧ cs'.flatten = rest

/-- `n` decodings one after the other. -/
def many (dec : List (List α) → Option (γ × List (List α))) :
    Nat → List (List α) → Option (List γ × List (List α))
  | 0, cs => some ([], cs)
  | n + 1, cs => do
    let (y, cs) ← dec cs
    let (ys, cs) ← many dec n cs
    return (y :: ys, cs)

/-- **A sequence is read back**, and nothing of what follows it is touched. -/
theorem Decodes.many {enc : β → List α} {out : β → γ}
    {dec : List (List α) → Option (γ × List (List α))} (h : Decodes enc out dec) (xs : List β)
    {cs : List (List α)} {rest : List α} (hcs : cs.flatten = xs.flatMap enc ++ rest) :
    ∃ cs', Chunked.many dec xs.length cs = some (xs.map out, cs') ∧ cs'.flatten = rest := by
  induction xs generalizing cs with
  | nil => exact ⟨cs, rfl, hcs⟩
  | cons x xs ih =>
    rw [List.flatMap_cons, List.append_assoc] at hcs
    obtain ⟨cs₁, hdec, hflat₁⟩ := h x cs _ hcs
    obtain ⟨cs', hmany, hflat⟩ := ih hflat₁
    refine ⟨cs', ?_, hflat⟩
    show (dec cs >>= fun r => Chunked.many dec xs.length r.2 >>= fun r' =>
      some (r.1 :: r'.1, r'.2)) = _
    rw [hdec]
    show (Chunked.many dec xs.length cs₁ >>= fun r' => some (out x :: r'.1, r'.2)) = _
    rw [hmany]
    rfl

end EpsilonDB.Chunked
