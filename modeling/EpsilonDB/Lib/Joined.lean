import Mathlib.Data.List.Basic

/-!
# Names joined by a separator

Names that may have the separator in them, written one after the other with a separator between
them, perhaps into a buffer that cuts the text.

- `parts`: what the separators divide a list of names into.
- `intercalate_eq_iff`: the same text is the same parts.
- `Alike`: the same parts, or texts that agree up to the end of the buffer;
  `take_intercalate_eq_iff`.
- `parts_of_plain`: names without a separator are their own parts.
- `segments`: the parts of a text that are not empty; `flatten_segments`.
-/

namespace Joined

variable {α : Type*} [BEq α] [LawfulBEq α]

/-- The parts between the separators, those that stand in a name and those between the names. -/
def parts (sep : α) (names : List (List α)) : List (List α) := names.flatMap (List.splitOn sep)

/-- The texts have the same parts, or agree in the first `room` places and fill them. -/
def Alike (sep : α) (room : Nat) (names names' : List (List α)) : Prop :=
  parts sep names = parts sep names' ∨
    room ≤ ([sep].intercalate names).length ∧ room ≤ ([sep].intercalate names').length ∧
      ∀ i < room, ([sep].intercalate names)[i]? = ([sep].intercalate names')[i]?

variable {sep : α} {names names' : List (List α)} {room : Nat}

omit [LawfulBEq α] in
theorem parts_cons (name : List α) (names : List (List α)) :
    parts sep (name :: names) = name.splitOn sep ++ parts sep names :=
  List.flatMap_cons

/-- The parts of the text. -/
theorem splitOn_intercalate (h : names ≠ []) :
    ([sep].intercalate names).splitOn sep = parts sep names := by
  induction names with
  | nil => exact absurd rfl h
  | cons name names ih =>
    cases names with
    | nil =>
      rw [parts_cons, List.intercalate_singleton]
      exact (List.append_nil _).symm
    | cons name' names =>
      rw [List.intercalate_cons_cons, List.append_assoc, List.singleton_append,
        List.splitOn_append_cons_self, ih (List.cons_ne_nil _ _), ← parts_cons]

/-- **The same text is the same parts.** -/
theorem intercalate_eq_iff (h : names ≠ []) (h' : names' ≠ []) :
    [sep].intercalate names = [sep].intercalate names' ↔ parts sep names = parts sep names' := by
  rw [← splitOn_intercalate h, ← splitOn_intercalate h']
  constructor
  · exact congrArg _
  · intro heq
    have hback : [sep].intercalate (([sep].intercalate names).splitOn sep) =
        [sep].intercalate (([sep].intercalate names').splitOn sep) := congrArg _ heq
    rwa [List.intercalate_splitOn, List.intercalate_splitOn] at hback

/-- **The same text in a buffer.** -/
theorem take_intercalate_eq_iff (h : names ≠ []) (h' : names' ≠ []) :
    ([sep].intercalate names).take room = ([sep].intercalate names').take room ↔
      Alike sep room names names' := by
  have hagree (x y : List α) :
      x.take room = y.take room ↔ ∀ i < room, x[i]? = y[i]? := by
    constructor
    · intro heq i hi
      rw [← List.getElem?_take_of_lt hi, heq, List.getElem?_take_of_lt hi]
    · intro heq
      apply List.ext_getElem?
      intro i
      rw [List.getElem?_take, List.getElem?_take]
      split
      · next hi => exact heq i hi
      · rfl
  unfold Alike
  rw [← hagree, ← intercalate_eq_iff h h']
  constructor
  · intro heq
    have hlength := congrArg List.length heq
    rw [List.length_take, List.length_take] at hlength
    by_cases hfits : room ≤ ([sep].intercalate names).length
    · exact Or.inr ⟨hfits, by omega, heq⟩
    · rw [List.take_of_length_le (by omega), List.take_of_length_le (by omega)] at heq
      exact Or.inl heq
  · rintro (heq | ⟨-, -, heq⟩)
    · rw [heq]
    · exact heq

/-- Names without a separator. -/
theorem parts_of_plain (h : ∀ name ∈ names, sep ∉ name) : parts sep names = names := by
  induction names with
  | nil => rfl
  | cons name names ih =>
    rw [List.forall_mem_cons] at h
    rw [parts_cons, List.splitOn_eq_singleton h.1, ih h.2, List.singleton_append]

/-- **Different names without a separator** are not alike when their texts fit. -/
theorem not_alike_of_plain (h : ∀ name ∈ names, sep ∉ name) (h' : ∀ name ∈ names', sep ∉ name)
    (hne : names ≠ names') (hfits : ([sep].intercalate names).length < room) :
    ¬ Alike sep room names names' := by
  rintro (heq | ⟨hlong, -⟩)
  · rw [parts_of_plain h, parts_of_plain h'] at heq
    exact hne heq
  · exact absurd hlong (Nat.not_le_of_lt hfits)

/-! ## Segments -/

/-- The nonempty parts of a text. -/
def segments (sep : α) (s : List α) : List (List α) := (s.splitOn sep).filter fun x => !x.isEmpty

section

variable {s t : List α}

/-- The parts on both sides of a separator. -/
theorem segments_append_cons (s t : List α) :
    segments sep (s ++ sep :: t) = segments sep s ++ segments sep t := by
  rw [segments, List.splitOn_append_cons_self, List.filter_append]
  rfl

/-- A separator in front does not count. -/
theorem segments_cons_self (s : List α) : segments sep (sep :: s) = segments sep s :=
  segments_append_cons [] s

/-- A word is one segment. -/
theorem segments_of_plain (hne : s ≠ []) (h : sep ∉ s) : segments sep s = [s] := by
  have hempty : s.isEmpty = false := by
    rw [Bool.eq_false_iff, ne_eq, List.isEmpty_iff]
    exact hne
  rw [segments, List.splitOn_eq_singleton h, List.filter_cons_of_pos (by rw [hempty]; rfl)]
  rfl

/-- Separators at the end do not count. -/
theorem segments_append_of_forall (s : List α) (h : ∀ c ∈ t, c = sep) :
    segments sep (s ++ t) = segments sep s := by
  induction t generalizing s with
  | nil => rw [List.append_nil]
  | cons c t ih =>
    rw [List.forall_mem_cons] at h
    obtain ⟨rfl, ht⟩ := h
    have hrest : segments c t = [] := ih [] ht
    rw [segments_append_cons, hrest, List.append_nil]

/-- **The segments together** are the text without its separators. -/
theorem flatten_segments (s : List α) : (segments sep s).flatten = s.filter fun c => c != sep := by
  rw [segments, List.flatten_filter_not_isEmpty]
  induction s with
  | nil => rfl
  | cons c s ih =>
    rw [List.splitOn_cons_eq_if_modifyHead]
    by_cases hc : c = sep
    · subst hc
      rw [if_pos (beq_self_eq_true c), List.filter_cons_of_neg (by simp)]
      exact ih
    · rw [if_neg (by simpa using hc), List.filter_cons_of_pos (by simpa using hc), ← ih]
      obtain ⟨x, xs, hsplit⟩ := List.exists_cons_of_ne_nil (List.splitOn_ne_nil sep s)
      rw [hsplit]
      rfl

end

end Joined
