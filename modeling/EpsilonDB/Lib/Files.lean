import Mathlib.Logic.Function.Basic

/-!
# Files and their replacement

A program changes the files of a directory one operation at a time, and may be stopped
between any two of them.

- `Op.run`, `runs`: create a file, append to it, rename it over another one, remove it.
- `runs_untouched`: operations that do not touch a path leave its file alone.
- `runs_written`: a file holds what was appended to it.
- `replaced_at_once`: a file that is written elsewhere and then renamed into its place is
  there as a whole or not at all, wherever the program stops.
-/

namespace Files

universe u v

variable {P : Type u} [DecidableEq P] {α : Type v}

/-- One operation on the files of a directory. -/
inductive Op (P : Type u) (α : Type v) where
  | create (p : P)
  | append (p : P) (xs : List α)
  | rename (p q : P)
  | unlink (p : P)
deriving DecidableEq

/-- What an operation makes of the files; on a path without a file only `create` does
something. -/
def Op.run (d : P → Option (List α)) : Op P α → P → Option (List α)
  | .create p => Function.update d p (some [])
  | .append p xs =>
    match d p with
    | none => d
    | some ys => Function.update d p (some (ys ++ xs))
  | .rename p q =>
    match d p with
    | none => d
    | some ys => Function.update (Function.update d p none) q (some ys)
  | .unlink p => Function.update d p none

/-- Operations one after the other. -/
def runs (d : P → Option (List α)) (ops : List (Op P α)) : P → Option (List α) :=
  ops.foldl Op.run d

/-- The operation may change what is at the path. -/
def Op.Touches (p : P) : Op P α → Prop
  | .create q | .append q _ | .unlink q => q = p
  | .rename q r => q = p ∨ r = p

theorem run_untouched {op : Op P α} {p : P} (d : P → Option (List α)) (h : ¬ op.Touches p) :
    op.run d p = d p := by
  cases op with
  | create q => exact Function.update_of_ne (Ne.symm h) ..
  | append q xs =>
    show (match d q with
      | none => d
      | some ys => Function.update d q (some (ys ++ xs))) p = d p
    cases d q with
    | none => rfl
    | some ys => exact Function.update_of_ne (Ne.symm h) ..
  | rename q r =>
    obtain ⟨hq, hr⟩ := not_or.mp h
    show (match d q with
      | none => d
      | some ys => Function.update (Function.update d q none) r (some ys)) p = d p
    cases d q with
    | none => rfl
    | some ys =>
      show Function.update (Function.update d q none) r (some ys) p = d p
      rw [Function.update_of_ne (Ne.symm hr), Function.update_of_ne (Ne.symm hq)]
  | unlink q => exact Function.update_of_ne (Ne.symm h) ..

theorem runs_untouched {ops : List (Op P α)} {p : P} (d : P → Option (List α))
    (h : ∀ op ∈ ops, ¬ op.Touches p) : runs d ops p = d p := by
  induction ops generalizing d with
  | nil => rfl
  | cons op ops ih =>
    rw [runs, List.foldl_cons]
    exact (ih (op.run d) fun o ho => h o (List.mem_cons_of_mem op ho)).trans
      (run_untouched d (h op List.mem_cons_self))

theorem runs_append (d : P → Option (List α)) (ops ops' : List (Op P α)) :
    runs d (ops ++ ops') = runs (runs d ops) ops' :=
  List.foldl_append

/-- A file holds what it held and what was appended to it. -/
theorem runs_appended {d : P → Option (List α)} {p : P} {xs : List α} (h : d p = some xs)
    (chunks : List (List α)) :
    runs d (chunks.map (.append p)) p = some (xs ++ chunks.flatten) := by
  induction chunks generalizing d xs with
  | nil => exact h.trans (congrArg some (List.append_nil xs).symm)
  | cons c chunks ih =>
    have hnext : (Op.append p c).run d p = some (xs ++ c) := by
      simp only [Op.run, h, Function.update_self]
    rw [List.map_cons, runs, List.foldl_cons, List.flatten_cons, ← List.append_assoc]
    exact ih hnext

/-- A new file holds what was written to it. -/
theorem runs_written (d : P → Option (List α)) (p : P) (chunks : List (List α)) :
    runs d (.create p :: chunks.map (.append p)) p = some chunks.flatten := by
  have hnew : (Op.create p).run d p = some [] := Function.update_self ..
  exact runs_appended hnew chunks

/-- **Replacement by renaming.** While `ops` leave `dest` alone, every prefix of `ops` and
a final rename leaves at `dest` what was there, or all that `ops` wrote to `temp`. -/
theorem replaced_at_once {ops : List (Op P α)} {temp dest : P} (d : P → Option (List α))
    (h : ∀ op ∈ ops, ¬ op.Touches dest) (k : Nat) :
    runs d ((ops ++ [Op.rename temp dest]).take k) dest = d dest ∨
      ∃ xs, runs d ops temp = some xs ∧
        runs d ((ops ++ [Op.rename temp dest]).take k) dest = some xs := by
  by_cases hk : k ≤ ops.length
  · left
    rw [List.take_append_of_le_length hk]
    exact runs_untouched d fun op hop => h op (List.mem_of_mem_take hop)
  · rw [List.take_of_length_le (by rw [List.length_append, List.length_singleton]; omega),
      runs_append]
    cases htemp : runs d ops temp with
    | none =>
      left
      show (Op.rename temp dest).run (runs d ops) dest = d dest
      simp only [Op.run, htemp]
      exact runs_untouched d h
    | some xs =>
      right
      refine ⟨xs, rfl, ?_⟩
      show (Op.rename temp dest).run (runs d ops) dest = some xs
      simp only [Op.run, htemp, Function.update_self]

end Files
