import Mathlib.Order.Lattice
import Mathlib.Data.List.Basic

/-!
# Last-writer-wins registers

A register keeps one value of a type `σ` whose values carry a version in a
linear order. A write takes the register unless the value it holds is *strictly*
newer, so a write that ties with the stored version overwrites it.

- `write` / `run`: one write, and a sequence of writes in delivery order.
- `Latest ver s ws w`: `w` is one of the writes, no write of `ws` is newer, and
  the initial value is not newer either.
- `run_eq_self`, `run_latest`: a run ends in the initial value when that is newer
  than every write, and in *some* latest write otherwise.
- `run_append_latest`: a latest write that is delivered last, again, is what it ends in.
- `Delivers`: the deliveries of a set of writes, in any order and with repetitions.
-/

namespace LastWriter

universe u v

variable {σ : Type u} {V : Type v} [LinearOrder V] (ver : σ → V)

/-- The write `new` takes the register unless `cur` is strictly newer. -/
def write (cur new : σ) : σ := if ver new < ver cur then cur else new

/-- A sequence of writes, applied from the left. -/
def run (s : σ) (ws : List σ) : σ := ws.foldl (write ver) s

variable {ver}

theorem write_of_lt {cur new : σ} (h : ver new < ver cur) : write ver cur new = cur :=
  if_pos h

theorem write_of_le {cur new : σ} (h : ver cur ≤ ver new) : write ver cur new = new :=
  if_neg (not_lt.mpr h)

theorem ver_write (cur new : σ) : ver (write ver cur new) = max (ver cur) (ver new) := by
  rcases lt_or_ge (ver new) (ver cur) with h | h
  · rw [write_of_lt h, max_eq_left h.le]
  · rw [write_of_le h, max_eq_right h]

theorem le_write_left (cur new : σ) : ver cur ≤ ver (write ver cur new) :=
  (le_max_left ..).trans_eq (ver_write ..).symm

theorem le_write_right (cur new : σ) : ver new ≤ ver (write ver cur new) :=
  (le_max_right ..).trans_eq (ver_write ..).symm

/-- A write that comes again changes nothing. -/
theorem write_write (cur new : σ) : write ver (write ver cur new) new = write ver cur new := by
  rcases lt_or_ge (ver new) (ver cur) with h | h
  · rw [write_of_lt h, write_of_lt h]
  · rw [write_of_le h, write_of_le le_rfl]

@[simp] theorem run_nil (s : σ) : run ver s [] = s := rfl

@[simp] theorem run_cons (s w : σ) (ws : List σ) :
    run ver s (w :: ws) = run ver (write ver s w) ws := rfl

theorem run_append (s : σ) (ws ws' : List σ) :
    run ver s (ws ++ ws') = run ver (run ver s ws) ws' :=
  List.foldl_append ..

/-- A run never loses to the value it started from. -/
theorem le_ver_run (s : σ) (ws : List σ) : ver s ≤ ver (run ver s ws) := by
  induction ws generalizing s with
  | nil => exact le_refl _
  | cons w ws ih =>
    calc ver s ≤ ver (write ver s w) := le_write_left ..
      _ ≤ ver (run ver (write ver s w) ws) := ih _

/-- A run never loses to a write it contains. -/
theorem le_ver_run_of_mem {s : σ} {ws : List σ} {w : σ} (hw : w ∈ ws) :
    ver w ≤ ver (run ver s ws) := by
  induction ws generalizing s with
  | nil => cases hw
  | cons a ws ih =>
    rcases List.mem_cons.mp hw with rfl | hw
    · calc ver w ≤ ver (write ver s w) := le_write_right ..
        _ ≤ ver (run ver (write ver s w) ws) := le_ver_run ..
    · exact ih hw

/-- A value newer than every write survives the run. -/
theorem run_eq_self {s : σ} {ws : List σ} (h : ∀ w ∈ ws, ver w < ver s) :
    run ver s ws = s := by
  induction ws with
  | nil => rfl
  | cons w ws ih =>
    rw [run_cons, write_of_lt (h w (List.mem_cons_self ..))]
    exact ih fun w' hw' => h w' (List.mem_cons_of_mem _ hw')

/-- Once some write is not older than the initial value, the run ends in a write. -/
theorem run_mem {s : σ} {ws : List σ} (h : ∃ w ∈ ws, ver s ≤ ver w) :
    run ver s ws ∈ ws := by
  induction ws generalizing s with
  | nil => obtain ⟨w, hw, -⟩ := h; cases hw
  | cons a ws ih =>
    rw [run_cons]
    rcases lt_or_ge (ver a) (ver s) with has | has
    · -- `a` is refused, so the write of the hypothesis is a later one
      rw [write_of_lt has]
      obtain ⟨w, hw, hsw⟩ := h
      rcases List.mem_cons.mp hw with rfl | hw
      · exact absurd hsw (not_le.mpr has)
      · exact List.mem_cons_of_mem _ (ih ⟨w, hw, hsw⟩)
    · rw [write_of_le has]
      by_cases hlater : ∃ w ∈ ws, ver a ≤ ver w
      · exact List.mem_cons_of_mem _ (ih hlater)
      · have hnewest : ∀ w ∈ ws, ver w < ver a := fun w hw =>
          not_le.mp fun hle => hlater ⟨w, hw, hle⟩
        rw [run_eq_self hnewest]
        exact List.mem_cons_self ..

variable (ver) in
/-- `w` is a newest write of `ws`, and the initial value `s` is not newer. -/
structure Latest (s : σ) (ws : List σ) (w : σ) : Prop where
  mem : w ∈ ws
  initial : ver s ≤ ver w
  newest : ∀ w' ∈ ws, ver w' ≤ ver w

/-- With a write not older than the initial value, the run ends in a latest one. -/
theorem run_latest {s : σ} {ws : List σ} (h : ∃ w ∈ ws, ver s ≤ ver w) :
    Latest ver s ws (run ver s ws) :=
  ⟨run_mem h, le_ver_run .., fun _ hw => le_ver_run_of_mem hw⟩

/-- A latest write delivered last is what the run ends in. -/
theorem run_append_latest {s w : σ} {ws : List σ} (h : Latest ver s ws w) :
    run ver s (ws ++ [w]) = w := by
  have hle : ver (run ver s ws) ≤ ver w := by
    by_cases hex : ∃ w' ∈ ws, ver s ≤ ver w'
    · exact h.newest _ (run_mem hex)
    · rw [run_eq_self fun w' hw' => not_le.mp fun hle => hex ⟨w', hw', hle⟩]
      exact h.initial
  rw [run_append, run_cons, run_nil, write_of_le hle]

/-- `o` delivers exactly the writes of `ws`, in any order and any number of times. -/
def Delivers {α : Type u} (ws o : List α) : Prop := ∀ x, x ∈ o ↔ x ∈ ws

theorem Delivers.concat {α : Type u} {ws : List α} {w : α} (hw : w ∈ ws) :
    Delivers ws (ws ++ [w]) := fun x => by
  rw [List.mem_append, List.mem_singleton]
  exact ⟨fun h => h.elim id fun hx => hx ▸ hw, Or.inl⟩

end LastWriter
