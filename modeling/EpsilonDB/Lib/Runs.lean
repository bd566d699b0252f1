import Mathlib.Data.Option.Basic

/-!
# Runs of a labelled system and grounded facts

A system takes labelled steps that may be refused. What one step preserves under a guard,
a run whose steps all meet the guard preserves.

- `run`: the state after some labels, when none is refused.
- `Along`: every step of the run meets a guard.
- `Throughout`: every state the run visits has a property.
- `inv_run`: the induction on the run.
- `throughout_iff_along`: a guard that decides for each step whether it keeps a property
  decides for each run whether it has the property throughout.
- `Grounded`: the facts that can be found in a state all have a ground. A step that only
  moves facts around, or adds them with their ground, keeps this (`Grounded.of_moves`).
-/

namespace Runs

universe u v w

variable {S : Type u} {L : Type v} (step : S → L → Option S)

/-- The state after the steps `ls`, or nothing when one of them is refused. -/
def run (s : S) : List L → Option S
  | [] => some s
  | l :: ls =>
    match step s l with
    | none => none
    | some s' => run s' ls

/-- Every step of the run meets the guard. -/
def Along (guard : S → L → Prop) (s : S) : List L → Prop
  | [] => True
  | l :: ls =>
    guard s l ∧
      match step s l with
      | none => True
      | some s' => Along guard s' ls

instance Along.decidable (guard : S → L → Prop) [∀ s l, Decidable (guard s l)] :
    ∀ (s : S) (ls : List L), Decidable (Along step guard s ls)
  | _, [] => isTrue trivial
  | s, l :: ls =>
    @instDecidableAnd (guard s l) _ inferInstance
      (match step s l with
        | none => isTrue trivial
        | some s' => Along.decidable guard s' ls)

/-- Every state the run visits has the property. -/
def Throughout (P : S → Prop) (s : S) : List L → Prop
  | [] => P s
  | l :: ls =>
    P s ∧
      match step s l with
      | none => True
      | some s' => Throughout P s' ls

instance Throughout.decidable (P : S → Prop) [∀ s, Decidable (P s)] :
    ∀ (s : S) (ls : List L), Decidable (Throughout step P s ls)
  | s, [] => inferInstanceAs (Decidable (P s))
  | s, l :: ls =>
    @instDecidableAnd (P s) _ inferInstance
      (match step s l with
        | none => isTrue trivial
        | some s' => Throughout.decidable P s' ls)

variable {step} {guard : S → L → Prop} {Inv : S → Prop}

theorem throughout_mono {P Q : S → Prop} (h : ∀ s, P s → Q s) {s : S} {ls : List L}
    (hp : Throughout step P s ls) : Throughout step Q s ls := by
  induction ls generalizing s with
  | nil => exact h s hp
  | cons l ls ih =>
    obtain ⟨hs, hrest⟩ := hp
    refine ⟨h s hs, ?_⟩
    cases hnext : step s l with
    | none => trivial
    | some t =>
      rw [hnext] at hrest
      exact ih hrest

/-- Guards that agree on every step agree along a run. -/
theorem along_congr {guard' : S → L → Prop}
    (h : ∀ s l, guard s l ↔ guard' s l) {s : S} {ls : List L} :
    Along step guard s ls ↔ Along step guard' s ls := by
  induction ls generalizing s with
  | nil => exact Iff.rfl
  | cons l ls ih =>
    unfold Along
    refine and_congr (h s l) ?_
    cases step s l with
    | none => exact Iff.rfl
    | some t => exact ih

/-- What every guarded step preserves holds after every guarded run. -/
theorem inv_run (hstep : ∀ s l s', Inv s → guard s l → step s l = some s' → Inv s')
    {s s' : S} {ls : List L} (hs : Inv s) (hguard : Along step guard s ls)
    (hrun : run step s ls = some s') : Inv s' := by
  induction ls generalizing s with
  | nil =>
    obtain rfl : s = s' := Option.some.inj hrun
    exact hs
  | cons l ls ih =>
    obtain ⟨hl, hrest⟩ := hguard
    unfold run at hrun
    cases hnext : step s l with
    | none =>
      rw [hnext] at hrun
      cases hrun
    | some t =>
      rw [hnext] at hrun hrest
      exact ih (hstep s l t hs hl hnext) hrest hrun

/-- It holds all along the run, too. -/
theorem throughout_of_along
    (hstep : ∀ s l s', Inv s → guard s l → step s l = some s' → Inv s') {s : S} {ls : List L}
    (hs : Inv s) (hguard : Along step guard s ls) : Throughout step Inv s ls := by
  induction ls generalizing s with
  | nil => exact hs
  | cons l ls ih =>
    obtain ⟨hl, hrest⟩ := hguard
    refine ⟨hs, ?_⟩
    cases hnext : step s l with
    | none => trivial
    | some t =>
      rw [hnext] at hrest
      exact ih (hstep s l t hs hl hnext) hrest

/-- What every step preserves holds all along every run. -/
theorem throughout_of_inv (hstep : ∀ s l s', Inv s → step s l = some s' → Inv s') {s : S}
    (hs : Inv s) (ls : List L) : Throughout step Inv s ls := by
  induction ls generalizing s with
  | nil => exact hs
  | cons l ls ih =>
    refine ⟨hs, ?_⟩
    cases hnext : step s l with
    | none => trivial
    | some t => exact ih (hstep s l t hs hnext)

/-- A guard that implies another one on every step does so along a run. -/
theorem along_mono {guard' : S → L → Prop} (h : ∀ s l, guard s l → guard' s l) {s : S}
    {ls : List L} (hs : Along step guard s ls) : Along step guard' s ls := by
  induction ls generalizing s with
  | nil => trivial
  | cons l ls ih =>
    obtain ⟨hl, hrest⟩ := hs
    refine ⟨h s l hl, ?_⟩
    cases hnext : step s l with
    | none => trivial
    | some t =>
      rw [hnext] at hrest
      exact ih hrest

/-- So does a guard that implies it on the states of an invariant. -/
theorem along_of_inv {guard' : S → L → Prop}
    (hstep : ∀ s l s', Inv s → guard s l → step s l = some s' → Inv s')
    (h : ∀ s l, Inv s → guard s l → guard' s l) {s : S} {ls : List L} (hs : Inv s)
    (hguard : Along step guard s ls) : Along step guard' s ls := by
  induction ls generalizing s with
  | nil => trivial
  | cons l ls ih =>
    obtain ⟨hl, hrest⟩ := hguard
    refine ⟨h s l hs hl, ?_⟩
    cases hnext : step s l with
    | none => trivial
    | some t =>
      rw [hnext] at hrest
      exact ih (hstep s l t hs hl hnext) hrest

theorem run_cons {s t : S} {l : L} (ls : List L) (h : step s l = some t) :
    run step s (l :: ls) = run step t ls := by
  show (match step s l with
    | none => none
    | some s' => run step s' ls) = run step t ls
  rw [h]

/-- Two guards along a run are one. -/
theorem along_and {guard' : S → L → Prop} (s : S) (ls : List L) :
    Along step (fun s l => guard s l ∧ guard' s l) s ls ↔
      Along step guard s ls ∧ Along step guard' s ls := by
  induction ls generalizing s with
  | nil => exact (and_self_iff).symm
  | cons l ls ih =>
    unfold Along
    cases step s l with
    | none => simp only [and_true]
    | some t =>
      dsimp only
      rw [ih t]
      exact and_and_and_comm

/-- A guarded run goes on after its first step. -/
theorem along_cons {s t : S} {l : L} (ls : List L) (h : step s l = some t) :
    Along step guard s (l :: ls) ↔ guard s l ∧ Along step guard t ls := by
  rw [Along, h]

theorem run_append_of {s t : S} {ls : List L} (ls' : List L) (h : run step s ls = some t) :
    run step s (ls ++ ls') = run step t ls' := by
  induction ls generalizing s with
  | nil =>
    obtain rfl : s = t := Option.some.inj h
    rfl
  | cons l ls ih =>
    cases hnext : step s l with
    | none =>
      unfold run at h
      rw [hnext] at h
      cases h
    | some s' =>
      rw [run_cons _ hnext] at h
      rw [List.cons_append, run_cons _ hnext]
      exact ih h

/-- Where every step of the run meets `legal`, a property holds throughout exactly when every
step meets the guard that keeps it. -/
theorem throughout_iff_along_of {legal : S → L → Prop} {s : S} {ls : List L}
    (hlegal : Along step legal s ls)
    (hrefused : ∀ l ∈ ls, ∀ s, legal s l → step s l = none → guard s l)
    (hstep : ∀ l ∈ ls, ∀ s s', legal s l → Inv s → step s l = some s' → (Inv s' ↔ guard s l))
    (hs : Inv s) : Throughout step Inv s ls ↔ Along step guard s ls := by
  induction ls generalizing s with
  | nil => exact iff_of_true hs trivial
  | cons l ls ih =>
    obtain ⟨hl, hlater⟩ := hlegal
    unfold Throughout Along
    cases hnext : step s l with
    | none =>
      exact iff_of_true ⟨hs, trivial⟩ ⟨hrefused l List.mem_cons_self s hl hnext, trivial⟩
    | some t =>
      rw [hnext] at hlater
      have hiff := hstep l List.mem_cons_self s t hl hs hnext
      have hrest : Inv t → (Throughout step Inv t ls ↔ Along step guard t ls) :=
        ih hlater (fun l' hl' => hrefused l' (List.mem_cons_of_mem l hl'))
          (fun l' hl' => hstep l' (List.mem_cons_of_mem l hl'))
      show Inv s ∧ Throughout step Inv t ls ↔ guard s l ∧ Along step guard t ls
      constructor
      · rintro ⟨-, hlater⟩
        have ht : Inv t := by
          cases ls with
          | nil => exact hlater
          | cons _ _ => exact hlater.1
        exact ⟨hiff.mp ht, (hrest ht).mp hlater⟩
      · rintro ⟨hl, hlater⟩
        exact ⟨hs, (hrest (hiff.mpr hl)).mpr hlater⟩

theorem along_trivial (s : S) (ls : List L) : Along step (fun _ _ => True) s ls := by
  induction ls generalizing s with
  | nil => trivial
  | cons l ls ih =>
    refine ⟨trivial, ?_⟩
    cases step s l with
    | none => trivial
    | some t => exact ih t

/-- **When a property holds throughout**: exactly when every step meets the guard that
keeps it. -/
theorem throughout_iff_along {s : S} {ls : List L}
    (hrefused : ∀ l ∈ ls, ∀ s, step s l = none → guard s l)
    (hstep : ∀ l ∈ ls, ∀ s s', Inv s → step s l = some s' → (Inv s' ↔ guard s l))
    (hs : Inv s) : Throughout step Inv s ls ↔ Along step guard s ls :=
  throughout_iff_along_of (along_trivial s ls) (fun l hl s _ => hrefused l hl s)
    (fun l hl s s' _ => hstep l hl s s') hs

/-- What holds throughout holds at the end. -/
theorem of_throughout {P : S → Prop} {s t : S} {ls : List L} (h : Throughout step P s ls)
    (hrun : run step s ls = some t) : P t := by
  induction ls generalizing s with
  | nil =>
    obtain rfl : s = t := Option.some.inj hrun
    exact h
  | cons l ls ih =>
    obtain ⟨-, hrest⟩ := h
    unfold run at hrun
    cases hnext : step s l with
    | none =>
      rw [hnext] at hrun
      cases hrun
    | some s' =>
      rw [hnext] at hrun hrest
      exact ih hrest hrun

/-- An invariant of all steps may be assumed of the states a run visits. -/
theorem throughout_iff_of_inv {P : S → Prop} {s : S} {ls : List L}
    (hkeeps : ∀ l ∈ ls, ∀ s s', Inv s → step s l = some s' → Inv s') (hs : Inv s) :
    Throughout step P s ls ↔ Throughout step (fun s => Inv s ∧ P s) s ls := by
  induction ls generalizing s with
  | nil => exact (and_iff_right hs).symm
  | cons l ls ih =>
    unfold Throughout
    refine and_congr (and_iff_right hs).symm ?_
    cases hnext : step s l with
    | none => exact Iff.rfl
    | some t =>
      exact ih (fun l' hl' => hkeeps l' (List.mem_cons_of_mem l hl'))
        (hkeeps l List.mem_cons_self s t hs hnext)

/-! ## Facts -/

variable {Φ : Type w} (known ground : S → Φ → Prop)

/-- Every fact that is known somewhere has a ground. -/
def Grounded (s : S) : Prop := ∀ φ, known s φ → ground s φ

/-- From `s` to `s'` grounds stay, and a fact that is known was known or has a ground. -/
structure Moves (s s' : S) : Prop where
  stays : ∀ φ, ground s φ → ground s' φ
  known : ∀ φ, known s' φ → known s φ ∨ ground s' φ

variable {known ground}

theorem Grounded.of_moves {s s' : S} (h : Grounded known ground s) (hm : Moves known ground s s') :
    Grounded known ground s' := by
  intro φ hφ
  rcases hm.known φ hφ with hold | hnew
  · exact hm.stays φ (h φ hold)
  · exact hnew

end Runs
