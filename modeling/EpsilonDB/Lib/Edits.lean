import Mathlib.Data.List.Basic
import Mathlib.Data.List.Induction
import Mathlib.Data.List.Nodup
import Mathlib.Data.Set.Lattice

/-!
# Edits of a relation

A relation `R : Set (κ × β)` keeps values under keys, usually one under each. An edit gives a
key one value or takes its values away. Edits that are the difference of two relations, in any
order, make one of the other wherever a key does not keep a value beside a new one.

- `fiber`: the values of a key.
- `edit`: one edit carried out.
- `difference R R'`: the values that are new in `R'`, and the keys that are gone.
- `fiber_foldl_edit`: after a list of edits a key has what the last edit of it says.
- `Clear`: a key that does not. `eq_of_mem_difference`: it has one edit.
- `foldl_edit_eq_iff`: when the difference makes `R'` of `R`.
-/

namespace Edits

variable {κ β : Type*} {R R' : Set (κ × β)} {k : κ} {e : κ × Option β}

/-- The values under a key. -/
def fiber (R : Set (κ × β)) (k : κ) : Set β := {v | (k, v) ∈ R}

@[simp] theorem mem_fiber {v : β} : v ∈ fiber R k ↔ (k, v) ∈ R := Iff.rfl

theorem eq_of_fiber_eq (h : ∀ k, fiber R k = fiber R' k) : R = R' := by
  ext ⟨k, v⟩
  exact Set.ext_iff.mp (h k) v

theorem fiber_nonempty_iff {l : List (κ × β)} :
    (fiber {x | x ∈ l} k).Nonempty ↔ k ∈ l.map Prod.fst := by
  rw [List.mem_map]
  exact ⟨fun ⟨v, hv⟩ => ⟨(k, v), hv, rfl⟩, fun ⟨x, hx, hk⟩ => ⟨x.2, hk ▸ hx⟩⟩

theorem fiber_eq_empty_iff {l : List (κ × β)} :
    fiber {x | x ∈ l} k = ∅ ↔ k ∉ l.map Prod.fst := by
  rw [← fiber_nonempty_iff, Set.not_nonempty_iff_eq_empty]

/-- Keys that are all different have one value each. -/
theorem fiber_subsingleton {l : List (κ × β)} (h : (l.map Prod.fst).Nodup) (k : κ) :
    (fiber {x | x ∈ l} k).Subsingleton := by
  intro v hv w hw
  have heq := List.inj_on_of_nodup_map h hv hw rfl
  exact (Prod.mk.inj heq).2

/-- One edit. -/
def edit (R : Set (κ × β)) (e : κ × Option β) : Set (κ × β) :=
  {x | x.1 ≠ e.1 ∧ x ∈ R ∨ x.1 = e.1 ∧ e.2 = some x.2}

theorem fiber_edit_of_ne (h : e.1 ≠ k) : fiber (edit R e) k = fiber R k := by
  ext v
  simp [fiber, edit, h.symm]

theorem fiber_edit_self (R : Set (κ × β)) (e : κ × Option β) :
    fiber (edit R e) e.1 = {v | e.2 = some v} := by
  ext v
  simp [fiber, edit]

/-- A key that is not edited keeps its values, and one that is has what one of its edits, the
last, says. -/
theorem fiber_foldl_edit (es : List (κ × Option β)) (R : Set (κ × β)) (k : κ) :
    (∀ e ∈ es, e.1 ≠ k) ∧ fiber (es.foldl edit R) k = fiber R k ∨
      ∃ e ∈ es, e.1 = k ∧ fiber (es.foldl edit R) k = {v | e.2 = some v} := by
  induction es using List.reverseRecOn with
  | nil => exact .inl ⟨by simp, rfl⟩
  | append_singleton es e ih =>
    rw [List.foldl_concat]
    by_cases he : e.1 = k
    · subst he
      exact .inr ⟨e, by simp, rfl, fiber_edit_self _ e⟩
    · rw [fiber_edit_of_ne he]
      rcases ih with ⟨hes, hfiber⟩ | ⟨e', he', hk, hfiber⟩
      · refine .inl ⟨fun e' he' => ?_, hfiber⟩
        rcases List.mem_append.mp he' with he' | he'
        · exact hes e' he'
        · rwa [List.mem_singleton.mp he']
      · exact .inr ⟨e', List.mem_append_left _ he', hk, hfiber⟩

/-- The values that are new, and the keys that are gone. -/
def difference (R R' : Set (κ × β)) : Set (κ × Option β) :=
  {e | match e.2 with
    | some v => (e.1, v) ∈ R' ∧ (e.1, v) ∉ R
    | none => (fiber R e.1).Nonempty ∧ fiber R' e.1 = ∅}

@[simp] theorem mem_difference_some {v : β} :
    (k, some v) ∈ difference R R' ↔ (k, v) ∈ R' ∧ (k, v) ∉ R := Iff.rfl

@[simp] theorem mem_difference_none :
    (k, none) ∈ difference R R' ↔ (fiber R k).Nonempty ∧ fiber R' k = ∅ := Iff.rfl

/-- The key has what it had, or nothing, or one new value. -/
def Clear (R R' : Set (κ × β)) (k : κ) : Prop :=
  fiber R' k = fiber R k ∨ fiber R' k = ∅ ∨ ∃ v ∉ fiber R k, fiber R' k = {v}

/-- Keys are clear where none has two values. -/
theorem clear_of_subsingleton (h : (fiber R k).Subsingleton) (h' : (fiber R' k).Subsingleton) :
    Clear R R' k := by
  rcases h'.eq_empty_or_singleton with hempty | ⟨v, hv⟩
  · exact .inr (.inl hempty)
  · by_cases hold : v ∈ fiber R k
    · refine .inl ?_
      rw [hv, eq_comm]
      exact Set.Subsingleton.eq_singleton_of_mem h hold
    · exact .inr (.inr ⟨v, hold, hv⟩)

/-- A clear key has one edit in the difference, if any. -/
theorem eq_of_mem_difference (h : Clear R R' k) {a b : Option β} (ha : (k, a) ∈ difference R R')
    (hb : (k, b) ∈ difference R R') : a = b := by
  -- a value of the key that is new is all that `R'` has there, and then the key is not gone
  have hvalue : ∀ {v}, (k, some v) ∈ difference R R' → fiber R' k = {v} := by
    intro v hv
    obtain ⟨hnew, hold⟩ := mem_difference_some.mp hv
    rcases h with heq | hempty | ⟨w, -, hone⟩
    · exact absurd (heq ▸ hnew : v ∈ fiber R k) hold
    · exact absurd (hempty ▸ hnew : v ∈ (∅ : Set β)) (Set.notMem_empty v)
    · have hvw : v = w := (hone ▸ hnew : v ∈ ({w} : Set β))
      rw [hone, hvw]
  cases a with
  | none =>
    cases b with
    | none => rfl
    | some w =>
      have hgone := (mem_difference_none.mp ha).2.symm.trans (hvalue hb)
      exact absurd hgone.symm (Set.singleton_ne_empty w)
  | some v =>
    cases b with
    | none =>
      have hgone := (mem_difference_none.mp hb).2.symm.trans (hvalue ha)
      exact absurd hgone.symm (Set.singleton_ne_empty v)
    | some w => rw [Set.singleton_eq_singleton_iff.mp ((hvalue ha).symm.trans (hvalue hb))]

/-- Edits that are the difference make of every key that is clear what it is in `R'`. -/
theorem fiber_foldl_difference {es : List (κ × Option β)}
    (hes : ∀ e, e ∈ es ↔ e ∈ difference R R') (k : κ) :
    fiber (es.foldl edit R) k = fiber R' k ↔ Clear R R' k := by
  rcases fiber_foldl_edit es R k with ⟨hkeep, hfiber⟩ | ⟨⟨_, v?⟩, he, rfl, hfiber⟩
  · -- no edit: no value is new, and the key is not gone
    rw [hfiber]
    refine ⟨fun h => .inl h.symm, ?_⟩
    rintro (h | h | ⟨v, hv, h⟩)
    · exact h.symm
    · rw [h]
      by_contra hne
      exact hkeep (k, none) ((hes _).mpr ⟨Set.nonempty_iff_ne_empty.mpr hne, h⟩) rfl
    · have hmem : v ∈ fiber R' k := h ▸ rfl
      exact absurd rfl (hkeep (k, some v) ((hes _).mpr ⟨hmem, hv⟩))
  · rw [hfiber]
    cases v? with
    | none =>
      obtain ⟨-, hgone⟩ := mem_difference_none.mp ((hes _).mp he)
      refine iff_of_true ?_ (.inr (.inl hgone))
      rw [hgone]
      simp
    | some v =>
      obtain ⟨hnew, hold⟩ := mem_difference_some.mp ((hes _).mp he)
      have hone : {w | some v = some w} = {v} := by
        ext w
        simp [eq_comm]
      rw [hone]
      refine ⟨fun h => .inr (.inr ⟨v, hold, h.symm⟩), ?_⟩
      rintro (h | h | ⟨w, -, h⟩)
      · exact absurd (h ▸ hnew : v ∈ fiber R _) hold
      · exact absurd (h ▸ hnew : v ∈ (∅ : Set β)) (Set.notMem_empty v)
      · have hvw : v = w := (h ▸ hnew : v ∈ ({w} : Set β))
        rw [h, hvw]

/-- **The difference makes `R'` of `R`** if and only if every key is clear. -/
theorem foldl_edit_eq_iff {es : List (κ × Option β)}
    (hes : ∀ e, e ∈ es ↔ e ∈ difference R R') :
    es.foldl edit R = R' ↔ ∀ k, Clear R R' k := by
  constructor
  · rintro h k
    rw [← fiber_foldl_difference hes, h]
  · exact fun h => eq_of_fiber_eq fun k => (fiber_foldl_difference hes k).mpr (h k)

end Edits
