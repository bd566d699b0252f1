import Mathlib.Data.List.Forall2

/-!
# Lists that agree element by element

What `List.Forall₂` says of the elements of two lists, and how a list in between is found.

- `exists_of_mem_left`, `exists_of_mem_right`: the partner of an element.
- `exists_forall₂`: a list of answers; `exists_forall₂_comp`: one that is in between.
- `forall₂_iff_of_mem`: a relation in place of another that is the same on partners.
- `forall₂_iff_right`: a relation of pairs that is a property of one side.
- `forall₂_range_iff`: a list beside the numbers of its places.
-/

namespace Pairings

open List

variable {α β γ : Type*} {R S : α → β → Prop} {as : List α} {bs : List β}

/-- The partner of an element on the left. -/
theorem exists_of_mem_left {a : α} (h : Forall₂ R as bs) (ha : a ∈ as) : ∃ b ∈ bs, R a b := by
  induction h with
  | nil => cases ha
  | @cons a' b as bs hab _ ih =>
    rcases mem_cons.mp ha with rfl | ha
    · exact ⟨b, mem_cons_self, hab⟩
    · obtain ⟨b', hb', hr⟩ := ih ha
      exact ⟨b', mem_cons_of_mem b hb', hr⟩

/-- The partner of an element on the right. -/
theorem exists_of_mem_right {b : β} (h : Forall₂ R as bs) (hb : b ∈ bs) : ∃ a ∈ as, R a b :=
  exists_of_mem_left h.flip hb

/-- A list of answers, where each element has one. -/
theorem exists_forall₂ (h : ∀ a ∈ as, ∃ b, R a b) : ∃ bs, Forall₂ R as bs := by
  induction as with
  | nil => exact ⟨[], .nil⟩
  | cons a as ih =>
    obtain ⟨b, hb⟩ := h a mem_cons_self
    obtain ⟨bs, hbs⟩ := ih fun a' ha' => h a' (mem_cons_of_mem a ha')
    exact ⟨b :: bs, .cons hb hbs⟩

/-- **A list in between** is found element by element. -/
theorem exists_forall₂_comp {T : β → γ → Prop} {cs : List γ} :
    (∃ bs, Forall₂ R as bs ∧ Forall₂ T bs cs) ↔
      Forall₂ (fun a c => ∃ b, R a b ∧ T b c) as cs := by
  constructor
  · rintro ⟨bs, hr, ht⟩
    induction hr generalizing cs with
    | nil =>
      rw [forall₂_nil_left_iff.mp ht]
      exact .nil
    | @cons a b as bs hab _ ih =>
      obtain ⟨c, cs', hbc, hrest, rfl⟩ := forall₂_cons_left_iff.mp ht
      exact .cons ⟨b, hab, hbc⟩ (ih hrest)
  · intro h
    induction h with
    | nil => exact ⟨[], .nil, .nil⟩
    | cons hac _ ih =>
      obtain ⟨b, hab, hbc⟩ := hac
      obtain ⟨bs, hr, ht⟩ := ih
      exact ⟨b :: bs, .cons hab hr, .cons hbc ht⟩

/-- A relation that is the same on the elements of the two lists. -/
theorem forall₂_iff_of_mem (h : ∀ a ∈ as, ∀ b ∈ bs, R a b ↔ S a b) :
    Forall₂ R as bs ↔ Forall₂ S as bs := by
  induction as generalizing bs with
  | nil => rw [forall₂_nil_left_iff, forall₂_nil_left_iff]
  | cons a as ih =>
    cases bs with
    | nil => exact ⟨nofun, nofun⟩
    | cons b bs =>
      rw [forall₂_cons, forall₂_cons, h a mem_cons_self b mem_cons_self,
        ih fun a' ha' b' hb' => h a' (mem_cons_of_mem a ha') b' (mem_cons_of_mem b hb')]

/-- **A property of one side**, where it is what the relation says of partners. -/
theorem forall₂_iff_right {p : β → Prop} (hpairs : Forall₂ R as bs)
    (h : ∀ a, ∀ b ∈ bs, R a b → (S a b ↔ p b)) : Forall₂ S as bs ↔ ∀ b ∈ bs, p b := by
  induction hpairs with
  | nil => simp
  | @cons a b as bs hab _ ih =>
    rw [forall₂_cons, forall_mem_cons, h a b mem_cons_self hab,
      ih fun a' b' hb' => h a' b' (mem_cons_of_mem b hb')]

/-- A list beside the numbers of its places. -/
theorem forall₂_range_iff {T : ℕ → β → Prop} {size : ℕ} :
    Forall₂ T (range size) bs ↔ bs.length = size ∧ ∀ i b, bs[i]? = some b → T i b := by
  rw [forall₂_iff_get]
  constructor
  · rintro ⟨hlength, h⟩
    rw [length_range] at hlength
    refine ⟨hlength.symm, fun i b hb => ?_⟩
    obtain ⟨hlt, rfl⟩ := List.getElem?_eq_some_iff.mp hb
    simpa using h i (by rwa [length_range, hlength]) hlt
  · rintro ⟨hlength, h⟩
    refine ⟨length_range.trans hlength.symm, fun i _ hlt => ?_⟩
    simpa using h i _ (List.getElem?_eq_getElem hlt)

end Pairings
