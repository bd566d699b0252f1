import Mathlib.Data.Finset.Card

/-!
# Quorums of two shifting sets

Writers gather `q` members of one set, readers `q` members of another one, in which some
members always take part. Two such gatherings may miss each other. Whether they can is a
matter of counting.

- `Meet`: every gathering of the one kind has a member in every gathering of the other.
- `exists_disjoint`: where both sets are large enough, two gatherings that miss each other.
- `meet_iff`: the count that decides.
-/

namespace Quorums

universe u

variable {α : Type u} [DecidableEq α] {q : ℕ} {X Z T : Finset α}

/-- Every `q` members of `X` and every `q` members of `Z` that include `T` share one. -/
def Meet (q : ℕ) (X Z T : Finset α) : Prop :=
  ∀ A ⊆ X, q ≤ A.card → ∀ B ⊆ Z, T ⊆ B → q ≤ B.card → ¬ Disjoint A B

/-- Two gatherings that miss each other, when `X` holds none of `T`. -/
theorem exists_disjoint (hT : T ⊆ Z \ X) (hTq : T.card ≤ q) (hX : q ≤ X.card) (hZ : q ≤ Z.card)
    (hXZ : 2 * q ≤ (X ∪ Z).card) :
    ∃ A ⊆ X, A.card = q ∧ ∃ B ⊆ Z, T ⊆ B ∧ B.card = q ∧ Disjoint A B := by
  by_cases hrest : q ≤ (Z \ X).card
  · -- the readers stay out of `X`
    obtain ⟨B, hTB, hBZ, hB⟩ := Finset.exists_subsuperset_card_eq hT hTq hrest
    obtain ⟨A, hAX, hA⟩ := Finset.exists_subset_card_eq hX
    refine ⟨A, hAX, hA, B, hBZ.trans Finset.sdiff_subset, hTB, hB, ?_⟩
    exact Finset.disjoint_of_subset_left hAX
      (Finset.disjoint_of_subset_right hBZ Finset.disjoint_sdiff)
  · -- the readers take all of `Z` outside `X` and fill up; enough of `X` is left
    obtain ⟨B, hrestB, hBZ, hB⟩ := Finset.exists_subsuperset_card_eq
      (Finset.sdiff_subset : Z \ X ⊆ Z) (by omega) hZ
    have hcover : X ∪ Z ⊆ (X \ B) ∪ B := by
      intro x hx
      rw [Finset.mem_union, Finset.mem_sdiff]
      by_cases hxB : x ∈ B
      · exact Or.inr hxB
      · have hxX : x ∈ X := by
          by_contra hno
          have hxZ : x ∈ Z := (Finset.mem_union.mp hx).resolve_left hno
          exact hxB (hrestB (Finset.mem_sdiff.mpr ⟨hxZ, hno⟩))
        exact Or.inl ⟨hxX, hxB⟩
    have hleft : q ≤ (X \ B).card := by
      have hle := (Finset.card_le_card hcover).trans (Finset.card_union_le _ _)
      omega
    obtain ⟨A, hAX, hA⟩ := Finset.exists_subset_card_eq hleft
    refine ⟨A, hAX.trans Finset.sdiff_subset, hA, B, hBZ, hT.trans hrestB, hB, ?_⟩
    exact Finset.disjoint_of_subset_left hAX Finset.sdiff_disjoint

/-- **When all gatherings meet**: one of the sets is too small to gather `q` members, or the
two together are too small for twice as many. -/
theorem meet_iff (hT : T ⊆ Z) (hTq : T.card ≤ q) :
    Meet q X Z T ↔
      (X \ T).card < q ∨ Z.card < q ∨ ((X \ T) ∪ Z).card < 2 * q := by
  constructor
  · intro hmeet
    by_contra hcount
    rw [not_or, not_or, not_lt, not_lt, not_lt] at hcount
    obtain ⟨hX, hZ, hXZ⟩ := hcount
    have hout : T ⊆ Z \ (X \ T) := fun x hx =>
      Finset.mem_sdiff.mpr ⟨hT hx, fun hmem => (Finset.mem_sdiff.mp hmem).2 hx⟩
    obtain ⟨A, hAX, hA, B, hBZ, hTB, hB, hdisjoint⟩ := exists_disjoint hout hTq hX hZ hXZ
    exact hmeet A (hAX.trans Finset.sdiff_subset) hA.ge B hBZ hTB hB.ge hdisjoint
  · intro hcount A hAX hA B hBZ hTB hB hdisjoint
    have hAX' : A ⊆ X \ T := by
      intro x hx
      exact Finset.mem_sdiff.mpr
        ⟨hAX hx, fun hmem => Finset.disjoint_left.mp hdisjoint hx (hTB hmem)⟩
    have hcardX := Finset.card_le_card hAX'
    have hcardZ := Finset.card_le_card hBZ
    have hcardXZ := Finset.card_le_card (Finset.union_subset_union hAX' hBZ)
    rw [Finset.card_union_of_disjoint hdisjoint] at hcardXZ
    omega

end Quorums
