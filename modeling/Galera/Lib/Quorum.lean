/-
  Galera.Lib.Quorum
  ─────────────────
  **WEIGHTED MAJORITIES WITH DEPARTED MEMBERS.**

  A group `P` of weighted members splits.  A side `M` that stays together
  claims the group if the members it keeps, counted twice, and the members
  `L` that it saw leave, counted once, outweigh all of `P`:

      w(P) < 2 * w(M) + w(L)

  Two sides whose staying members are disjoint, and whose departed members
  are none of the staying ones, cannot both claim the group: the departed
  sets may overlap, but together they weigh at most twice their union, and
  `M₁`, `M₂` and `L₁ ∪ L₂` lie disjointly inside `P`.

    * `sum_add_sum_le_two_mul_sum_union` — `w(s) + w(t) ≤ 2 * w(s ∪ t)`;
    * `not_two_majorities` — the exclusion.
-/
import Mathlib

namespace Galera.Quorum

open Finset

variable {α : Type*} [DecidableEq α] (w : α → ℕ)

/-- Two sets weigh at most twice their union: what they share is counted
twice on the left and at most once more on the right. -/
theorem sum_add_sum_le_two_mul_sum_union (s t : Finset α) :
    ∑ x ∈ s, w x + ∑ x ∈ t, w x ≤ 2 * ∑ x ∈ s ∪ t, w x := by
  have hsplit : ∑ x ∈ s ∪ t, w x + ∑ x ∈ s ∩ t, w x = ∑ x ∈ s, w x + ∑ x ∈ t, w x :=
    sum_union_inter
  have hinter : ∑ x ∈ s ∩ t, w x ≤ ∑ x ∈ s ∪ t, w x :=
    sum_le_sum_of_subset inter_subset_union
  omega

/-- Two sides with disjoint staying members, neither of whose departed
members stays on either side, do not both hold a weighted majority of `P`. -/
theorem not_two_majorities {P M₁ M₂ L₁ L₂ : Finset α}
    (hM₁ : M₁ ⊆ P) (hM₂ : M₂ ⊆ P) (hL₁ : L₁ ⊆ P) (hL₂ : L₂ ⊆ P)
    (hM : Disjoint M₁ M₂) (hL : Disjoint (M₁ ∪ M₂) (L₁ ∪ L₂))
    (h₁ : ∑ x ∈ P, w x < 2 * ∑ x ∈ M₁, w x + ∑ x ∈ L₁, w x)
    (h₂ : ∑ x ∈ P, w x < 2 * ∑ x ∈ M₂, w x + ∑ x ∈ L₂, w x) : False := by
  have hL₁₂ := sum_add_sum_le_two_mul_sum_union w L₁ L₂
  have hsub : M₁ ∪ M₂ ∪ (L₁ ∪ L₂) ⊆ P :=
    union_subset (union_subset hM₁ hM₂) (union_subset hL₁ hL₂)
  have hparts : ∑ x ∈ M₁, w x + ∑ x ∈ M₂, w x + ∑ x ∈ L₁ ∪ L₂, w x ≤ ∑ x ∈ P, w x :=
    calc ∑ x ∈ M₁, w x + ∑ x ∈ M₂, w x + ∑ x ∈ L₁ ∪ L₂, w x
        = ∑ x ∈ M₁ ∪ M₂ ∪ (L₁ ∪ L₂), w x := by
          rw [sum_union hL, sum_union hM]
      _ ≤ ∑ x ∈ P, w x := sum_le_sum_of_subset hsub
  omega

end Galera.Quorum
