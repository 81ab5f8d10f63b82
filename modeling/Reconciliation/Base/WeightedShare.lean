/-
  Reconciliation.Base.WeightedShare — the share of a weight that some of the indices carry.

  Of the indices `A` that count, `M` are met; the share is what the weights of `M` are of those
  of `A`, and 0 when nothing weighs. It lies between 0 and 1 (`share_range`), is 1 exactly
  when something weighs and all that weighs is met (`share_eq_one_iff`), and 0 exactly when
  nothing that is met weighs (`share_eq_zero_iff`). What is not met bounds it, however many
  other indices count (`share_le_without`).
-/
import Mathlib

namespace Reconciliation.Base

section Share
variable {ι : Type*} {w : ι → ℚ} {A M : Finset ι}

def share (w : ι → ℚ) (A M : Finset ι) : ℚ := if 0 < ∑ i ∈ A, w i then (∑ i ∈ M, w i) / ∑ i ∈ A, w i else 0

variable (hw : ∀ i, 0 ≤ w i) (hM : M ⊆ A)

include hw hM

theorem sum_met_le : ∑ i ∈ M, w i ≤ ∑ i ∈ A, w i := Finset.sum_le_sum_of_subset_of_nonneg hM fun i _ _ => hw i

theorem share_range : 0 ≤ share w A M ∧ share w A M ≤ 1 := by
  unfold share
  by_cases hpos : 0 < ∑ i ∈ A, w i
  · rw [if_pos hpos, div_le_one hpos]
    exact ⟨div_nonneg (Finset.sum_nonneg fun i _ => hw i) hpos.le, sum_met_le hw hM⟩
  · rw [if_neg hpos]
    norm_num

/-- What is met weighs as much as what counts exactly when nothing else weighs. -/
theorem sum_met_eq_iff : ∑ i ∈ M, w i = ∑ i ∈ A, w i ↔ ∀ i ∈ A, 0 < w i → i ∈ M := by
  classical
  rw [← Finset.sum_sdiff hM, right_eq_add, Finset.sum_eq_zero_iff_of_nonneg fun i _ => hw i]
  constructor
  · intro h i hi hpos
    by_contra hnot
    have := h i (Finset.mem_sdiff.mpr ⟨hi, hnot⟩)
    linarith
  · intro h i hi
    obtain ⟨hA, hnot⟩ := Finset.mem_sdiff.mp hi
    by_contra hne
    exact hnot (h i hA (lt_of_le_of_ne (hw i) (Ne.symm hne)))

theorem share_eq_one_iff : share w A M = 1 ↔ (∃ i ∈ A, 0 < w i) ∧ ∀ i ∈ A, 0 < w i → i ∈ M := by
  have htotal : 0 < ∑ i ∈ A, w i ↔ ∃ i ∈ A, 0 < w i := Finset.sum_pos_iff_of_nonneg fun i _ => hw i
  unfold share
  by_cases hpos : 0 < ∑ i ∈ A, w i
  · rw [if_pos hpos, div_eq_one_iff_eq hpos.ne', sum_met_eq_iff hw hM]
    exact ⟨fun h => ⟨htotal.mp hpos, h⟩, fun h => h.2⟩
  · rw [if_neg hpos]
    exact ⟨fun h => absurd h (by norm_num), fun h => absurd (htotal.mpr h.1) hpos⟩

theorem share_eq_zero_iff : share w A M = 0 ↔ ∑ i ∈ M, w i = 0 := by
  have hle := sum_met_le hw hM
  have hnonneg : 0 ≤ ∑ i ∈ M, w i := Finset.sum_nonneg fun i _ => hw i
  unfold share
  by_cases hpos : 0 < ∑ i ∈ A, w i
  · rw [if_pos hpos, div_eq_zero_iff]
    exact ⟨fun h => h.resolve_right hpos.ne', fun h => Or.inl h⟩
  · rw [if_neg hpos]
    exact ⟨fun _ => by linarith, fun _ => rfl⟩

omit hM in
/-- When the indices of `J` count and none of them is met, the share is at most that of all the others. -/
theorem share_le_without [DecidableEq ι] {B J : Finset ι} (hJ : J ⊆ A) (hM : M ⊆ A \ J) (hB : A ⊆ B) :
    share w A M ≤ share w B (B \ J) := by
  have hmet : ∑ i ∈ M, w i ≤ ∑ i ∈ A \ J, w i := Finset.sum_le_sum_of_subset_of_nonneg hM fun i _ _ => hw i
  have hothers : ∑ i ∈ A \ J, w i ≤ ∑ i ∈ B \ J, w i :=
    Finset.sum_le_sum_of_subset_of_nonneg (Finset.sdiff_subset_sdiff hB (subset_refl J)) fun i _ _ => hw i
  have hsplit : ∑ i ∈ A \ J, w i + ∑ i ∈ J, w i = ∑ i ∈ A, w i := Finset.sum_sdiff hJ
  have hsplit' : ∑ i ∈ B \ J, w i + ∑ i ∈ J, w i = ∑ i ∈ B, w i := Finset.sum_sdiff (hJ.trans hB)
  have hnonneg : 0 ≤ ∑ i ∈ J, w i := Finset.sum_nonneg fun i _ => hw i
  unfold share
  by_cases hpos : 0 < ∑ i ∈ A, w i
  · have hpos' : 0 < ∑ i ∈ B, w i := by linarith
    rw [if_pos hpos, if_pos hpos', div_le_div_iff₀ hpos hpos', ← hsplit, ← hsplit']
    -- x / (x + j) grows with x
    nlinarith
  · rw [if_neg hpos]
    exact (share_range hw (Finset.sdiff_subset)).1

end Share

end Reconciliation.Base
