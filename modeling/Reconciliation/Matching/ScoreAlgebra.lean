/-
  Reconciliation.Matching.ScoreAlgebra — what the raw value of a pair's score says.

  The raw value is the share of the weight of the applicable features that the matching ones
  carry (`ratio_eq_share`). So it lies between 0 and 1 and is 1 exactly when every applicable
  feature with a weight matches. It does not depend on which side is the source, and the
  contributions are empty exactly when it is 0 (`scoreAlgebra`).
-/
import Reconciliation.Base.WeightedShare
import Reconciliation.Matching.Scorer

namespace Reconciliation.Matching

open Reconciliation.Base Reconciliation.Contracts Reconciliation.Evidence

/-! ## Features -/

/-- The features a score considers. -/
def scoredFeatures : Finset EvidenceType := {.persistentId, .semanticSignature, .normalizedLabel, .weightedSimilarity}

/-- The feature says something about the pair. -/
def Applicable (source target : NodeEvidence) : EvidenceType → Prop
  | .persistentId => source.persistentId ≠ none ∨ target.persistentId ≠ none
  | .semanticSignature => True
  | .normalizedLabel => source.label ≠ none ∨ target.label ≠ none
  | .weightedSimilarity => True
  | _ => False

/-- The feature is the same on both sides. -/
def Matches (source target : NodeEvidence) : EvidenceType → Prop
  | .persistentId => source.persistentId ≠ none ∧ source.persistentId = target.persistentId
  | .semanticSignature => source.signature = target.signature
  | .normalizedLabel => source.label ≠ none ∧ source.label = target.label
  | .weightedSimilarity => source.childSignature = target.childSignature
  | _ => False

instance (source target : NodeEvidence) : DecidablePred (Applicable source target) := fun feature => by
  cases feature <;> unfold Applicable <;> infer_instance

instance (source target : NodeEvidence) : DecidablePred (Matches source target) := fun feature => by
  cases feature <;> unfold Matches <;> infer_instance

section Features
variable {source target : NodeEvidence} {profile : MatchingProfile} {feature : EvidenceType}

theorem Matches.applicable (h : Matches source target feature) : Applicable source target feature := by
  cases feature with
  | persistentId => exact Or.inl h.1
  | normalizedLabel => exact Or.inl h.1
  | semanticSignature => trivial
  | weightedSimilarity => trivial
  | _ => exact h

theorem Applicable.scored (h : Applicable source target feature) : feature ∈ scoredFeatures := by
  cases feature <;> first | decide | exact h.elim

theorem applicable_comm : Applicable source target feature ↔ Applicable target source feature := by
  cases feature <;> simp [Applicable, or_comm]

theorem matches_comm : Matches source target feature ↔ Matches target source feature := by
  have hboth : ∀ a b : Option String, a ≠ none ∧ a = b ↔ b ≠ none ∧ b = a := by
    intro a b
    exact ⟨fun h => ⟨h.2 ▸ h.1, h.2.symm⟩, fun h => ⟨h.2 ▸ h.1, h.2.symm⟩⟩
  cases feature with
  | persistentId => exact hboth _ _
  | normalizedLabel => exact hboth _ _
  | semanticSignature => exact eq_comm
  | weightedSimilarity => exact eq_comm
  | _ => rfl

theorem matches_self (h : Applicable source source feature) : Matches source source feature := by
  cases feature with
  | persistentId => exact ⟨by simpa [Applicable] using h, rfl⟩
  | normalizedLabel => exact ⟨by simpa [Applicable] using h, rfl⟩
  | semanticSignature => rfl
  | weightedSimilarity => rfl
  | _ => exact h

theorem weightFor_nonneg (profile : MatchingProfile) (feature : EvidenceType) : 0 ≤ weightFor profile feature := by
  unfold weightFor
  cases profile.featureWeights.find? fun fw => fw.feature = feature with
  | none => exact le_refl _
  | some fw => exact fw.weight_nonneg

theorem gain_eq (profile : MatchingProfile) (feature : EvidenceType) (on : Bool) :
    gain profile feature on = if on = true then weightFor profile feature else 0 := by
  have hnonneg := weightFor_nonneg profile feature
  unfold gain
  by_cases hpos : 0 < weightFor profile feature
  · simp [hpos]
  · have hzero : weightFor profile feature = 0 := le_antisymm (not_lt.mp hpos) hnonneg
    simp [hzero]

/-! ## The raw value -/

variable (source target) in
def applicableFeatures : Finset EvidenceType := scoredFeatures.filter (Applicable source target)

variable (source target) in
def matchingFeatures : Finset EvidenceType := scoredFeatures.filter (Matches source target)

theorem matching_subset : matchingFeatures source target ⊆ applicableFeatures source target :=
  Finset.monotone_filter_right _ fun _ _ h => h.applicable

theorem tally_sums : (tallyPair source target profile).weightedSum = ∑ f ∈ matchingFeatures source target, weightFor profile f ∧
    (tallyPair source target profile).totalWeight = ∑ f ∈ applicableFeatures source target, weightFor profile f := by
  have hfour : ∀ g : EvidenceType → ℚ, ∑ f ∈ scoredFeatures, g f =
      g .persistentId + g .semanticSignature + g .normalizedLabel + g .weightedSimilarity := by
    intro g
    simp [scoredFeatures, add_assoc]
  unfold matchingFeatures applicableFeatures
  rw [tallyPair_sums.1, tallyPair_sums.2, Finset.sum_filter, Finset.sum_filter, hfour, hfour]
  simp [gain_eq, Applicable, Matches]

/-- The raw value is the share of the applicable weight that matches. -/
theorem ratio_eq_share : (tallyPair source target profile).ratio =
    share (weightFor profile) (applicableFeatures source target) (matchingFeatures source target) := by
  unfold Tally.ratio share
  rw [tally_sums.1, tally_sums.2]

/-- The tally lists contributions only when it has matched some weight. -/
theorem consider_positive {applicable matched : Bool} {value : Option String} {t : Tally}
    (h : t.contributions ≠ [] → 0 < t.weightedSum) :
    (consider profile feature applicable matched value t).contributions ≠ [] →
      0 < (consider profile feature applicable matched value t).weightedSum := by
  unfold consider
  by_cases hw : weightFor profile feature ≤ 0 ∨ applicable = false
  · simpa only [dif_pos hw] using h
  · have hpos : 0 < weightFor profile feature := not_le.mp fun hle => hw (Or.inl hle)
    cases matched with
    | true =>
      intro _
      have := t.sum_nonneg
      simp only [dif_neg hw, if_true]
      linarith
    | false => simpa [dif_neg hw] using h

theorem contributions_nil_iff : (tallyPair source target profile).contributions = [] ↔
    (tallyPair source target profile).weightedSum = 0 := by
  have hpositive : (tallyPair source target profile).contributions ≠ [] →
      0 < (tallyPair source target profile).weightedSum := by
    unfold tallyPair
    exact consider_positive (consider_positive (consider_positive (consider_positive (by simp [Tally.start]))))
  constructor
  · exact (tallyPair source target profile).sum_zero
  · intro hzero
    by_contra hne
    have := hpositive hne
    linarith

end Features

/-! ## The algebra -/

/-- What the raw value and the contributions of a pair say. -/
structure ScoreAlgebra (source target : NodeEvidence) (profile : MatchingProfile) : Prop where
  range : 0 ≤ (tallyPair source target profile).ratio ∧ (tallyPair source target profile).ratio ≤ 1
  symm : (tallyPair source target profile).ratio = (tallyPair target source profile).ratio
  /-- 1 is for pairs whose applicable features all match, as far as they have a weight -/
  one_iff : (tallyPair source target profile).ratio = 1 ↔
    (∃ f, Applicable source target f ∧ 0 < weightFor profile f) ∧
      ∀ f, Applicable source target f → 0 < weightFor profile f → Matches source target f
  self : (∃ f, Applicable source source f ∧ 0 < weightFor profile f) → (tallyPair source source profile).ratio = 1
  empty_iff : (scorePair source target profile).contributions = [] ↔ (tallyPair source target profile).ratio = 0
  /-- neither the raw value nor the rounded one reaches a positive threshold without evidence -/
  threshold : ∀ threshold : ℚ, 0 < threshold →
    threshold ≤ (tallyPair source target profile).ratio ∨ threshold ≤ (scorePair source target profile).value →
      (scorePair source target profile).contributions ≠ []

section Algebra
variable {source target : NodeEvidence} {profile : MatchingProfile}

theorem mem_applicable {feature : EvidenceType} :
    feature ∈ applicableFeatures source target ↔ Applicable source target feature := by
  unfold applicableFeatures
  rw [Finset.mem_filter]
  exact ⟨fun h => h.2, fun h => ⟨h.scored, h⟩⟩

theorem mem_matching {feature : EvidenceType} :
    feature ∈ matchingFeatures source target ↔ Matches source target feature := by
  unfold matchingFeatures
  rw [Finset.mem_filter]
  exact ⟨fun h => h.2, fun h => ⟨h.applicable.scored, h⟩⟩

theorem ratio_one_iff (source target : NodeEvidence) : (tallyPair source target profile).ratio = 1 ↔
    (∃ f, Applicable source target f ∧ 0 < weightFor profile f) ∧
      ∀ f, Applicable source target f → 0 < weightFor profile f → Matches source target f := by
  rw [ratio_eq_share, share_eq_one_iff (weightFor_nonneg profile) matching_subset]
  simp only [mem_applicable, mem_matching]

theorem ratio_zero_iff : (tallyPair source target profile).ratio = 0 ↔
    (scorePair source target profile).contributions = [] := by
  rw [ratio_eq_share, share_eq_zero_iff (weightFor_nonneg profile) matching_subset, ← tally_sums.1]
  exact contributions_nil_iff.symm

theorem scoreAlgebra (source target : NodeEvidence) (profile : MatchingProfile) : ScoreAlgebra source target profile where
  range := by
    rw [ratio_eq_share]
    exact share_range (weightFor_nonneg profile) matching_subset
  symm := by
    have happlicable : applicableFeatures source target = applicableFeatures target source :=
      Finset.ext fun f => by rw [mem_applicable, mem_applicable, applicable_comm]
    have hmatching : matchingFeatures source target = matchingFeatures target source :=
      Finset.ext fun f => by rw [mem_matching, mem_matching, matches_comm]
    rw [ratio_eq_share, ratio_eq_share, happlicable, hmatching]
  one_iff := ratio_one_iff source target
  self h := (ratio_one_iff source source).mpr ⟨h, fun _ hf _ => matches_self hf⟩
  empty_iff := ratio_zero_iff.symm
  threshold := by
    intro threshold hpos hreached hnil
    have hzero := ratio_zero_iff.mpr hnil
    have hvalue : (scorePair source target profile).value = 0 := by
      show round6 (tallyPair source target profile).ratio = 0
      rw [hzero, round6_zero]
    rcases hreached with h | h <;> linarith

end Algebra

end Reconciliation.Matching
