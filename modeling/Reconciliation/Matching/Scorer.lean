/-
  Reconciliation.Matching.Scorer — hard and soft constraints, the weighted feature score,
  and the confidence derived from it.

  Scores are exact rationals, rounded half to even at six decimals as the source rounds
  them. The running tally carries that the matched weight never exceeds the applicable
  weight, so a score lies between 0 and 1 by construction. The value is symmetric
  (`scorePair_value_symm`), 1 for a node against itself as soon as its signature or that of its
  children weighs (`scorePair_self`), and 0 without contributions (`contributions_ne_of_value`).
-/
import Reconciliation.Evidence.Extractor
import Reconciliation.Contracts.Matches

namespace Reconciliation.Matching

open Reconciliation.Base Reconciliation.Contracts Reconciliation.Evidence

/-! ## Constraints -/

/-- The hard and the soft violations of a pair. -/
def evaluateConstraints (source target : NodeEvidence) (profile : MatchingProfile) :
    List ConstraintViolation × List ConstraintViolation :=
  if source.nodeType ≠ target.nodeType then
    let violation : ConstraintViolation :=
      ⟨"NODE_TYPE_COMPATIBILITY", profile.hardConstraintNodeType,
        some [.text "node types differ: ", .quoted source.nodeType, .text " vs ", .quoted target.nodeType]⟩
    if profile.hardConstraintNodeType then ([violation], []) else ([], [violation])
  else ([], [])

/-- The pair violates no hard constraint. -/
def Compatible (source target : NodeEvidence) (profile : MatchingProfile) : Prop :=
  (evaluateConstraints source target profile).1 = []

instance (source target : NodeEvidence) (profile : MatchingProfile) : Decidable (Compatible source target profile) :=
  inferInstanceAs (Decidable (_ = _))

theorem compatible_iff {source target : NodeEvidence} {profile : MatchingProfile} :
    Compatible source target profile ↔ (profile.hardConstraintNodeType = true → source.nodeType = target.nodeType) := by
  unfold Compatible evaluateConstraints
  by_cases ht : source.nodeType = target.nodeType
  · simp [ht]
  · by_cases hp : profile.hardConstraintNodeType = true
    · simp [ht, hp]
    · simp [ht, hp]

/-! ## Rounding -/

/-- The nearest integer, ties to the even one. -/
def roundHalfEven (q : ℚ) : Int :=
  let low := q.floor
  let rest := q - low
  if rest < 1 / 2 then low else if 1 / 2 < rest then low + 1 else if low % 2 = 0 then low else low + 1

/-- `round(value, 6)`. -/
def round6 (q : ℚ) : ℚ := roundHalfEven (q * 1000000) / 1000000

theorem roundHalfEven_nonneg {q : ℚ} (h : 0 ≤ q) : 0 ≤ roundHalfEven q := by
  have hf : 0 ≤ q.floor := Rat.le_floor_iff.mpr (by simpa using h)
  unfold roundHalfEven
  simp only
  split_ifs <;> omega

theorem roundHalfEven_le {q : ℚ} {n : Int} (h : q ≤ n) : roundHalfEven q ≤ n := by
  have hf : (q.floor : ℚ) ≤ q := Rat.floor_le q
  have hle : q.floor ≤ n := by exact_mod_cast hf.trans h
  by_cases he : q.floor = n
  · have hq : q - n = 0 := by rw [he] at hf; linarith
    unfold roundHalfEven
    simp [hq, he]
  · have hlt : q.floor + 1 ≤ n := by omega
    unfold roundHalfEven
    simp only
    split_ifs <;> omega

theorem round6_range {q : ℚ} (h : 0 ≤ q ∧ q ≤ 1) : 0 ≤ round6 q ∧ round6 q ≤ 1 := by
  have h0 : 0 ≤ roundHalfEven (q * 1000000) := roundHalfEven_nonneg (by linarith [h.1])
  have h1 : roundHalfEven (q * 1000000) ≤ 1000000 := roundHalfEven_le (by push_cast; linarith [h.2])
  have h0' : (0 : ℚ) ≤ roundHalfEven (q * 1000000) := by exact_mod_cast h0
  have h1' : (roundHalfEven (q * 1000000) : ℚ) ≤ 1000000 := by exact_mod_cast h1
  unfold round6
  constructor
  · positivity
  · rw [div_le_one (by norm_num)]
    exact h1'

theorem round6_zero : round6 0 = 0 := by decide +kernel

theorem round6_one : round6 1 = 1 := by decide +kernel

/-! ## The tally -/

/-- What the features considered so far add up to. -/
structure Tally where
  weightedSum : ℚ
  totalWeight : ℚ
  contributions : List Evidence
  sum_nonneg : 0 ≤ weightedSum
  sum_le : weightedSum ≤ totalWeight
  sum_zero : contributions = [] → weightedSum = 0

def Tally.start : Tally := ⟨0, 0, [], le_refl _, le_refl _, fun _ => rfl⟩

/-- The first weight listed for a feature. -/
def weightFor (profile : MatchingProfile) (feature : EvidenceType) : ℚ :=
  ((profile.featureWeights.find? fun fw => fw.feature = feature).map FeatureWeight.weight).getD 0

/-- Fold one feature into the tally. -/
def consider (profile : MatchingProfile) (feature : EvidenceType) (applicable matched : Bool) (value : Option String)
    (t : Tally) : Tally :=
  let weight := weightFor profile feature
  if hw : weight ≤ 0 ∨ applicable = false then t
  else
    have hpos : 0 < weight := not_le.mp fun h => hw (Or.inl h)
    if matched then
      { weightedSum := t.weightedSum + weight
        totalWeight := t.totalWeight + weight
        contributions := t.contributions ++ [⟨feature, weight, value, hpos.le⟩]
        sum_nonneg := add_nonneg t.sum_nonneg hpos.le
        sum_le := by linarith [t.sum_le]
        sum_zero := fun h => absurd h (by simp) }
    else
      { t with
        totalWeight := t.totalWeight + weight
        sum_le := by linarith [t.sum_le] }

def Tally.ratio (t : Tally) : ℚ := if 0 < t.totalWeight then t.weightedSum / t.totalWeight else 0

theorem Tally.ratio_range (t : Tally) : 0 ≤ t.ratio ∧ t.ratio ≤ 1 := by
  unfold Tally.ratio
  split
  · rename_i h
    exact ⟨div_nonneg t.sum_nonneg h.le, (div_le_one h).mpr t.sum_le⟩
  · norm_num

/-- The features of a pair, in the order they are considered. -/
def tallyPair (source target : NodeEvidence) (profile : MatchingProfile) : Tally :=
  let idPresent := decide (source.persistentId ≠ none ∨ target.persistentId ≠ none)
  let idMatch := decide (source.persistentId ≠ none ∧ source.persistentId = target.persistentId)
  let labelPresent := decide (source.label ≠ none ∨ target.label ≠ none)
  let labelMatch := decide (source.label ≠ none ∧ source.label = target.label)
  Tally.start
    |> consider profile .persistentId idPresent idMatch source.persistentId
    |> consider profile .semanticSignature true (decide (source.signature = target.signature)) none
    |> consider profile .normalizedLabel labelPresent labelMatch source.label
    |> consider profile .weightedSimilarity true (decide (source.childSignature = target.childSignature)) none

def scorePair (source target : NodeEvidence) (profile : MatchingProfile) : FeatureScore where
  value := round6 (tallyPair source target profile).ratio
  contributions := (tallyPair source target profile).contributions
  range := round6_range (tallyPair source target profile).ratio_range

def deriveConfidence (score : FeatureScore) (calibration : CalibrationInfo) : Confidence :=
  ⟨score.value, calibration.calibrated, calibration.model, score.range⟩

/-! ## Properties of the score -/

section Score
variable {source target : NodeEvidence} {profile : MatchingProfile}

/-- What a feature adds to a sum when it is switched on. -/
def gain (profile : MatchingProfile) (feature : EvidenceType) (on : Bool) : ℚ :=
  if 0 < weightFor profile feature ∧ on = true then weightFor profile feature else 0

theorem gain_nonneg (profile : MatchingProfile) (feature : EvidenceType) (on : Bool) : 0 ≤ gain profile feature on := by
  unfold gain
  split
  · rename_i h; exact h.1.le
  · exact le_refl _

theorem consider_sum {feature : EvidenceType} {applicable matched : Bool} {value : Option String} {t : Tally} :
    (consider profile feature applicable matched value t).weightedSum =
        t.weightedSum + gain profile feature (applicable && matched) ∧
      (consider profile feature applicable matched value t).totalWeight =
        t.totalWeight + gain profile feature applicable := by
  unfold consider gain
  by_cases hw : weightFor profile feature ≤ 0
  · simp [hw]
  · have hpos : 0 < weightFor profile feature := not_le.mp hw
    cases applicable with
    | false => simp
    | true => cases matched <;> simp [hw, hpos]

/-- The sums of a pair are those of its features. -/
theorem tallyPair_sums :
    (tallyPair source target profile).weightedSum =
        gain profile .persistentId (decide (source.persistentId ≠ none ∧ source.persistentId = target.persistentId)) +
        gain profile .semanticSignature (decide (source.signature = target.signature)) +
        gain profile .normalizedLabel (decide (source.label ≠ none ∧ source.label = target.label)) +
        gain profile .weightedSimilarity (decide (source.childSignature = target.childSignature)) ∧
      (tallyPair source target profile).totalWeight =
        gain profile .persistentId (decide (source.persistentId ≠ none ∨ target.persistentId ≠ none)) +
        gain profile .semanticSignature true +
        gain profile .normalizedLabel (decide (source.label ≠ none ∨ target.label ≠ none)) +
        gain profile .weightedSimilarity true := by
  have himp : ∀ a b : Option String, (decide (a ≠ none ∨ b ≠ none) && decide (a ≠ none ∧ a = b)) =
      decide (a ≠ none ∧ a = b) := by
    intro a b
    by_cases h : a ≠ none ∧ a = b
    · simp [h]
    · simp [h]
  unfold tallyPair
  simp only [(consider_sum).1, (consider_sum).2, himp, Bool.true_and, Tally.start, zero_add, and_self]

theorem ratio_eq {t t' : Tally} (hs : t.weightedSum = t'.weightedSum) (ht : t.totalWeight = t'.totalWeight) :
    t.ratio = t'.ratio := by
  unfold Tally.ratio
  rw [hs, ht]

/-- The value of a score does not depend on which side is the source. -/
theorem scorePair_value_symm : (scorePair source target profile).value = (scorePair target source profile).value := by
  have hmatch : ∀ a b : Option String, (a ≠ none ∧ a = b) = (b ≠ none ∧ b = a) := by
    intro a b
    refine propext ⟨fun h => ⟨h.2 ▸ h.1, h.2.symm⟩, fun h => ⟨h.2 ▸ h.1, h.2.symm⟩⟩
  have hor : ∀ a b : Option String, (a ≠ none ∨ b ≠ none) = (b ≠ none ∨ a ≠ none) := fun a b => propext or_comm
  unfold scorePair
  refine congrArg round6 (ratio_eq ?_ ?_)
  · rw [tallyPair_sums.1, tallyPair_sums.1]
    simp only [hmatch source.persistentId, hmatch source.label, eq_comm (a := source.signature),
      eq_comm (a := source.childSignature)]
  · rw [tallyPair_sums.2, tallyPair_sums.2]
    simp only [hor source.persistentId, hor source.label]

theorem gain_true (profile : MatchingProfile) {feature : EvidenceType} (h : 0 < weightFor profile feature) :
    gain profile feature true = weightFor profile feature := by
  simp [gain, h]

/-- A feature that every node has, its signature or that of its children, has a weight. -/
def Discerning (profile : MatchingProfile) : Prop :=
  0 < weightFor profile .semanticSignature ∨ 0 < weightFor profile .weightedSimilarity

instance (profile : MatchingProfile) : Decidable (Discerning profile) :=
  inferInstanceAs (Decidable (_ ∨ _))

/-- A node scores 1 against itself under a discerning profile. -/
theorem scorePair_self (h : Discerning profile) : (scorePair source source profile).value = 1 := by
  have hor : ∀ a : Option String, (a ≠ none ∨ a ≠ none) = (a ≠ none ∧ a = a) := fun a => by simp
  have hsum : (tallyPair source source profile).weightedSum = (tallyPair source source profile).totalWeight := by
    rw [tallyPair_sums.1, tallyPair_sums.2]
    simp only [hor, decide_true]
  have hpos : 0 < (tallyPair source source profile).totalWeight := by
    rw [tallyPair_sums.2]
    have h1 := gain_nonneg profile .persistentId (decide (source.persistentId ≠ none ∨ source.persistentId ≠ none))
    have h2 := gain_nonneg profile .semanticSignature true
    have h3 := gain_nonneg profile .normalizedLabel (decide (source.label ≠ none ∨ source.label ≠ none))
    have h4 := gain_nonneg profile .weightedSimilarity true
    rcases h with h | h
    · have hs := gain_true profile h
      linarith
    · have hs := gain_true profile h
      linarith
  have hratio : (tallyPair source source profile).ratio = 1 := by
    unfold Tally.ratio
    rw [if_pos hpos, hsum, div_self hpos.ne']
  show round6 (tallyPair source source profile).ratio = 1
  rw [hratio, round6_one]

/-- A score that is not 0 has contributions. -/
theorem contributions_ne_of_value (h : (scorePair source target profile).value ≠ 0) :
    (scorePair source target profile).contributions ≠ [] := by
  intro hnil
  have hz : (tallyPair source target profile).weightedSum = 0 := (tallyPair source target profile).sum_zero hnil
  have hratio : (tallyPair source target profile).ratio = 0 := by
    unfold Tally.ratio
    rw [hz, zero_div, ite_self]
  refine h ?_
  show round6 (tallyPair source target profile).ratio = 0
  rw [hratio, round6_zero]

end Score

end Reconciliation.Matching
