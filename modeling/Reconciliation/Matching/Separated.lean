/-
  Reconciliation.Matching.Separated — trees that are matched by their ids under a profile that
  weighs more than ids.

  Where nodes of different ids score below the threshold by more than the margin
  (`Separated`), the nodes that share an id correspond, and beside them at most the roots
  (`corresponding_cases`). Nothing is left open, and every pair to be asserted has evidence. An
  id outweighs the other features when the share they have without it is low enough
  (`separated_of_outweighed`); the packaged profile for XML is of this kind. Under the packaged
  profile for DITA only nodes that agree in everything but the id are not held apart
  (`separated_of_unlike`).
-/
import Reconciliation.Builders
import Reconciliation.Matching.Identified
import Reconciliation.Matching.ScoreAlgebra

namespace Reconciliation.Matching

open Reconciliation.Base Reconciliation.Base.ClearChoice Reconciliation.Contracts Reconciliation.Evidence

/-- A shared id decides, and is evidence. -/
structure DecidedById (profile : MatchingProfile) : Prop where
  authoritative : .persistentId ∈ profile.authoritativeIdFeatures
  weight_pos : 0 < weightFor profile .persistentId
  threshold_pos : 0 < profile.matchThreshold

open Reconciliation.Builders in
theorem ditaMap_decided : DecidedById defaultMatchingProfile := ⟨by decide, by decide +kernel, by decide +kernel⟩

/-- Two compatible nodes of different ids, or of which only one has an id, are no match, not even within the margin. -/
structure Separated (evidence : EvidenceIndex) (profile : MatchingProfile) : Prop extends DecidedById profile where
  apart : ∀ s t a b, evidence.source.val.get? s = some a → evidence.target.val.get? t = some b →
    Compatible a b profile → a.persistentId ≠ b.persistentId →
      (scorePair a b profile).value + profile.ambiguityMargin < profile.matchThreshold

/-! ## Evidence -/

/-- Where nothing is left open, every pair to be asserted has evidence: the id, or a positive score. -/
theorem DecidedById.supported {evidence : EvidenceIndex} {profile : MatchingProfile} (hp : DecidedById profile)
    (hno : ∀ s t, ¬ (table evidence profile).Edge s t) : Supported evidence profile where
  ids := by
    intro p hmem
    obtain ⟨-, hshared, -⟩ := mem_authoritativePairs.mp hmem
    obtain ⟨-, -, i, hs, ht, -⟩ := sharedIdPairs_sound hshared
    have hmatches : EvidenceType.persistentId ∈ matchingFeatures p.1 p.2 :=
      mem_matching.mpr ⟨by rw [hs]; simp, hs.trans ht.symm⟩
    have hsum : 0 < (tallyPair p.1 p.2 profile).weightedSum := by
      rw [tally_sums.1]
      exact Finset.sum_pos' (fun f _ => weightFor_nonneg profile f) ⟨_, hmatches, hp.weight_pos⟩
    intro hnil
    exact hsum.ne' (contributions_nil_iff.mp hnil)
  similar := by
    intro s t a b ha hb h
    rcases h with h | h
    · exact absurd h (hno s t)
    · obtain ⟨v, hpick⟩ := h.pick
      obtain ⟨-, -, a', b', ha', hb', -, hv, -⟩ := admits_iff.mp hpick.1
      obtain rfl := Option.some.inj (ha.symm.trans ha')
      obtain rfl := Option.some.inj (hb.symm.trans hb')
      refine contributions_ne_of_value ?_
      rw [hv]
      exact (hp.threshold_pos.trans_le hpick.2.1).ne'

/-! ## Correspondence -/

section Runs
variable [PyRuntime] {source target : CanonicalTree} {evidence : EvidenceIndex} {profile : MatchingProfile}
  (hid : Identified source target) (hp : Separated evidence profile) (he : extract source target = .ok evidence)
  {s t : NodeRef}

include hid hp he

/-- A free pair that is worth considering beside a pick is the pair of the roots. -/
theorem roots_of_admits {v : ℚ} (h : (table evidence profile).Admits s t v)
    (hv : profile.matchThreshold ≤ v + profile.ambiguityMargin) :
    s = source.rootNodeRef ∧ t = target.rootNodeRef := by
  obtain ⟨hes, het, -, -⟩ := extract_ok.mp he
  obtain ⟨hs, -, a, b, ha, hb, hcompatible, hvalue, -⟩ := admits_iff.mp h
  have hsame : a.persistentId = b.persistentId := by
    by_contra hne
    have happart := hp.apart s t a b ha hb hcompatible hne
    rw [hvalue] at happart
    exact absurd hv happart.not_ge
  have hnone : a.persistentId = none := by
    by_contra hsome
    obtain ⟨i, hi⟩ := Option.ne_none_iff_exists'.mp hsome
    refine (mem_freeSources.mp hs).2 t ((authoritative_iff_same hid he hp.authoritative).mpr ⟨i, ?_, ?_⟩)
    · exact (evidence_id_iff hes).mp ⟨a, ha, hi⟩
    · exact (evidence_id_iff het).mp ⟨b, hb, hsame ▸ hi⟩
  have hsource : idOf source s = none := by
    by_contra hsome
    obtain ⟨i, hi⟩ := Option.ne_none_iff_exists'.mp hsome
    obtain ⟨a', ha', hi'⟩ := (evidence_id_iff hes).mpr hi
    obtain rfl := Option.some.inj (ha.symm.trans ha')
    rw [hnone] at hi'
    cases hi'
  have htarget : idOf target t = none := by
    by_contra hsome
    obtain ⟨i, hi⟩ := Option.ne_none_iff_exists'.mp hsome
    obtain ⟨b', hb', hi'⟩ := (evidence_id_iff het).mpr hi
    obtain rfl := Option.some.inj (hb.symm.trans hb')
    rw [← hsame, hnone] at hi'
    cases hi'
  have hs' := (mem_keys_extractTree hes).mp ((Dict.mem_keys _).mpr ⟨a, ha⟩)
  have ht' := (mem_keys_extractTree het).mp ((Dict.mem_keys _).mpr ⟨b, hb⟩)
  exact ⟨(hid.source_ids s hs').mp hsource, (hid.target_ids t ht').mp htarget⟩

theorem roots_of_pick {v : ℚ} (h : (table evidence profile).Pick s t v) :
    s = source.rootNodeRef ∧ t = target.rootNodeRef := by
  refine roots_of_admits hid hp he h.1 ?_
  have hmargin := profile.ambiguityMargin_range.1
  have hthreshold : profile.matchThreshold ≤ v := h.2.1
  linarith

theorem roots_of_edge (h : (table evidence profile).Edge s t) : s = source.rootNodeRef ∧ t = target.rootNodeRef := by
  rcases h with ⟨-, t₀, v, w, hpick, hadmits, hnear⟩ | ⟨-, v, hpick, -⟩
  · have hthreshold : profile.matchThreshold ≤ v := hpick.2.1
    have hmargin : v - w ≤ profile.ambiguityMargin := hnear
    exact roots_of_admits hid hp he hadmits (by linarith)
  · exact roots_of_pick hid hp he hpick

theorem not_edge_separated : ¬ (table evidence profile).Edge s t := by
  intro h
  obtain ⟨s', t', hother, hne, -⟩ := h.exists_other
  obtain ⟨rfl, rfl⟩ := roots_of_edge hid hp he h
  obtain ⟨hs, ht⟩ := roots_of_edge hid hp he hother
  exact hne (Prod.ext hs ht)

theorem corresponding_cases (h : Corresponding evidence profile s t) :
    SameId source target s t ∨ (s = source.rootNodeRef ∧ t = target.rootNodeRef) := by
  rcases h with h | h
  · exact Or.inl ((authoritative_iff_same hid he hp.authoritative).mp h)
  · obtain ⟨v, hpick⟩ := h.pick
    exact Or.inr (roots_of_pick hid hp he hpick)

end Runs

/-! ## When ids separate -/

theorem roundHalfEven_mono {x y : ℚ} (h : x ≤ y) : roundHalfEven x ≤ roundHalfEven y := by
  have hfloor : x.floor ≤ y.floor := Rat.le_floor_iff.mpr ((Rat.floor_le x).trans h)
  by_cases heq : x.floor = y.floor
  · have hrest : x - x.floor ≤ y - y.floor := by
      rw [heq]
      linarith
    unfold roundHalfEven
    simp only [heq] at hrest ⊢
    split_ifs with h₁ h₂ h₃ h₄ h₅ h₆ h₇ h₈ <;> first | omega | (exfalso; linarith)
  · have hlow : roundHalfEven x ≤ x.floor + 1 := by
      unfold roundHalfEven
      simp only
      split_ifs <;> omega
    have hhigh : y.floor ≤ roundHalfEven y := by
      unfold roundHalfEven
      simp only
      split_ifs <;> omega
    omega

theorem round6_mono {x y : ℚ} (h : x ≤ y) : round6 x ≤ round6 y := by
  have hint : (roundHalfEven (x * 1000000) : ℚ) ≤ roundHalfEven (y * 1000000) := by
    exact_mod_cast roundHalfEven_mono (by linarith)
  unfold round6
  linarith

/-- The largest score of two nodes of which the features of `J` count and do not match. -/
def scoreWithout (profile : MatchingProfile) (features J : Finset EvidenceType) : ℚ :=
  round6 (share (weightFor profile) features (features \ J))

section Scores
variable {source target : NodeEvidence} {profile : MatchingProfile} {features J : Finset EvidenceType}

theorem score_le_without (hfeatures : applicableFeatures source target ⊆ features)
    (hJ : ∀ f ∈ J, f ∈ scoredFeatures ∧ Applicable source target f ∧ ¬ Matches source target f) :
    (scorePair source target profile).value ≤ scoreWithout profile features J := by
  have hcount : J ⊆ applicableFeatures source target := fun f hf =>
    Finset.mem_filter.mpr ⟨(hJ f hf).1, (hJ f hf).2.1⟩
  have hmet : matchingFeatures source target ⊆ applicableFeatures source target \ J := fun f hf =>
    Finset.mem_sdiff.mpr ⟨matching_subset hf, fun hin => (hJ f hin).2.2 (Finset.mem_filter.mp hf).2⟩
  refine round6_mono ?_
  rw [ratio_eq_share]
  exact share_le_without (weightFor_nonneg profile) hcount hmet hfeatures

theorem id_unmet (h : source.persistentId ≠ target.persistentId) :
    EvidenceType.persistentId ∈ scoredFeatures ∧ Applicable source target .persistentId ∧
      ¬ Matches source target .persistentId := by
  refine ⟨by decide, ?_, fun hmatches => h hmatches.2⟩
  by_contra hnone
  simp only [Applicable, not_or, not_not] at hnone
  exact h (hnone.1.trans hnone.2.symm)

end Scores

/-- Ids separate when all other features together do not make a match. -/
theorem separated_of_outweighed {evidence : EvidenceIndex} {profile : MatchingProfile} (hp : DecidedById profile)
    (h : scoreWithout profile scoredFeatures {.persistentId} + profile.ambiguityMargin < profile.matchThreshold) :
    Separated evidence profile where
  toDecidedById := hp
  apart := by
    intro s t a b _ _ _ hne
    have hle : (scorePair a b profile).value ≤ scoreWithout profile scoredFeatures {.persistentId} :=
      score_le_without (Finset.filter_subset _ _) fun f hf => Finset.mem_singleton.mp hf ▸ id_unmet hne
    linarith

/-- The nodes agree in everything the score sees but the id, and they have a label. -/
def Lookalikes (source target : NodeEvidence) : Prop :=
  source.signature = target.signature ∧ (source.label ≠ none ∧ source.label = target.label) ∧
    source.childSignature = target.childSignature

/-- They separate as well when any two of the features, or all but the label, make no match, and no two
    nodes of different ids are lookalikes. -/
theorem separated_of_unlike {evidence : EvidenceIndex} {profile : MatchingProfile} (hp : DecidedById profile)
    (hunlabelled : scoreWithout profile (scoredFeatures.erase .normalizedLabel) {.persistentId} +
      profile.ambiguityMargin < profile.matchThreshold)
    (htwo : ∀ f ∈ scoredFeatures, f ≠ .persistentId →
      scoreWithout profile scoredFeatures {.persistentId, f} + profile.ambiguityMargin < profile.matchThreshold)
    (hunlike : ∀ s t a b, evidence.source.val.get? s = some a → evidence.target.val.get? t = some b →
      Compatible a b profile → a.persistentId ≠ b.persistentId → ¬ Lookalikes a b) : Separated evidence profile where
  toDecidedById := hp
  apart := by
    intro s t a b ha hb hcompatible hne
    by_cases hlabel : Applicable a b .normalizedLabel
    · have hx : ∃ f ∈ scoredFeatures, f ≠ .persistentId ∧ Applicable a b f ∧ ¬ Matches a b f := by
        by_contra hall
        push Not at hall
        exact hunlike s t a b ha hb hcompatible hne
          ⟨hall .semanticSignature (by decide) (by decide) trivial, hall .normalizedLabel (by decide) (by decide) hlabel,
            hall .weightedSimilarity (by decide) (by decide) trivial⟩
      obtain ⟨f, hf, hother, happlies, hunmet⟩ := hx
      have hle : (scorePair a b profile).value ≤ scoreWithout profile scoredFeatures {.persistentId, f} := by
        refine score_le_without (Finset.filter_subset _ _) fun g hg => ?_
        rcases Finset.mem_insert.mp hg with rfl | hg
        · exact id_unmet hne
        · exact Finset.mem_singleton.mp hg ▸ ⟨hf, happlies, hunmet⟩
      linarith [htwo f hf hother]
    · have hle : (scorePair a b profile).value ≤
          scoreWithout profile (scoredFeatures.erase .normalizedLabel) {.persistentId} := by
        refine score_le_without (fun f hf => ?_) fun f hf => Finset.mem_singleton.mp hf ▸ id_unmet hne
        obtain ⟨hscored, happlies⟩ := Finset.mem_filter.mp hf
        exact Finset.mem_erase.mpr ⟨fun heq => hlabel (heq ▸ happlies), hscored⟩
      linarith

end Reconciliation.Matching
