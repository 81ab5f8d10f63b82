/-
  Reconciliation.Matching.SelfMatch — a tree matched against itself.

  When the signature or the child signature has a weight, every node scores 1 against itself, so
  the score table is `Diagonal`: a node corresponds to nothing but itself (`eq_of_corresponding`),
  or else it is ambiguous (`corresponding_or_edge`). So no match graph confuses two nodes
  (`self_match`). A pair to be asserted lacks evidence only when it may score 0 and still be near
  1 (`supported_self`).
-/
import Reconciliation.Matching.Guarantees

namespace Reconciliation.Matching

open Reconciliation.Base Reconciliation.Base.ClearChoice Reconciliation.Contracts Reconciliation.Evidence
  Reconciliation.Builders

theorem compatible_comm {a b : NodeEvidence} {profile : MatchingProfile} :
    Compatible a b profile ↔ Compatible b a profile := by
  rw [compatible_iff, compatible_iff]
  exact imp_congr_right fun _ => eq_comm

section Self
variable [PyRuntime] {tree : CanonicalTree} {evidence : EvidenceIndex} {profile : MatchingProfile} {s t : NodeRef}
  (he : extract tree tree = .ok evidence)

include he

theorem same_evidence : evidence.source = evidence.target := by
  obtain ⟨hes, het, -, -⟩ := extract_ok.mp he
  exact Except.ok.inj (hes.symm.trans het)

/-- An id with one holder is held by the same node on both sides. -/
theorem eq_of_authoritative (h : Authoritative evidence profile s t) : s = t := by
  obtain ⟨-, i, hs, ht⟩ := h.sharesId he
  rw [← same_evidence he] at ht
  exact (ht s).mp ((hs s).mpr rfl)

theorem free_iff : s ∈ freeSources evidence profile ↔ s ∈ freeTargets evidence profile := by
  rw [mem_freeSources, mem_freeTargets, same_evidence he]
  refine and_congr_right fun _ => ⟨fun h t ht => ?_, fun h t ht => ?_⟩
  · obtain rfl := eq_of_authoritative he ht
    exact h _ ht
  · obtain rfl := eq_of_authoritative he ht
    exact h _ ht

variable (hw : Discerning profile)

include hw

/-- Every free node scores 1 against itself, and nothing scores more. -/
theorem diagonal : (table evidence profile).Diagonal 1 where
  same a := free_iff he
  symm := by
    intro a b
    refine Option.ext fun v => ?_
    show admissibleScore evidence profile a b = some v ↔ admissibleScore evidence profile b a = some v
    rw [admissibleScore_eq_some, admissibleScore_eq_some, same_evidence he]
    constructor
    · intro h
      obtain ⟨x, y, hx, hy, hc, hv, hp⟩ := h
      exact ⟨y, x, hy, hx, compatible_comm.mp hc, scorePair_value_symm.trans hv, hp⟩
    · intro h
      obtain ⟨y, x, hy, hx, hc, hv, hp⟩ := h
      exact ⟨x, y, hx, hy, compatible_comm.mp hc, scorePair_value_symm.trans hv, hp⟩
  self := by
    intro a ha
    obtain ⟨x, hx⟩ := (Dict.mem_keys _).mp (mem_freeSources.mp ha).1
    exact admissibleScore_eq_some.mpr ⟨x, x, hx, same_evidence he ▸ hx, compatible_iff.mpr fun _ => rfl,
      scorePair_self hw, profile.probableThreshold_range.2⟩
  bounded := by
    intro a b v hv
    obtain ⟨x, y, -, -, -, rfl, -⟩ := admissibleScore_eq_some.mp hv
    exact (scorePair x y profile).range.2
  threshold_le := profile.matchThreshold_range.2

/-- Nothing corresponds to anything but itself. -/
theorem eq_of_corresponding (h : Corresponding evidence profile s t) : s = t := by
  rcases h with h | h
  · exact eq_of_authoritative he h
  · exact (diagonal he hw).eq_of_settles h

/-- A node corresponds to itself, or is ambiguous. -/
theorem corresponding_or_edge (hs : s ∈ tree.nodes.keys) :
    Corresponding evidence profile s s ∨ (table evidence profile).Edge s s := by
  obtain ⟨hes, -, -, -⟩ := extract_ok.mp he
  by_cases hauth : ∃ t, Authoritative evidence profile s t
  · obtain ⟨t, h⟩ := hauth
    exact Or.inl (Or.inl ((eq_of_authoritative he h).symm ▸ h))
  · have hfree : s ∈ freeSources evidence profile :=
      mem_freeSources.mpr ⟨(mem_keys_extractTree hes).mpr hs, not_exists.mp hauth⟩
    by_cases hwavers : (table evidence profile).Wavers s
    · exact Or.inr ((diagonal he hw).edge_self hwavers)
    · exact Or.inl (Or.inr ((diagonal he hw).settles_self hfree hwavers))

/-- Two nodes without an id that give the same evidence are ambiguous with each other. -/
theorem edge_of_alike {a : NodeEvidence} (hs : evidence.source.val.get? s = some a)
    (ht : evidence.source.val.get? t = some { a with nodeRef := t }) (hnone : a.persistentId = none) (hne : t ≠ s) :
    (table evidence profile).Edge s t := by
  have hfree : ∀ {r : NodeRef} {b : NodeEvidence}, evidence.source.val.get? r = some b → b.persistentId = none →
      r ∈ freeSources evidence profile := by
    intro r b hr hb
    refine mem_freeSources.mpr ⟨(Dict.mem_keys _).mpr ⟨b, hr⟩, fun t hauth => ?_⟩
    obtain ⟨-, i, hi, -⟩ := hauth.sharesId he
    obtain ⟨b', hr', hb'⟩ := (hi r).mpr rfl
    obtain rfl := Option.some.inj (hr.symm.trans hr')
    rw [hb] at hb'
    cases hb'
  have hself : (scorePair a { a with nodeRef := t } profile).value = 1 := scorePair_self hw
  have htarget := hfree ht hnone
  have hadmits : (table evidence profile).Admits s t 1 := admits_iff.mpr ⟨hfree hs hnone, (free_iff he).mp htarget,
    a, { a with nodeRef := t }, hs, same_evidence he ▸ ht, compatible_iff.mpr fun _ => rfl, hself, profile.probableThreshold_range.2⟩
  have hmargin : (1 : ℚ) - 1 ≤ profile.ambiguityMargin := by
    rw [sub_self]
    exact profile.ambiguityMargin_range.1
  obtain ⟨hwavers, -⟩ := (diagonal he hw).wavers_of_admits hadmits hne hmargin
  obtain ⟨c, hpick⟩ := (diagonal he hw).exists_pick hadmits.1
  exact Or.inl ⟨hwavers, c, 1, 1, hpick, hadmits, hmargin⟩

/-- What corresponds to itself does so for certain. -/
theorem certainty_self (h : Corresponding evidence profile s s) : certainty evidence profile s s = 1 := by
  rcases h with hauth | hsettles
  · exact certainty_of_authoritative hauth
  · obtain ⟨v, hp⟩ := hsettles.pick
    rw [certainty_of_settles hsettles hp.1, (diagonal he hw).pick_score hp]

/-- Without authoritative ids, a node corresponds to itself unless another node scores within the margin of 1. -/
theorem corresponding_self_iff (hno : .persistentId ∉ profile.authoritativeIdFeatures) (hs : s ∈ tree.nodes.keys) :
    Corresponding evidence profile s s ↔ ¬ ∃ t, t ≠ s ∧ ∃ a b, evidence.source.val.get? s = some a ∧
      evidence.source.val.get? t = some b ∧ Compatible a b profile ∧
      profile.probableThreshold ≤ (scorePair a b profile).value ∧
      1 - (scorePair a b profile).value ≤ profile.ambiguityMargin := by
  obtain ⟨hes, -, -, -⟩ := extract_ok.mp he
  have hauth : ∀ s t, ¬ Authoritative evidence profile s t := fun s t h => hno (h.sharesId he).1
  have hfree : ∀ t ∈ evidence.source.val.keys, t ∈ freeSources evidence profile := fun t ht =>
    mem_freeSources.mpr ⟨ht, hauth t⟩
  have hdiagonal := diagonal he hw
  have hwavers : (table evidence profile).Wavers s ↔ ∃ t, t ≠ s ∧ ∃ a b, evidence.source.val.get? s = some a ∧
      evidence.source.val.get? t = some b ∧ Compatible a b profile ∧
      profile.probableThreshold ≤ (scorePair a b profile).value ∧
      1 - (scorePair a b profile).value ≤ profile.ambiguityMargin := by
    rw [hdiagonal.wavers_iff]
    refine exists_congr fun t => and_congr_right fun _ => ⟨fun h => ?_, fun h => ?_⟩
    · obtain ⟨w, hw, hm⟩ := h
      obtain ⟨-, -, a, b, ha, hb, hcomp, rfl, hprobable⟩ := admits_iff.mp hw
      exact ⟨a, b, ha, same_evidence he ▸ hb, hcomp, hprobable, hm⟩
    · obtain ⟨a, b, ha, hb, hcomp, hprobable, hm⟩ := h
      have hb' : t ∈ freeSources evidence profile := hfree t (evidence.source.val.mem_keys.mpr ⟨b, hb⟩)
      exact ⟨_, admits_iff.mpr ⟨hfree s (evidence.source.val.mem_keys.mpr ⟨a, ha⟩), (free_iff he).mp hb', a, b, ha,
        same_evidence he ▸ hb, hcomp, rfl, hprobable⟩, hm⟩
  rw [← hwavers]
  constructor
  · intro h
    exact (h.resolve_left (hauth s s)).not_wavers
  · intro h
    exact Or.inr (hdiagonal.settles_self (hfree s ((mem_keys_extractTree hes).mpr hs)) h)

/-- Every pair to be asserted has evidence, unless 0 is admissible and near to 1. -/
theorem supported_self (hzero : 0 < profile.probableThreshold ∨ profile.ambiguityMargin < 1) : Supported evidence profile where
  ids := by
    intro p hp
    obtain ⟨-, hshared, -⟩ := mem_authoritativePairs.mp hp
    obtain ⟨hs, ht, -⟩ := sharedIdPairs_sound hshared
    have hsame := eq_of_authoritative he ⟨p, hp, rfl, rfl⟩
    rw [same_evidence he, hsame] at hs
    refine contributions_ne_of_value ?_
    rw [Option.some.inj (hs.symm.trans ht), scorePair_self hw]
    exact one_ne_zero
  similar := by
    intro s t a b ha hb h
    obtain ⟨v, hv, hnear⟩ : ∃ v, (table evidence profile).Admits s t v ∧ 1 - v ≤ profile.ambiguityMargin := by
      rcases h with h | h
      · obtain ⟨v, hv⟩ := h.admits
        exact ⟨v, hv, (diagonal he hw).edge_score h hv⟩
      · obtain ⟨v, hp⟩ := h.pick
        refine ⟨v, hp.1, ?_⟩
        rw [(diagonal he hw).pick_score hp, sub_self]
        exact profile.ambiguityMargin_range.1
    obtain ⟨-, -, a', b', ha', hb', -, hscore, hprobable⟩ := admits_iff.mp hv
    obtain rfl := Option.some.inj (ha.symm.trans ha')
    obtain rfl := Option.some.inj (hb.symm.trans hb')
    refine contributions_ne_of_value fun hval => ?_
    rw [← hscore, hval] at hnear hprobable
    rcases hzero with hpos | hmargin
    · exact absurd hpos hprobable.not_gt
    · exact absurd hmargin (by linarith)

/-- A tree matched against itself: a node is confirmed to itself only, or else ambiguous with itself. -/
theorem self_match {g : MatchGraph} (hg : match_ evidence profile = .ok g) :
    (∀ s t, g.Confirmed s t → s = t) ∧ ∀ n ∈ tree.nodes.keys, g.Confirmed n n ∨ g.Ambiguous n n := by
  constructor
  · intro s t hc
    exact eq_of_corresponding he hw ((confirmed_iff hg).mp hc)
  · intro n hn
    rcases corresponding_or_edge he hw hn with hm | hm
    · exact Or.inl ((confirmed_iff hg).mpr hm)
    · exact Or.inr ((ambiguous_iff hg).mpr hm)

end Self

/-- Weighs the types of the children only. -/
def childrenProfile : MatchingProfile :=
  { defaultMatchingProfile with featureWeights := [⟨.weightedSimilarity, 1, weight_one⟩] }

theorem topicMap_self_match : ∃ evidence g, @extract asciiRuntime topicMap topicMap = .ok evidence ∧
    Discerning childrenProfile ∧ match_ evidence childrenProfile = .ok g ∧
      (∀ s t, g.Confirmed s t → s = t) ∧ ∀ n ∈ topicMap.nodes.keys, g.Confirmed n n ∨ g.Ambiguous n n := by
  have hrun : Outcome.Returns (do
      let evidence ← @extract asciiRuntime topicMap topicMap
      match_ evidence childrenProfile) fun g => g.confirmed.length = 3 ∧ g.ambiguous.length = 4 := by
    decide +kernel
  obtain ⟨g, hrun, -⟩ := hrun
  obtain ⟨evidence, he, hg⟩ := Outcome.bind_ok.mp hrun
  have hw : Discerning childrenProfile := by decide +kernel
  exact ⟨evidence, g, he, hw, hg, @self_match asciiRuntime _ _ _ he hw _ hg⟩

end Reconciliation.Matching
