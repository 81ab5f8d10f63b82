/-
  Reconciliation.Matching.Identified — trees that are matched by their ids alone.

  In `Identified` trees every node but the root has an id of its own, and nodes that share
  one are of one type. When the id is the only feature with a weight, and authoritative
  (`IdOnly`), the nodes that share an id correspond and no others do (`corresponding_iff`),
  with full certainty; nothing is left open (`not_edge`), and every pair to be asserted has
  evidence (`Identified.supported`).
-/
import Reconciliation.Matching.Guarantees

namespace Reconciliation.Matching

open Reconciliation.Base Reconciliation.Base.ClearChoice Reconciliation.Contracts Reconciliation.Evidence

/-! ## Ids -/

/-- The persistent id of a node. -/
def idOf (tree : CanonicalTree) (ref : NodeRef) : Option String :=
  (tree.nodes.get? ref).bind fun node => firstPresent node defaultIdKeys

/-- The nodes share an id. -/
def SameId (source target : CanonicalTree) (s t : NodeRef) : Prop :=
  ∃ i, idOf source s = some i ∧ idOf target t = some i

/-- Every node but the root has an id of its own, and nodes that share one are of one type. -/
structure Identified (source target : CanonicalTree) : Prop where
  source_ids : ∀ s ∈ source.nodes.keys, idOf source s = none ↔ s = source.rootNodeRef
  target_ids : ∀ t ∈ target.nodes.keys, idOf target t = none ↔ t = target.rootNodeRef
  source_unique : ∀ s s' i, idOf source s = some i → idOf source s' = some i → s = s'
  target_unique : ∀ t t' i, idOf target t = some i → idOf target t' = some i → t = t'
  same_type : ∀ s t a b, SameId source target s t → source.nodes.get? s = some a → target.nodes.get? t = some b →
    a.nodeType = b.nodeType

section Decided
variable {source target : CanonicalTree} {s t : NodeRef}

theorem mem_of_idOf {tree : CanonicalTree} {ref : NodeRef} {i : String} (h : idOf tree ref = some i) :
    ref ∈ tree.nodes.keys := by
  obtain ⟨node, hn, -⟩ := Option.bind_eq_some_iff.mp h
  exact (Dict.mem_keys _).mpr ⟨node, hn⟩

theorem SameId.mem (h : SameId source target s t) : s ∈ source.nodes.keys ∧ t ∈ target.nodes.keys := by
  obtain ⟨i, hs, ht⟩ := h
  exact ⟨mem_of_idOf hs, mem_of_idOf ht⟩

theorem sameId_iff : SameId source target s t ↔ idOf source s ≠ none ∧ idOf source s = idOf target t := by
  constructor
  · intro h
    obtain ⟨i, hs, ht⟩ := h
    exact ⟨by rw [hs]; simp, hs.trans ht.symm⟩
  · intro h
    obtain ⟨i, hi⟩ := Option.ne_none_iff_exists'.mp h.1
    exact ⟨i, hi, h.2 ▸ hi⟩

instance : Decidable (SameId source target s t) := decidable_of_iff' _ sameId_iff

/-- No id is held twice, as far as the nodes of the tree go. -/
theorem ids_unique_iff {tree : CanonicalTree} :
    (∀ r r' i, idOf tree r = some i → idOf tree r' = some i → r = r') ↔
      ∀ r ∈ tree.nodes.keys, ∀ r' ∈ tree.nodes.keys, SameId tree tree r r' → r = r' := by
  constructor
  · intro h r _ r' _ hsame
    obtain ⟨i, hr, hr'⟩ := hsame
    exact h r r' i hr hr'
  · intro h r r' i hr hr'
    exact h r (mem_of_idOf hr) r' (mem_of_idOf hr') ⟨i, hr, hr'⟩

theorem same_type_iff : (∀ s t a b, SameId source target s t → source.nodes.get? s = some a →
      target.nodes.get? t = some b → a.nodeType = b.nodeType) ↔
    ∀ s ∈ source.nodes.keys, ∀ t ∈ target.nodes.keys, SameId source target s t →
      ∀ a ∈ source.nodes.get? s, ∀ b ∈ target.nodes.get? t, a.nodeType = b.nodeType := by
  constructor
  · intro h s _ t _ hst a ha b hb
    exact h s t a b hst ha hb
  · intro h s t a b hst ha hb
    exact h s hst.mem.1 t hst.mem.2 hst a ha b hb

instance (source target : CanonicalTree) : Decidable (Identified source target) :=
  decidable_of_iff ((∀ s ∈ source.nodes.keys, idOf source s = none ↔ s = source.rootNodeRef) ∧
    (∀ t ∈ target.nodes.keys, idOf target t = none ↔ t = target.rootNodeRef) ∧
    (∀ s ∈ source.nodes.keys, ∀ s' ∈ source.nodes.keys, SameId source source s s' → s = s') ∧
    (∀ t ∈ target.nodes.keys, ∀ t' ∈ target.nodes.keys, SameId target target t t' → t = t') ∧
    ∀ s ∈ source.nodes.keys, ∀ t ∈ target.nodes.keys, SameId source target s t →
      ∀ a ∈ source.nodes.get? s, ∀ b ∈ target.nodes.get? t, a.nodeType = b.nodeType)
    ⟨fun h => ⟨h.1, h.2.1, ids_unique_iff.mpr h.2.2.1, ids_unique_iff.mpr h.2.2.2.1, same_type_iff.mpr h.2.2.2.2⟩,
      fun h => ⟨h.1, h.2, ids_unique_iff.mp h.3, ids_unique_iff.mp h.4, same_type_iff.mp h.5⟩⟩

end Decided

/-- The id is the only feature with a weight, and authoritative. -/
structure IdOnly (profile : MatchingProfile) : Prop where
  single : ∃ w, profile.featureWeights = [w] ∧ w.feature = .persistentId ∧ 0 < w.weight
  authoritative : .persistentId ∈ profile.authoritativeIdFeatures
  threshold_pos : 0 < profile.matchThreshold

section Scores
variable {profile : MatchingProfile} (hp : IdOnly profile) {source target : NodeEvidence}

include hp

theorem IdOnly.weightFor_id : 0 < weightFor profile .persistentId := by
  obtain ⟨w, hw, hfeature, hpos⟩ := hp.single
  simpa [weightFor, hw, hfeature] using hpos

theorem IdOnly.gain_other (feature : EvidenceType) (hne : feature ≠ .persistentId) (on : Bool) :
    gain profile feature on = 0 := by
  obtain ⟨w, hw, hfeature, -⟩ := hp.single
  have hzero : weightFor profile feature = 0 := by
    simp [weightFor, hw, hfeature, hne.symm]
  simp [gain, hzero]

theorem IdOnly.sums (source target : NodeEvidence) : (tallyPair source target profile).weightedSum =
      gain profile .persistentId (decide (source.persistentId ≠ none ∧ source.persistentId = target.persistentId)) ∧
    (tallyPair source target profile).totalWeight =
      gain profile .persistentId (decide (source.persistentId ≠ none ∨ target.persistentId ≠ none)) := by
  rw [tallyPair_sums.1, tallyPair_sums.2]
  simp only [hp.gain_other .semanticSignature (by decide), hp.gain_other .normalizedLabel (by decide),
    hp.gain_other .weightedSimilarity (by decide), add_zero, and_self]

/-- Nodes that share an id score 1. -/
theorem IdOnly.score_same (hid : source.persistentId ≠ none ∧ source.persistentId = target.persistentId) :
    (scorePair source target profile).value = 1 := by
  have hpos := hp.weightFor_id
  obtain ⟨hsum, htotal⟩ := hp.sums source target
  rw [decide_eq_true hid] at hsum
  rw [decide_eq_true (Or.inl hid.1)] at htotal
  have hratio : (tallyPair source target profile).ratio = 1 := by
    unfold Tally.ratio
    rw [hsum, htotal]
    simp [gain, hpos, hpos.ne']
  show round6 (tallyPair source target profile).ratio = 1
  rw [hratio, round6_one]

/-- All others score 0. -/
theorem IdOnly.score_other (hid : ¬ (source.persistentId ≠ none ∧ source.persistentId = target.persistentId)) :
    (scorePair source target profile).value = 0 := by
  have hratio : (tallyPair source target profile).ratio = 0 := by
    unfold Tally.ratio
    rw [(hp.sums source target).1]
    simp [gain, hid]
  show round6 (tallyPair source target profile).ratio = 0
  rw [hratio, round6_zero]

end Scores

/-! ## Correspondence by id -/

section Extracted
variable [PyRuntime] {tree : CanonicalTree} {evidence : KeyedEvidence} (he : extractTree tree = .ok evidence)
  {ref : NodeRef} {i : String}

include he

theorem evidence_id_iff : (∃ e, evidence.val.get? ref = some e ∧ e.persistentId = some i) ↔ idOf tree ref = some i := by
  constructor
  · intro h
    obtain ⟨e, hget, hi⟩ := h
    obtain ⟨node, hn, hnode⟩ := (get_extractTree he).mp hget
    rw [idOf, hn, Option.bind_some, ← (nodeEvidence_fields hnode).2.2.1, hi]
  · intro h
    obtain ⟨node, hn, hi⟩ := Option.bind_eq_some_iff.mp h
    obtain ⟨e, hget⟩ := (Dict.mem_keys _).mp ((mem_keys_extractTree he).mpr ((Dict.mem_keys _).mpr ⟨node, hn⟩))
    obtain ⟨node', hn', hnode⟩ := (get_extractTree he).mp hget
    obtain rfl := Option.some.inj (hn.symm.trans hn')
    exact ⟨e, hget, (nodeEvidence_fields hnode).2.2.1.trans hi⟩

/-- Where ids are unique, the node that has an id holds it alone. -/
theorem holdsAlone_iff (hunique : ∀ r r' i, idOf tree r = some i → idOf tree r' = some i → r = r') :
    HoldsAlone evidence i ref ↔ idOf tree ref = some i := by
  unfold HoldsAlone
  simp only [evidence_id_iff he]
  constructor
  · intro h
    exact (h ref).mpr rfl
  · intro h r
    exact ⟨fun hr => hunique r ref i hr h, fun hr => hr ▸ h⟩

end Extracted

section Runs
variable [PyRuntime] {source target : CanonicalTree} {evidence : EvidenceIndex} {profile : MatchingProfile}
  (hid : Identified source target) (hp : IdOnly profile) (he : extract source target = .ok evidence) {s t : NodeRef}

include hid he

omit hp in
theorem authoritative_iff_same (hauthoritative : .persistentId ∈ profile.authoritativeIdFeatures) :
    Authoritative evidence profile s t ↔ SameId source target s t := by
  obtain ⟨hes, het, -, -⟩ := extract_ok.mp he
  rw [authoritative_iff he]
  constructor
  · intro h
    obtain ⟨⟨-, i, hs, ht⟩, -⟩ := h
    exact ⟨i, (holdsAlone_iff hes hid.source_unique).mp hs, (holdsAlone_iff het hid.target_unique).mp ht⟩
  · intro h
    obtain ⟨i, hs, ht⟩ := id h
    obtain ⟨a, ha, -⟩ := (evidence_id_iff hes).mpr hs
    obtain ⟨b, hb, -⟩ := (evidence_id_iff het).mpr ht
    refine ⟨⟨hauthoritative, i, (holdsAlone_iff hes hid.source_unique).mpr hs,
      (holdsAlone_iff het hid.target_unique).mpr ht⟩, a, b, ha, hb, compatible_iff.mpr fun _ => ?_⟩
    obtain ⟨m, hm, hma⟩ := (get_extractTree hes).mp ha
    obtain ⟨n, hn, hnb⟩ := (get_extractTree het).mp hb
    exact ((nodeEvidence_fields hma).2.1.trans (hid.same_type s t m n h hm hn)).trans (nodeEvidence_fields hnb).2.1.symm

include hp

/-- A pair that is free shares no id, so it scores 0 and is not picked. -/
theorem not_pick {v : ℚ} : ¬ (table evidence profile).Pick s t v := by
  obtain ⟨hes, het, -, -⟩ := extract_ok.mp he
  intro h
  obtain ⟨hs, -, a, b, ha, hb, -, hv, -⟩ := admits_iff.mp h.1
  have hno : ¬ (a.persistentId ≠ none ∧ a.persistentId = b.persistentId) := by
    intro hsame
    obtain ⟨i, hi⟩ := Option.ne_none_iff_exists'.mp hsame.1
    refine (mem_freeSources.mp hs).2 t ((authoritative_iff_same hid he hp.authoritative).mpr ⟨i, ?_, ?_⟩)
    · exact (evidence_id_iff hes).mp ⟨a, ha, hi⟩
    · exact (evidence_id_iff het).mp ⟨b, hb, hsame.2 ▸ hi⟩
  have hthreshold : profile.matchThreshold ≤ v := h.2.1
  rw [← hv, hp.score_other hno] at hthreshold
  exact absurd hp.threshold_pos hthreshold.not_gt

theorem not_settles : ¬ (table evidence profile).Settles s t := by
  intro h
  obtain ⟨v, hpick⟩ := h.pick
  exact not_pick hid hp he hpick

theorem not_edge : ¬ (table evidence profile).Edge s t := by
  intro h
  obtain ⟨t', v, hpick⟩ := h.pick
  exact not_pick hid hp he hpick

/-- The nodes that share an id correspond, and no others. -/
theorem corresponding_iff : Corresponding evidence profile s t ↔ SameId source target s t := by
  unfold Corresponding
  rw [authoritative_iff_same hid he hp.authoritative, or_iff_left (not_settles hid hp he)]

theorem certainty_same (h : SameId source target s t) : certainty evidence profile s t = 1 :=
  certainty_of_authoritative ((authoritative_iff_same hid he hp.authoritative).mpr h)

/-- Every pair to be asserted shares an id, which is evidence. -/
theorem Identified.supported : Supported evidence profile where
  ids := by
    intro p hmem
    obtain ⟨-, hshared, -⟩ := mem_authoritativePairs.mp hmem
    obtain ⟨-, -, i, hs, ht, -⟩ := sharedIdPairs_sound hshared
    refine contributions_ne_of_value ?_
    rw [hp.score_same ⟨by rw [hs]; simp, hs.trans ht.symm⟩]
    exact one_ne_zero
  similar := by
    intro s t a b _ _ h
    exact absurd h (not_or.mpr ⟨not_edge hid hp he, not_settles hid hp he⟩)

end Runs

end Reconciliation.Matching
