/-
  Reconciliation.Reports.PackagedDiff — the exact difference of identified trees under the
  packaged profiles.

  The packaged profiles weigh labels, signatures and children beside the id, and match the
  roots by them. As long as ids separate, a run still reports exactly the difference of the
  trees (`exactDiff_separated`). Under generic-xml-v1 they always do (`xmlDiff_exact`). Under
  dita-map-v1 they do as long as no node has a lookalike of another id (`ditaDiff_exact`).
-/
import Reconciliation.Matching.Separated
import Reconciliation.Reports.IdentifiedDiff
import Reconciliation.Reports.JsonMembers

namespace Reconciliation.Reports

open Reconciliation.Base Reconciliation.Contracts Reconciliation.Evidence Reconciliation.Alignment
  Reconciliation.Matching Reconciliation.Classification Reconciliation.Engine Reconciliation.Validation
  Reconciliation.Builders

/-! ## Runs -/

section Runs
variable [PyRuntime] {command : ReconcileTreesCommand} {evidence : EvidenceIndex}

/-- The comparison of a run whose ids separate. -/
theorem matchedBelow (h : Admitted command) (hid : Identified (normalizedSource command) (normalizedTarget command))
    (he : extract (normalizedSource command) (normalizedTarget command) = .ok evidence)
    (hp : Separated evidence command.matchingProfile) {result : ReconciliationResult} :
    MatchedBelow (context command result) (h.comparison evidence) (certainty evidence command.matchingProfile) where
  same _ _ hst := Or.inl ((authoritative_iff_same hid he hp.authoritative).mpr hst)
  only _ _ hm := corresponding_cases hid hp he hm
  settled _ _ := not_edge_separated hid hp he
  certain _ _ hst := certainty_of_authoritative ((authoritative_iff_same hid he hp.authoritative).mpr hst)

/-- Where ids separate, a run reports the exact difference of two identified trees, exactly when it can
    tell the regions of corresponding parents apart. -/
theorem exactDiff_separated (h : Admitted command)
    (hid : Identified (normalizedSource command) (normalizedTarget command))
    (he : extract (normalizedSource command) (normalizedTarget command) = .ok evidence)
    (hp : Separated evidence command.matchingProfile) (hall : AllEnabled command.operationProfile) :
    Outcome.Returns (reconcile command) (fun result => ExactDiff (normalizedSource command) (normalizedTarget command)
      command.alignmentProfile result.operations) ↔
    DistinctParentIds (normalizedSource command) (normalizedTarget command) := by
  have hpaired : ∀ p q, (h.comparison evidence).Paired p q ↔
      Counterparts (normalizedSource command) (normalizedTarget command) p q := by
    intro p q
    constructor
    · intro hpq
      rcases hpq with hroots | hm
      · exact Or.inl hroots
      · exact (corresponding_cases hid hp he hm).symm
    · intro hpq
      rcases hpq with hroots | hst
      · exact Or.inl hroots
      · exact Or.inr (Or.inl ((authoritative_iff_same hid he hp.authoritative).mpr hst))
  have hdistinct : DistinctRegionIds (h.comparison evidence) ↔
      DistinctParentIds (normalizedSource command) (normalizedTarget command) := by
    unfold DistinctRegionIds DistinctParentIds
    simp only [hpaired]
  rw [← hdistinct, reconcile_admitted h]
  constructor
  · intro hreturns
    obtain ⟨result, hrun, -⟩ := hreturns
    exact ((runStages_total_iff h he).mp ⟨result, hrun⟩).2
  · intro hregions
    have hsupported := hp.toDecidedById.supported fun _ _ => not_edge_separated hid hp he
    obtain ⟨result, hrun⟩ := (runStages_total_iff h he).mpr ⟨hsupported, hregions⟩
    obtain ⟨evidence', hs⟩ := runStages_stages hrun
    obtain rfl : evidence = evidence' := Except.ok.inj (he.symm.trans hs.extracted)
    have hagrees := hs.agrees h
    obtain ⟨set, hset, hnodup, -⟩ := classify_run hagrees
    obtain rfl : result.operations = set := Except.ok.inj (hs.classified.symm.trans hset)
    refine ⟨result, hrun, ?_, fun e => ?_⟩
    · refine (hnodup (hagrees.positions_nodup fun hpq hpq' hor => ?_)).map_on fun x hx y hy hxy => ?_
      · exact counterparts_unique hid ((hpaired _ _).mp hpq) ((hpaired _ _).mp hpq') hor
      · exact Checked.ext_val (reported_unique hagrees ((hs.reported h x).mp hx) ((hs.reported h y).mp hy) hxy)
    · refine Iff.trans ?_ (difference_iff_below hagrees (matchedBelow h hid he hp) hid hall).symm
      constructor
      · intro hin
        obtain ⟨op, hop, rfl⟩ := List.mem_map.mp hin
        exact ⟨op.val, (hs.reported h op).mp hop, rfl⟩
      · intro hx
        obtain ⟨x, hx, rfl⟩ := hx
        obtain ⟨op, hop, rfl⟩ := hs.exists_op h hx
        exact List.mem_map.mpr ⟨op, hop, rfl⟩

end Runs

/-! ## The bundle for XML -/

theorem threshold_six_tenths : (0 : ℚ) ≤ 6 / 10 ∧ (6 / 10 : ℚ) ≤ 1 := by norm_num

def genericXmlNormalization : NormalizationProfile where
  version := "v1"
  collapseWhitespace := true
  nonsemanticMetadataKeys := []
  preservePropertyKeys := ["id", "xml:id"]
  version_ne := v1_ne
  no_conflict := by decide

/-- As in generic-json-v1, but the id is authoritative. -/
def genericXmlMatching : MatchingProfile := { genericJsonMatching with authoritativeIdFeatures := [.persistentId] }

def genericXmlAlignment : AlignmentProfile := { genericJsonAlignment with orderSemanticsByType := Dict.empty }

def genericXmlSuppression : SuppressionProfile where
  version := "v1"
  rules := [
    ⟨"generic-xml-insert-downstream-position-v1", .insert, "DOWNSTREAM_POSITION_CHANGED", 6 / 10, by decide,
      position_category_ne, threshold_six_tenths⟩,
    ⟨"generic-xml-delete-downstream-position-v1", .delete, "DOWNSTREAM_POSITION_CHANGED", 6 / 10, by decide,
      position_category_ne, threshold_six_tenths⟩,
    ⟨"generic-xml-move-descendant-path-v1", .move, "DESCENDANT_PATH_CHANGED", 7 / 10, by decide, path_category_ne,
      threshold_seven_tenths⟩,
    ⟨"generic-xml-reorder-position-v1", .reorder, "DOWNSTREAM_POSITION_CHANGED", 6 / 10, by decide, position_category_ne,
      threshold_six_tenths⟩]
  independentDefectCheck := true
  version_ne := v1_ne
  ruleIds_nodup := by decide

/-- The operation profiles of the two bundles have the same fields. -/
def genericXmlCommand (source target : CanonicalTree) (executionContext : ExecutionContext) : ReconcileTreesCommand where
  sourceTree := source
  targetTree := target
  normalizationProfile := genericXmlNormalization
  matchingProfile := genericXmlMatching
  alignmentProfile := genericXmlAlignment
  operationProfile := genericJsonOperations
  suppressionProfile := genericXmlSuppression
  executionContext

theorem genericXml_decided : DecidedById genericXmlMatching := ⟨by decide, by decide +kernel, by decide +kernel⟩

theorem genericXml_outweighed : scoreWithout genericXmlMatching scoredFeatures {.persistentId} +
    genericXmlMatching.ambiguityMargin < genericXmlMatching.matchThreshold := by
  decide +kernel

theorem genericXml_enabled : AllEnabled genericJsonOperations := by decide

/-- Under generic-xml-v1 two identified trees are reported with their exact difference, exactly when the
    regions of corresponding parents can be told apart. -/
theorem xmlDiff_exact [PyRuntime] {source target : CanonicalTree} {executionContext : ExecutionContext}
    (h : Admitted (genericXmlCommand source target executionContext))
    (hid : Identified (normalizedSource (genericXmlCommand source target executionContext))
      (normalizedTarget (genericXmlCommand source target executionContext))) :
    Outcome.Returns (reconcile (genericXmlCommand source target executionContext)) (fun result =>
      ExactDiff (normalizedSource (genericXmlCommand source target executionContext))
        (normalizedTarget (genericXmlCommand source target executionContext)) genericXmlAlignment result.operations) ↔
    DistinctParentIds (normalizedSource (genericXmlCommand source target executionContext))
      (normalizedTarget (genericXmlCommand source target executionContext)) := by
  obtain ⟨evidence, he⟩ := h.exists_evidence
  exact exactDiff_separated h hid he (separated_of_outweighed genericXml_decided genericXml_outweighed) genericXml_enabled

def reorganizedXml : ReconcileTreesCommand :=
  genericXmlCommand reorganizedBook.sourceTree reorganizedBook.targetTree reorganizedBook.executionContext

theorem reorganizedXml_exact : Outcome.Returns (@reconcile asciiRuntime reorganizedXml) fun result =>
    ExactDiff (normalizedSource reorganizedXml) (normalizedTarget reorganizedXml) genericXmlAlignment result.operations := by
  have hadmitted : Admitted reorganizedXml := ⟨by decide +kernel, by decide +kernel, by decide +kernel, by decide +kernel⟩
  exact (@xmlDiff_exact asciiRuntime _ _ _ hadmitted (by decide +kernel)).mpr (by decide +kernel)

/-! ## The bundle for DITA maps -/

/-- No node has a lookalike of another id. -/
def Unlike (evidence : EvidenceIndex) : Prop :=
  ∀ s t a b, evidence.source.val.get? s = some a → evidence.target.val.get? t = some b →
    a.persistentId ≠ b.persistentId → ¬ Lookalikes a b

theorem ditaMap_separated {evidence : EvidenceIndex} (h : Unlike evidence) : Separated evidence defaultMatchingProfile :=
  separated_of_unlike ditaMap_decided (by decide +kernel) (by decide +kernel) fun s t a b ha hb _ => h s t a b ha hb

/-- Without labels there are no lookalikes. -/
theorem unlike_of_unlabelled [PyRuntime] {source target : CanonicalTree} {evidence : EvidenceIndex}
    (he : extract source target = .ok evidence)
    (h : ∀ ref node, source.nodes.get? ref = some node → firstPresent node defaultLabelKeys = none) : Unlike evidence := by
  obtain ⟨hes, -⟩ := extract_ok.mp he
  intro s t a b ha _ _ halike
  obtain ⟨node, hnode, hevidence⟩ := (get_extractTree hes).mp ha
  exact halike.2.1.1 ((nodeEvidence_label hevidence).trans (h s node hnode))

/-- Under the matching of dita-map-v1 the same holds of trees without lookalikes. -/
theorem ditaDiff_exact [PyRuntime] {command : ReconcileTreesCommand} (h : Admitted command)
    (hmatching : command.matchingProfile = defaultMatchingProfile) (hall : AllEnabled command.operationProfile)
    (hid : Identified (normalizedSource command) (normalizedTarget command))
    (hunlike : ∀ evidence, extract (normalizedSource command) (normalizedTarget command) = .ok evidence → Unlike evidence) :
    Outcome.Returns (reconcile command) (fun result => ExactDiff (normalizedSource command) (normalizedTarget command)
      command.alignmentProfile result.operations) ↔
    DistinctParentIds (normalizedSource command) (normalizedTarget command) := by
  obtain ⟨evidence, he⟩ := h.exists_evidence
  exact exactDiff_separated h hid he (hmatching ▸ ditaMap_separated (hunlike evidence he)) hall

def reorganizedDita : ReconcileTreesCommand := { reorganizedBook with matchingProfile := defaultMatchingProfile }

theorem reorganizedDita_exact : Outcome.Returns (@reconcile asciiRuntime reorganizedDita) fun result =>
    ExactDiff (normalizedSource reorganizedDita) (normalizedTarget reorganizedDita) reorganizedDita.alignmentProfile
      result.operations := by
  have hadmitted : Admitted reorganizedDita :=
    ⟨by decide +kernel, by decide +kernel, by decide +kernel, by decide +kernel⟩
  have hbare : ∀ e ∈ (normalizedSource reorganizedDita).nodes.entries, firstPresent e.2 defaultLabelKeys = none := by
    decide +kernel
  have hunlike : ∀ evidence, @extract asciiRuntime (normalizedSource reorganizedDita) (normalizedTarget reorganizedDita) =
      .ok evidence → Unlike evidence := fun evidence he => @unlike_of_unlabelled asciiRuntime _ _ _ he
        fun ref node hnode => hbare (ref, node) ((Dict.get?_eq_some _).mp hnode)
  exact (@ditaDiff_exact asciiRuntime _ hadmitted rfl (by decide) (by decide +kernel) hunlike).mpr (by decide +kernel)

end Reconciliation.Reports
