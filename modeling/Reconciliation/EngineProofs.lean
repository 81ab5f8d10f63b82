/-
  Reconciliation.EngineProofs — what a run of the engine consists of, and when it returns.

  A command is `Admitted` when both trees are valid, the profiles agree and no limit is
  exceeded; otherwise a run ends in a documented error or an incomplete result
  (`not_admitted_outcome`), and a complete result comes from an admitted command
  (`complete_iff`). The result of an admitted command is that of its `Stages`, and its
  operations are the reported ones of the comparison that the evidence decides
  (`Stages.reported`). The stages return exactly when every asserted pair has evidence and
  the region ids are told apart (`runStages_total_iff`).
-/
import Reconciliation.Engine
import Reconciliation.Classification.ClassifiersProofs
import Reconciliation.Matching.Correspondence

namespace Reconciliation.Engine

open Reconciliation.Base Reconciliation.Contracts Reconciliation.Normalization Reconciliation.Evidence
  Reconciliation.Matching Reconciliation.Alignment Reconciliation.Classification Reconciliation.Causality
  Reconciliation.Suppression Reconciliation.Metrics Reconciliation.Validation

/-! ## Admitted commands -/

/-- The trees are valid, the profiles agree, and no limit is exceeded. -/
structure Admitted (command : ReconcileTreesCommand) : Prop where
  source_valid : validateTree command.sourceTree command.executionContext.correlationId = .ok ()
  target_valid : validateTree command.targetTree command.executionContext.correlationId = .ok ()
  profiles_valid : validateProfiles command.matchingProfile command.operationProfile command.suppressionProfile = []
  within_limits : checkPreLimits command.sourceTree command.targetTree command.executionContext.resourceLimits
    command.executionContext.correlationId = .ok ()

/-- The trees the stages see. -/
def normalizedSource (command : ReconcileTreesCommand) : CanonicalTree :=
  normalizeTree command.sourceTree command.normalizationProfile

def normalizedTarget (command : ReconcileTreesCommand) : CanonicalTree :=
  normalizeTree command.targetTree command.normalizationProfile

section Commands
variable [PyRuntime] {command : ReconcileTreesCommand}

omit [PyRuntime] in
theorem validate_ok_iff : validate command = .ok () ↔
    validateTree command.sourceTree command.executionContext.correlationId = .ok () ∧
      validateTree command.targetTree command.executionContext.correlationId = .ok () ∧
      validateProfiles command.matchingProfile command.operationProfile command.suppressionProfile = [] := by
  have hraise : ∀ violations : List ProfileViolation,
      raiseIfInvalid violations command.executionContext.correlationId = .ok () ↔ violations = [] := by
    intro violations
    cases violations <;> simp [raiseIfInvalid]
  unfold validate
  simp only [Outcome.bind_ok, hraise]
  constructor
  · intro h
    obtain ⟨⟨⟩, hs, ⟨⟩, ht, hp⟩ := h
    exact ⟨hs, ht, hp⟩
  · intro h
    exact ⟨(), h.1, (), h.2.1, h.2.2⟩

omit [PyRuntime] in
/-- Validation passes or raises a documented error. -/
theorem validate_outcome (command : ReconcileTreesCommand) : validate command = .ok () ∨ ∃ e, validate command = .error (.documented e) := by
  unfold validate
  rcases validateTree_outcome command.sourceTree command.executionContext.correlationId with hs | ⟨e, hs⟩
  · rw [hs]
    rcases validateTree_outcome command.targetTree command.executionContext.correlationId with ht | ⟨e, ht⟩
    · rw [ht]
      exact raiseIfInvalid_outcome _ _
    · rw [ht]
      exact Or.inr ⟨e, rfl⟩
  · rw [hs]
    exact Or.inr ⟨e, rfl⟩

theorem reconcile_admitted (h : Admitted command) : reconcile command = runStages command := by
  have hv := validate_ok_iff.mpr ⟨h.source_valid, h.target_valid, h.profiles_valid⟩
  unfold reconcile
  rw [hv, h.within_limits]
  rfl

/-- A valid command that exceeds a limit is refused in one of the two ways. -/
theorem limit_outcome (hv : validate command = .ok ()) (hl : checkPreLimits command.sourceTree command.targetTree
    command.executionContext.resourceLimits command.executionContext.correlationId ≠ .ok ()) : ∃ message context,
    reconcile command = if command.executionContext.incompleteOnLimit then
        .ok (incompleteResult command [limitDiagnostic message context])
      else .error (.documented (.resourceLimitExceeded message command.executionContext.correlationId context)) := by
  obtain ⟨hs, ht, -⟩ := validate_ok_iff.mp hv
  rcases checkPreLimits_outcome (rooted_of_validateTree hs) (rooted_of_validateTree ht)
    command.executionContext.resourceLimits command.executionContext.correlationId with hok | ⟨message, context, herr⟩
  · exact absurd hok hl
  · refine ⟨message, context, ?_⟩
    unfold reconcile
    rw [hv, herr]
    by_cases hi : command.executionContext.incompleteOnLimit = true
    · simp only [bind, Except.bind, hi, if_true]
      rfl
    · simp only [bind, Except.bind, hi]
      rfl

/-- A command that is not admitted ends in a documented error, or in an incomplete result. -/
theorem not_admitted_outcome (h : ¬ Admitted command) : (∃ e, reconcile command = .error (.documented e)) ∨
    ∃ diagnostics, reconcile command = .ok (incompleteResult command diagnostics) := by
  rcases validate_outcome command with hv | ⟨e, hv⟩
  · obtain ⟨hs, ht, hp⟩ := validate_ok_iff.mp hv
    obtain ⟨message, context, hrun⟩ := limit_outcome hv fun hl => h ⟨hs, ht, hp, hl⟩
    rw [hrun]
    split
    · exact Or.inr ⟨_, rfl⟩
    · exact Or.inl ⟨_, rfl⟩
  · unfold reconcile
    rw [hv]
    exact Or.inl ⟨e, rfl⟩

theorem runStages_complete {result : ReconciliationResult} (h : runStages command = .ok result) :
    result.complete = true := by
  unfold runStages at h
  simp only [Outcome.bind_ok, Outcome.pure_ok] at h
  obtain ⟨-, -, -, -, -, -, -, -, -, -, -, -, rfl⟩ := h
  rfl

/-- A complete result is what the stages return on an admitted command. -/
theorem complete_iff {result : ReconciliationResult} : reconcile command = .ok result ∧ result.complete = true ↔
    Admitted command ∧ runStages command = .ok result := by
  constructor
  · intro h
    obtain ⟨hrun, hcomplete⟩ := h
    by_cases ha : Admitted command
    · exact ⟨ha, reconcile_admitted ha ▸ hrun⟩
    · rcases not_admitted_outcome ha with ⟨e, he⟩ | ⟨diagnostics, hincomplete⟩
      · rw [hrun] at he
        cases he
      · rw [hrun] at hincomplete
        cases hincomplete
        cases hcomplete
  · intro h
    exact ⟨reconcile_admitted h.1 ▸ h.2, runStages_complete h.2⟩

end Commands

/-! ## The stages of a run -/

namespace Admitted
variable {command : ReconcileTreesCommand} (h : Admitted command)

include h

theorem source_rooted : Rooted (normalizedSource command) := rooted_normalize (rooted_of_validateTree h.source_valid)

theorem target_rooted : Rooted (normalizedTarget command) := rooted_normalize (rooted_of_validateTree h.target_valid)

/-- The comparison of the two trees that the evidence decides. -/
def comparison (evidence : EvidenceIndex) : Comparison NodeRef NodeRef :=
  Matching.comparison evidence command.matchingProfile h.source_rooted h.target_rooted

theorem source_parent (evidence : EvidenceIndex) (s : NodeRef) :
    (h.comparison evidence).source.parent s = command.sourceTree.parentOf s := parentOf_normalize

theorem target_parent (evidence : EvidenceIndex) (t : NodeRef) :
    (h.comparison evidence).target.parent t = command.targetTree.parentOf t := parentOf_normalize

theorem source_node (evidence : EvidenceIndex) (s : NodeRef) :
    (h.comparison evidence).source.Node s ↔ s ∈ command.sourceTree.nodes.keys :=
  h.source_rooted.node_iff.trans mem_keys_normalize

theorem target_node (evidence : EvidenceIndex) (t : NodeRef) :
    (h.comparison evidence).target.Node t ↔ t ∈ command.targetTree.nodes.keys :=
  h.target_rooted.node_iff.trans mem_keys_normalize

theorem exists_evidence [PyRuntime] :
    ∃ evidence, extract (normalizedSource command) (normalizedTarget command) = .ok evidence :=
  extract_total h.source_rooted h.target_rooted

end Admitted

def context (command : ReconcileTreesCommand) (result : ReconciliationResult) : ClassificationContext :=
  ⟨normalizedSource command, normalizedTarget command, result.matchGraph, result.alignment, command.operationProfile⟩

/-- What the stages of a run return, one after the other. -/
structure Stages [PyRuntime] (command : ReconcileTreesCommand) (evidence : EvidenceIndex)
    (result : ReconciliationResult) : Prop where
  extracted : extract (normalizedSource command) (normalizedTarget command) = .ok evidence
  matched : match_ evidence command.matchingProfile = .ok result.matchGraph
  aligned : align (normalizedSource command) (normalizedTarget command) result.matchGraph command.alignmentProfile =
    .ok result.alignment
  classified : classify (context command result) = .ok result.operations
  analyzed : analyze result.operations result.matchGraph = .ok result.causality
  suppressed : suppress (normalizedSource command) result.operations result.alignment command.suppressionProfile =
    .ok result.suppression

section Runs
variable [PyRuntime] {command : ReconcileTreesCommand} {evidence : EvidenceIndex} {result : ReconciliationResult}

theorem runStages_stages (h : runStages command = .ok result) : ∃ evidence, Stages command evidence result := by
  unfold runStages at h
  simp only [Outcome.bind_ok, Outcome.pure_ok] at h
  obtain ⟨evidence, he, graph, hg, alignment, ha, operations, ho, causality, hc, suppression, hs, rfl⟩ := h
  exact ⟨evidence, he, hg, ha, ho, hc, hs⟩

theorem stages_of_complete (hrun : reconcile command = .ok result) (hcomplete : result.complete = true)
    (he : extract (normalizedSource command) (normalizedTarget command) = .ok evidence) :
    Stages command evidence result := by
  obtain ⟨evidence', hstages⟩ := runStages_stages (complete_iff.mp ⟨hrun, hcomplete⟩).2
  have he' := hstages.extracted
  rw [he] at he'
  cases he'
  exact hstages

/-- Corresponding nodes are nodes of the two trees. -/
theorem corresponding_known (he : extract (normalizedSource command) (normalizedTarget command) = .ok evidence)
    {s t : NodeRef} (h : Corresponding evidence command.matchingProfile s t) :
    s ∈ (normalizedSource command).nodes.keys ∧ t ∈ (normalizedTarget command).nodes.keys := by
  obtain ⟨hs, ht, -, -⟩ := extract_ok.mp he
  obtain ⟨source, target, hsource, htarget, -⟩ := h.compatible
  exact ⟨(mem_keys_extractTree hs).mp ((Dict.mem_keys _).mpr ⟨source, hsource⟩),
    (mem_keys_extractTree ht).mp ((Dict.mem_keys _).mpr ⟨target, htarget⟩)⟩

/-- Under the hard constraint on types, corresponding nodes are of one type. -/
theorem sameType_of_corresponding (he : extract (normalizedSource command) (normalizedTarget command) = .ok evidence)
    {s t : NodeRef} (h : Corresponding evidence command.matchingProfile s t)
    (hhard : command.matchingProfile.hardConstraintNodeType = true) : ∃ a ∈ command.sourceTree.nodes.get? s,
      ∃ b ∈ command.targetTree.nodes.get? t, a.nodeType = b.nodeType := by
  obtain ⟨hs, ht, -, -⟩ := extract_ok.mp he
  obtain ⟨source, target, hsource, htarget, hcomp⟩ := h.compatible
  obtain ⟨a, ha, hsource⟩ := (get_extractTree hs).mp hsource
  obtain ⟨b, hb, htarget⟩ := (get_extractTree ht).mp htarget
  rw [normalizedSource, get_normalize] at ha
  rw [normalizedTarget, get_normalize] at hb
  obtain ⟨a, hsource', rfl⟩ := Option.map_eq_some_iff.mp ha
  obtain ⟨b, htarget', rfl⟩ := Option.map_eq_some_iff.mp hb
  refine ⟨a, hsource', b, htarget', ?_⟩
  exact ((nodeEvidence_fields hsource).2.1.symm.trans (compatible_iff.mp hcomp hhard)).trans (nodeEvidence_fields htarget).2.1

/-- What the matcher and the aligner return agrees with the comparison that the evidence decides. -/
theorem agrees_of_aligned (h : Admitted command)
    (he : extract (normalizedSource command) (normalizedTarget command) = .ok evidence) {graph : MatchGraph}
    (hg : match_ evidence command.matchingProfile = .ok graph) {alignment : AlignmentResult}
    (ha : align (normalizedSource command) (normalizedTarget command) graph command.alignmentProfile = .ok alignment) :
    Agrees ⟨normalizedSource command, normalizedTarget command, graph, alignment, command.operationProfile⟩
      command.alignmentProfile (h.comparison evidence) (certainty evidence command.matchingProfile) where
  source_rooted := h.source_rooted
  target_rooted := h.target_rooted
  source_eq := rfl
  target_eq := rfl
  matched_iff := fun _ _ => confirmed_iff hg
  unsettled_iff := fun _ _ => ambiguous_iff hg
  known := fun _ _ hm => corresponding_known he hm
  certain := fun _ hc hstate => confidence_of_confirmed hg hc hstate
  aligned := ha

theorem Stages.agrees (h : Admitted command) (hs : Stages command evidence result) :
    Agrees (context command result) command.alignmentProfile (h.comparison evidence)
      (certainty evidence command.matchingProfile) := agrees_of_aligned h hs.extracted hs.matched hs.aligned

omit [PyRuntime] in
theorem paired_of_matched (h : Admitted command) {graph : MatchGraph}
    (hg : match_ evidence command.matchingProfile = .ok graph) {p q : NodeRef} :
    Paired (normalizedSource command) (normalizedTarget command) graph p q ↔ (h.comparison evidence).Paired p q := by
  unfold Paired Comparison.Paired
  rw [confirmed_iff hg]
  rfl

/-- The operations of a run are exactly those to be reported. -/
theorem Stages.reported (h : Admitted command) (hs : Stages command evidence result) (op : StructuralOperation) :
    op ∈ result.operations.operations ↔ Reported (context command result) command.alignmentProfile
      (h.comparison evidence) (certainty evidence command.matchingProfile) op.val := by
  obtain ⟨set, hset, -, -, hmem⟩ := classify_run (hs.agrees h)
  rw [hs.classified] at hset
  cases hset
  exact hmem op

/-- No operation of a run comes twice, deletes and inserts apart. -/
theorem Stages.nodup (h : Admitted command) (hs : Stages command evidence result) :
    (result.operations.operations.filter fun op => op.val.type ≠ .delete ∧ op.val.type ≠ .insert).Nodup := by
  obtain ⟨set, hset, -, hnodup, -⟩ := classify_run (hs.agrees h)
  rw [hs.classified] at hset
  cases hset
  exact hnodup

theorem Stages.exists_op (h : Admitted command) (hs : Stages command evidence result) {x : StructuralOperationFields}
    (hx : Reported (context command result) command.alignmentProfile (h.comparison evidence)
      (certainty evidence command.matchingProfile) x) : ∃ op ∈ result.operations.operations, op.val = x :=
  ⟨⟨x, (hs.agrees h).reported_accepted hx⟩, (hs.reported h _).mpr hx, rfl⟩

/-- The ids of the regions below paired parents are told apart. -/
def DistinctRegionIds (D : Comparison NodeRef NodeRef) : Prop :=
  ∀ p q p' q', D.Paired p q → D.Paired p' q' → regionIdFor p q = regionIdFor p' q' → p = p' ∧ q = q'

/-- Once the matcher and the aligner have returned, every asserted pair has evidence and the region
    ids are told apart. -/
theorem runStages_conditions (h : Admitted command)
    (he : extract (normalizedSource command) (normalizedTarget command) = .ok evidence) {graph : MatchGraph}
    (hg : match_ evidence command.matchingProfile = .ok graph) {alignment : AlignmentResult}
    (ha : align (normalizedSource command) (normalizedTarget command) graph command.alignmentProfile = .ok alignment) :
    Supported evidence command.matchingProfile ∧ DistinctRegionIds (h.comparison evidence) := by
  have hagrees := agrees_of_aligned h he hg ha
  have hdistinct := (align_total_iff fun p q hpq => hagrees.paired_known (hagrees.paired_iff.mp hpq)).mp ⟨_, ha⟩
  refine ⟨match_total_iff.mp ⟨_, hg⟩, fun p q p' q' hpq hpq' => ?_⟩
  exact hdistinct p q p' q' ((paired_of_matched h hg).mpr hpq) ((paired_of_matched h hg).mpr hpq')

/-- The stages return a result exactly when every asserted pair has evidence and the region ids
    are told apart. -/
theorem runStages_total_iff (h : Admitted command)
    (he : extract (normalizedSource command) (normalizedTarget command) = .ok evidence) :
    (∃ result, runStages command = .ok result) ↔
      Supported evidence command.matchingProfile ∧ DistinctRegionIds (h.comparison evidence) := by
  constructor
  · intro hrun
    obtain ⟨result, hrun⟩ := hrun
    obtain ⟨evidence', hs⟩ := runStages_stages hrun
    obtain rfl : evidence = evidence' := Except.ok.inj (he.symm.trans hs.extracted)
    exact runStages_conditions h he hs.matched hs.aligned
  · intro hcond
    obtain ⟨hsupported, hdistinct⟩ := hcond
    obtain ⟨graph, hg⟩ := match_total_iff.mpr hsupported
    have hknown : ∀ p q, Paired (normalizedSource command) (normalizedTarget command) graph p q →
        p ∈ (normalizedSource command).nodes.keys ∧ q ∈ (normalizedTarget command).nodes.keys := by
      intro p q hpq
      rcases (paired_of_matched h hg).mp hpq with ⟨rfl, rfl⟩ | hm
      · exact ⟨(normalizedSource command).root_mem, (normalizedTarget command).root_mem⟩
      · exact corresponding_known he hm
    have hregions : DistinctRegions (normalizedSource command) (normalizedTarget command) graph := fun p q p' q' hpq hpq' =>
      hdistinct p q p' q' ((paired_of_matched h hg).mp hpq) ((paired_of_matched h hg).mp hpq')
    have hreturns : ∃ alignment, align (normalizedSource command) (normalizedTarget command) graph
        command.alignmentProfile = .ok alignment := (align_total_iff hknown).mpr hregions
    obtain ⟨alignment, ha⟩ := hreturns
    have hagrees := agrees_of_aligned h he hg ha
    obtain ⟨operations, ho, -, -, hmem⟩ := classify_run hagrees
    obtain ⟨causality, hc⟩ := analyze_total operations graph
    have hmoves : ∀ op ∈ operations.operations, op.val.type = .move →
        ∃ s rest, op.val.sourceNodeRefs = s :: rest ∧ s ∈ (normalizedSource command).nodes.keys := by
      intro op hop htype
      have hreported := (hmem op).mp hop
      generalize op.val = x at hreported htype
      cases hreported with
      | moved hm hen => exact ⟨_, [], rfl, (hagrees.known _ _ hm.1.1).1⟩
      | @aligned s t ha hen => rcases matchOf_kept _ s t with hk | hk <;> rw [hk] at htype <;> cases htype
      | deleted ha hu hen => cases htype
      | inserted ha hu hen => cases htype
      | reordered hpq hsh hen => cases htype
    have hreturns : ∃ suppression, suppress (normalizedSource command) operations alignment command.suppressionProfile =
        .ok suppression := suppress_total h.source_rooted hmoves
    obtain ⟨suppression, hs⟩ := hreturns
    unfold runStages
    simp only [Outcome.bind_ok, Outcome.pure_ok]
    exact ⟨_, evidence, he, graph, hg, alignment, ha, operations, ho, causality, hc, suppression, hs, rfl⟩

end Runs

end Reconciliation.Engine
