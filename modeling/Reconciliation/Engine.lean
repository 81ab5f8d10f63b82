/-
  Reconciliation.Engine — the pipeline: validate, check the limits, normalize, extract
  evidence, match, align, classify, explain, suppress.

  An exceeded limit is raised, or answered with an incomplete result when the execution
  context asks for one. Stage durations are left out.
-/
import Reconciliation.Causality
import Reconciliation.Metrics
import Reconciliation.Suppression

namespace Reconciliation.Engine

open Reconciliation.Base Reconciliation.Contracts Reconciliation.Normalization Reconciliation.Evidence
  Reconciliation.Matching Reconciliation.Alignment Reconciliation.Classification Reconciliation.Causality
  Reconciliation.Suppression Reconciliation.Metrics Reconciliation.Validation

def coreContractVersion : String := "core-result-v1"

def engineVersion : String := "0.1.0"

/-! ## Diagnostics -/

def duplicateIdDiagnostic (side persistentId : String) : EngineDiagnostic where
  code := "DUPLICATE_PERSISTENT_ID"
  severity := .warning
  stage := .evidence
  message := [.text ("persistent id is duplicated in the " ++ side.toLower ++
    " tree and will not be used as authoritative identity")]
  metadata := [("side", .str side), ("persistent_id", .str persistentId)]
  code_ne := by decide

def duplicateIdDiagnostics (evidence : EvidenceIndex) : List EngineDiagnostic :=
  (sortedBy id evidence.duplicateSourceIds).map (duplicateIdDiagnostic "SOURCE") ++
    (sortedBy id evidence.duplicateTargetIds).map (duplicateIdDiagnostic "TARGET")

def strategyDiagnostic (strategy : AlignmentStrategy) : EngineDiagnostic where
  code := "ALIGNMENT_STRATEGY_NOT_IMPLEMENTED"
  severity := .warning
  stage := .alignment
  message := [.text ("requested alignment strategy is not implemented; " ++
    "longest-common-subsequence alignment was applied instead")]
  metadata := [("requested_strategy", .str strategy.value), ("applied_strategy", .str AlignmentStrategy.lcs.value)]
  code_ne := by decide

def unresolvedRegionDiagnostic (region : AlignedRegion) : EngineDiagnostic where
  code := "UNRESOLVED_ALIGNMENT_REGION"
  severity := .warning
  stage := .alignment
  message := [.text ("sibling region holds correspondences that are viable but not " ++
    "uniquely resolvable; presence defects are withheld there")]
  metadata := [("region_id", .str region.val.regionId),
    ("unresolved_source_count", .int region.unresolvedSourceRefs.length),
    ("unresolved_target_count", .int region.unresolvedTargetRefs.length)]
  code_ne := by decide

def alignmentDiagnostics (command : ReconcileTreesCommand) (alignment : AlignmentResult) : List EngineDiagnostic :=
  (if command.alignmentProfile.strategy ≠ .lcs then [strategyDiagnostic command.alignmentProfile.strategy] else []) ++
    (alignment.val.regions.filter (·.val.unresolved)).map unresolvedRegionDiagnostic

def limitDiagnostic (message : Message) (context : List (String × Nat)) : EngineDiagnostic where
  code := "RESOURCE_LIMIT_EXCEEDED"
  severity := .error
  stage := .normalization
  message := message
  metadata := context.map fun e => (e.1, .int e.2)
  code_ne := by decide

/-! ## Results -/

def profileVersions (command : ReconcileTreesCommand) : ProfileVersions where
  engineVersion := engineVersion
  coreContractVersion := coreContractVersion
  normalizationProfileVersion := command.normalizationProfile.version
  matchingProfileVersion := command.matchingProfile.version
  alignmentProfileVersion := command.alignmentProfile.version
  operationProfileVersion := command.operationProfile.version
  suppressionProfileVersion := command.suppressionProfile.version

def emptyExplanation : CandidateExplanation where
  explanationId := "explanation-incomplete"
  rootOperationIds := []
  links := []
  objectiveScore := 0
  confidence := ⟨0, false, none, Confidence.zero_range⟩
  explanationId_ne := by decide

def incompleteResult (command : ReconcileTreesCommand) (diagnostics : List EngineDiagnostic) : ReconciliationResult where
  contractVersion := coreContractVersion
  jobId := command.executionContext.jobId
  complete := false
  matchGraph := ⟨⟨[]⟩, rfl⟩
  alignment := ⟨⟨[], []⟩, rfl⟩
  operations := ⟨[]⟩
  causality := ⟨⟨emptyExplanation, []⟩, rfl⟩
  suppression := ⟨[], []⟩
  diagnostics := diagnostics
  metrics := ⟨command.sourceTree.nodes.size, command.targetTree.nodes.size, []⟩
  profileVersions := profileVersions command

/-! ## The pipeline -/

/-- The stages after validation and the limits. -/
def runStages [PyRuntime] (command : ReconcileTreesCommand) : Except PyError ReconciliationResult := do
  let source := (normalize command.sourceTree command.normalizationProfile).tree
  let target := (normalize command.targetTree command.normalizationProfile).tree
  let evidence ← extract source target
  let graph ← match_ evidence command.matchingProfile
  let alignment ← align source target graph command.alignmentProfile
  let operations ← classify ⟨source, target, graph, alignment, command.operationProfile⟩
  let causality ← analyze operations graph
  let suppression ← suppress source operations alignment command.suppressionProfile
  return {
    contractVersion := coreContractVersion
    jobId := command.executionContext.jobId
    complete := true
    matchGraph := graph
    alignment := alignment
    operations := operations
    causality := causality
    suppression := suppression
    diagnostics := duplicateIdDiagnostics evidence ++ alignmentDiagnostics command alignment
    metrics := {
      sourceNodeCount := command.sourceTree.nodes.size
      targetNodeCount := command.targetTree.nodes.size
      stageMetrics := [
        ⟨.normalization, 0, 2⟩,
        ⟨.evidence, 0, evidence.source.val.size + evidence.target.val.size⟩,
        ⟨.matching, graph.candidates.length, graph.confirmed.length⟩,
        ⟨.alignment, 0, alignment.val.regions.length⟩,
        ⟨.classification, 0, operations.operations.length⟩,
        ⟨.rootCause, 0, causality.val.selected.rootOperationIds.length⟩,
        ⟨.suppression, 0, suppression.suppressedEffects.length⟩] }
    profileVersions := profileVersions command }

/-- Fail-fast validation at the boundary. -/
def validate (command : ReconcileTreesCommand) : Except PyError Unit := do
  validateTree command.sourceTree command.executionContext.correlationId
  validateTree command.targetTree command.executionContext.correlationId
  raiseIfInvalid (validateProfiles command.matchingProfile command.operationProfile command.suppressionProfile)
    command.executionContext.correlationId

def reconcile [PyRuntime] (command : ReconcileTreesCommand) : Except PyError ReconciliationResult := do
  validate command
  match checkPreLimits command.sourceTree command.targetTree command.executionContext.resourceLimits
      command.executionContext.correlationId with
  | .ok () => runStages command
  | .error (.documented (.resourceLimitExceeded message correlationId context)) =>
    if command.executionContext.incompleteOnLimit then
      return incompleteResult command [limitDiagnostic message context]
    else throw (.documented (.resourceLimitExceeded message correlationId context))
  | .error error => throw error

end Reconciliation.Engine
