/-
  Reconciliation.Reporting.Rows — the table a localization result is flattened to: one row
  for each issue and, on request, one for each suppressed effect.
-/
import Reconciliation.Localization.Validation
import Reconciliation.Reporting.Contracts

namespace Reconciliation.Reporting

open Reconciliation.Base Reconciliation.Contracts Reconciliation.Localization

def reportContractVersion : String := "report-v1"

def redacted : String := "[redacted]"

/-! ## Cells -/

def node (tree : Option CanonicalTree) (ref : Option NodeRef) : Option CanonicalNode := do
  let tree ← tree
  let ref ← ref
  tree.nodes.get? ref

def path (node : Option CanonicalNode) : Option String := do
  let node ← node
  let location ← node.sourceLocation
  location.xpath

/-- The first value under one of the keys, from the content or else from the identity, printed. -/
def revision [PyRuntime] (node : Option CanonicalNode) (keys : List String) : Option String := do
  let node ← node
  keys.findSome? fun key =>
    match ((node.contentProperties.get? key).filter CanonicalValue.truthy).or (node.identityProperties.get? key) with
    | none | some .none => none
    | some value => some value.pyStr

/-- An override shows the status the reviewer put in place of the engine's. -/
def decisionCell (decision : ReviewerDecision) : String :=
  match decision.decision, Classification.truthy decision.overriddenStatus with
  | .override, some status => "OVERRIDE->" ++ status
  | other, _ => other.value

def maybeRedact (value : Option String) (options : ReportOptions) : Option String :=
  value.map fun text => if options.redactContent then redacted else text

def matchStatus (matchIds : List String) (matchesById : Dict String MatchCandidate) : Option String :=
  matchIds.findSome? fun matchId => (matchesById.get? matchId).map (·.val.state.value)

/-- The evidence codes of the matches, each once, in the order they are met. -/
def evidenceCodes (matchIds : List String) (matchesById : Dict String MatchCandidate) : List String :=
  (matchIds.flatMap fun matchId =>
    match matchesById.get? matchId with
    | none => []
    | some candidate => candidate.val.evidence.map (·.code.value)).foldl
      (fun codes code => if code ∈ codes then codes else codes ++ [code]) []

def operationType (operationId : Option String) (reconciliation : ReconciliationResult) : Option String := do
  let operationId ← operationId
  let op ← reconciliation.operations.operations.find? fun op => op.val.operationId = operationId
  return op.val.type.value

/-! ## The table -/

def matchesById (reconciliation : ReconciliationResult) : Dict String MatchCandidate :=
  Dict.ofPairs (reconciliation.matchGraph.candidates.map fun c => (c.val.matchId, c))

def suppressionCountsByRoot (reconciliation : ReconciliationResult) : Dict String Nat :=
  Dict.tally (reconciliation.suppression.suppressedEffects.map (·.val.rootOperationId))

def issueRow [PyRuntime] (result : LocalizationValidationResult) (sourceTree localeTree : Option CanonicalTree)
    (options : ReportOptions) (decisionByIssue : Dict String ReviewerDecision) (issue : LocalizationIssue) : ReportRow :=
  let sourceNode := node sourceTree issue.sourceNodeRef
  let localeNode := node localeTree issue.localeNodeRef
  let rootOperationId := issue.coreOperationIds.head?
  { jobId := result.jobId
    resultId := issue.issueId
    sourceNodeId := issue.sourceNodeId
    localeNodeId := issue.localeNodeId
    sourcePath := path sourceNode
    localePath := path localeNode
    nodeType := (sourceNode.or localeNode).map (·.nodeType)
    sourceLabel := maybeRedact issue.sourceLabel options
    localeLabel := maybeRedact issue.localeLabel options
    matchStatus := matchStatus issue.coreMatchIds (matchesById result.reconciliation)
    localizationStatus := some issue.localizationStatus.value
    operation := operationType rootOperationId result.reconciliation
    matchConfidence := issue.matchConfidence
    operationConfidence := issue.operationConfidence
    repairConfidence := issue.repairConfidence
    evidenceCodes := evidenceCodes issue.coreMatchIds (matchesById result.reconciliation)
    sourceRevision := revision sourceNode ["revision"]
    localeRevision := revision localeNode ["revision", "source-revision"]
    rootOperationId := rootOperationId
    isSuppressed := false
    suppressedEffectCount := (issue.coreOperationIds.map fun opId =>
      ((suppressionCountsByRoot result.reconciliation).get? opId).getD 0).sum
    recommendedAction := some issue.recommendedAction.value
    autoFixEligible := issue.autoFixEligible
    reviewerDecision := (decisionByIssue.get? issue.issueId).map decisionCell
    policyExemption := issue.policyExemption
    message := maybeRedact issue.message options
    resultId_ne := issue.issueId_ne }

def suppressedRow (jobId : String) (index : Nat) (effect : SuppressedEffect) : ReportRow where
  jobId := jobId
  resultId := "suppressed-" ++ toString index
  localizationStatus := some "SUPPRESSED_EFFECT"
  operation := some effect.val.category
  rootOperationId := some effect.val.rootOperationId
  isSuppressed := true
  suppressionRule := some effect.val.suppressionRuleId
  operationConfidence := some (score effect.val.confidence)
  message := some ("derived effect suppressed by " ++ effect.val.rootOperationId)
  resultId_ne := by simp

def suppressedRows (result : LocalizationValidationResult) : List ReportRow :=
  result.reconciliation.suppression.suppressedEffects.mapIdx fun i effect => suppressedRow result.jobId (i + 1) effect

def buildReportTable [PyRuntime] (result : LocalizationValidationResult) (sourceTree localeTree : Option CanonicalTree)
    (options : ReportOptions) (reviewerDecisions : List ReviewerDecision) : ReportTable :=
  let decisionByIssue := Dict.ofPairs (reviewerDecisions.map fun d => (d.issueId, d))
  { schemaVersion := reportContractVersion
    jobId := result.jobId
    rows := result.issues.map (issueRow result sourceTree localeTree options decisionByIssue) ++
      (if options.includeSuppressed then suppressedRows result else []) }

end Reconciliation.Reporting
