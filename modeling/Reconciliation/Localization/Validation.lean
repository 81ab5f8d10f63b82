/-
  Reconciliation.Localization.Validation — the service that reads a result as issues between
  a source and its locale, and plans repairs for them.

  An issue is drafted without its id; the drafts are numbered in the order in which they
  are made, before the filter that drops presence findings on ambiguous nodes.
-/
import Reconciliation.Classification.Classifiers
import Reconciliation.Localization.Contracts

namespace Reconciliation.Localization

open Reconciliation.Base Reconciliation.Contracts Reconciliation.Matching Reconciliation.Classification

/-! ## Reading nodes -/

def labelKeys : List String := ["navtitle", "label", "title"]

/-- The first label under one of the keys, from the content or else from the identity. -/
def label (node : Option CanonicalNode) : Option String := do
  let node ← node
  labelKeys.findSome? fun key =>
    match ((node.contentProperties.get? key).filter CanonicalValue.truthy).or (node.identityProperties.get? key) with
    | some (.str s) => if s = "" then none else some s
    | _ => none

def nodeId [PyRuntime] (node : Option CanonicalNode) : Option String := do
  let node ← node
  match node.identityProperties.get? "id" with
  | none | some .none => none
  | some value => some value.pyStr

/-- The first value under the key that is not `None`, printed. -/
def read [PyRuntime] (node : CanonicalNode) (key : String) : Option String :=
  [node.identityProperties, node.contentProperties, node.structuralProperties].findSome? fun bucket =>
    match bucket.get? key with
    | none | some .none => none
    | some value => some value.pyStr

/-- Current or stale only when both revisions are known. -/
def stateFor [PyRuntime] (sourceNode localeNode : CanonicalNode) : TranslationState :=
  match read sourceNode "revision", read localeNode "source-revision" with
  | some sourceRev, some syncedRev => if sourceRev = syncedRev then .current else .stale
  | _, _ => .unknown

/-- The id of the first rule of the locale's policy that permits the finding. -/
def exemptionFor (policy : Option LocaleVariationPolicy) (locale : String) (operation : OperationType)
    (nodeType : String) : Option String := do
  let policy ← policy
  if policy.locale ≠ locale then none
  else (policy.rules.find? fun rule => rule.appliesTo operation nodeType).map (·.ruleId)

/-! ## The tables -/

/-- `MOVED`, which no issue gets, is not in the table of the source. -/
def severityOf : LocalizationStatus → Severity
  | .confirmedMatch | .probableMatch | .exemptLocaleVariation => .info
  | .ambiguousMatch | .wrongOrder | .sourceUpdated | .extraInLocale => .warning
  | .localeDiverged | .missingInLocale | .wrongParent | .identifierConflict | .moved => .error

def actionOf : LocalizationStatus → RecommendedAction
  | .wrongParent => .relinkOrMove
  | .wrongOrder => .reorder
  | .missingInLocale => .addOrTranslate
  | .extraInLocale => .reviewOrRemove
  | .ambiguousMatch => .review
  | .sourceUpdated => .reviewTranslation
  | _ => .none

def messageFor : LocalizationStatus → Option String
  | .wrongParent => some "corresponding node appears under an incompatible parent"
  | .wrongOrder => some "matched siblings appear in a different order"
  | .sourceUpdated => some "source changed after the locale was last synchronized"
  | _ => none

/-! ## Drafting issues -/

def score (confidence : Confidence) : Score := ⟨confidence.value, confidence.range⟩

def issueIdOf (counter : Nat) : String := "issue-" ++ toString counter

theorem issueIdOf_ne (counter : Nat) : issueIdOf counter ≠ "" := by simp [issueIdOf]

/-- An issue that waits for its number. -/
abbrev Draft := Nat → LocalizationIssue

/-- The moves by their source nodes. -/
def moveIndex (result : ReconciliationResult) : Dict NodeRef StructuralOperation :=
  Dict.ofPairs ((result.operations.operations.filter fun op => op.val.type = .move).flatMap fun op =>
    op.val.sourceNodeRefs.map fun ref => (ref, op))

def correspondenceStatus (moved : Bool) (state : TranslationState) (confidence threshold : ℚ) : LocalizationStatus :=
  if moved then .wrongParent
  else if state = .stale then .sourceUpdated
  else if threshold ≤ confidence then .confirmedMatch
  else .probableMatch

theorem correspondenceStatus_ne (moved : Bool) (state : TranslationState) (confidence threshold : ℚ) :
    correspondenceStatus moved state confidence threshold ≠ .exemptLocaleVariation := by
  unfold correspondenceStatus
  split_ifs <;> simp

def confirmedThreshold (policy : Option LocaleVariationPolicy) : ℚ := (policy.map (·.confirmedMatchThreshold)).getD (9 / 10)

/-- A confirmed candidate is an issue, unless its source node is a root. -/
def confirmedIssue [PyRuntime] (moveBySource : Dict NodeRef StructuralOperation) (sourceTree localeTree : CanonicalTree)
    (policy : Option LocaleVariationPolicy) (candidate : MatchCandidate) : Option Draft := do
  let sourceNode ← sourceTree.nodes.get? candidate.val.sourceNodeRef
  if sourceNode.parentRef = none then none
  else
    let localeNode := localeTree.nodes.get? candidate.val.targetNodeRef
    let state := (localeNode.map (stateFor sourceNode)).getD .unknown
    let op := moveBySource.get? candidate.val.sourceNodeRef
    let status := correspondenceStatus op.isSome state candidate.val.confidence.value (confirmedThreshold policy)
    some fun counter =>
      { issueId := issueIdOf counter
        localizationStatus := status
        severity := severityOf status
        sourceNodeRef := some candidate.val.sourceNodeRef
        localeNodeRef := some candidate.val.targetNodeRef
        sourceNodeId := nodeId (some sourceNode)
        localeNodeId := nodeId localeNode
        sourceLabel := label (some sourceNode)
        localeLabel := label localeNode
        coreMatchIds := [candidate.val.matchId]
        coreOperationIds := (op.map (·.val.operationId)).toList
        matchConfidence := some (score candidate.val.confidence)
        operationConfidence := op.map fun op => score op.val.confidence
        translationState := state
        recommendedAction := actionOf status
        message := messageFor status
        issueId_ne := issueIdOf_ne counter
        exemption_named := fun h => absurd h (correspondenceStatus_ne _ _ _ _) }

/-- One issue for an ambiguous source node. -/
def ambiguousIssue [PyRuntime] (result : ReconciliationResult) (sourceTree : CanonicalTree) (sourceRef : NodeRef) : Draft :=
  let group := result.matchGraph.ambiguous.filter fun c => c.val.sourceNodeRef = sourceRef
  let sourceNode := sourceTree.nodes.get? sourceRef
  fun counter =>
    { issueId := issueIdOf counter
      localizationStatus := .ambiguousMatch
      severity := .warning
      sourceNodeRef := some sourceRef
      sourceNodeId := nodeId sourceNode
      sourceLabel := label sourceNode
      coreMatchIds := group.map (·.val.matchId)
      matchConfidence := (group.map fun c => score c.val.confidence).max?
      recommendedAction := .review
      message := some "multiple plausible locale correspondences require review"
      issueId_ne := issueIdOf_ne counter }

/-- One issue for a region whose order changed. -/
def reorderIssue (op : StructuralOperation) : Draft := fun counter =>
  { issueId := issueIdOf counter
    localizationStatus := .wrongOrder
    severity := .warning
    sourceNodeRef := op.val.sourceNodeRefs.head?
    coreOperationIds := [op.val.operationId]
    coreMatchIds := op.val.matchIds
    operationConfidence := some (score op.val.confidence)
    recommendedAction := .reorder
    message := some "matched siblings appear in a different order under a matched parent"
    issueId_ne := issueIdOf_ne counter }

/-- A node present on one side only: exempt, or the given status. -/
def presenceIssue [PyRuntime] (op : StructuralOperation) (sourceTree localeTree : CanonicalTree) (nodeRef : NodeRef)
    (onSource : Bool) (locale : String) (policy : Option LocaleVariationPolicy) (defaultStatus : LocalizationStatus)
    (hdefault : defaultStatus ≠ .exemptLocaleVariation) : Draft :=
  let node := (if onSource then sourceTree else localeTree).nodes.get? nodeRef
  let nodeType := (node.map (·.nodeType)).getD ""
  let exemption := exemptionFor policy locale op.val.type nodeType
  let status := if (truthy exemption).isSome then .exemptLocaleVariation else defaultStatus
  fun counter =>
    { issueId := issueIdOf counter
      localizationStatus := status
      severity := severityOf status
      sourceNodeRef := if onSource then some nodeRef else none
      localeNodeRef := if onSource then none else some nodeRef
      sourceNodeId := if onSource then nodeId node else none
      localeNodeId := if onSource then none else nodeId node
      sourceLabel := if onSource then label node else none
      localeLabel := if onSource then none else label node
      coreOperationIds := [op.val.operationId]
      operationConfidence := some (score op.val.confidence)
      recommendedAction := actionOf status
      policyExemption := exemption
      message := (truthy exemption).map fun rule => "policy-exempt variation (" ++ rule ++ ")"
      issueId_ne := issueIdOf_ne counter
      exemption_named := by
        show (if (truthy exemption).isSome then .exemptLocaleVariation else defaultStatus) = _ → _
        cases exemption with
        | none => exact fun h => absurd h hdefault
        | some rule => by_cases hr : rule = "" <;> simp [truthy, hr, hdefault] }

/-- A delete is missing in the locale, an insert is extra there. -/
def presenceDraft [PyRuntime] (sourceTree localeTree : CanonicalTree) (locale : String)
    (policy : Option LocaleVariationPolicy) (op : StructuralOperation) : Option Draft :=
  match op.val.type, op.val.sourceNodeRefs.head?, op.val.targetNodeRefs.head? with
  | .delete, some s, _ => some (presenceIssue op sourceTree localeTree s true locale policy .missingInLocale (by simp))
  | .insert, _, some t => some (presenceIssue op sourceTree localeTree t false locale policy .extraInLocale (by simp))
  | _, _, _ => none

def conflictIssue : Draft := fun counter =>
  { issueId := issueIdOf counter
    localizationStatus := .identifierConflict
    severity := .error
    message := some "duplicate persistent identifier detected; identity is ambiguous"
    issueId_ne := issueIdOf_ne counter }

/-! ## Interpretation -/

/-- All drafts, in the order of the source's loops. -/
def drafts [PyRuntime] (result : ReconciliationResult) (sourceTree localeTree : CanonicalTree) (locale : String)
    (policy : Option LocaleVariationPolicy) : List Draft :=
  result.matchGraph.confirmed.filterMap (confirmedIssue (moveIndex result) sourceTree localeTree policy) ++
    ((sortedBy id (result.matchGraph.ambiguous.map (·.val.sourceNodeRef)).dedup).map (ambiguousIssue result sourceTree) ++
    ((result.operations.operations.filter fun op => op.val.type = .reorder).map reorderIssue ++
    (result.operations.operations.filterMap (presenceDraft sourceTree localeTree locale policy) ++
    (result.diagnostics.filter fun d => d.code = "DUPLICATE_PERSISTENT_ID").map fun _ => conflictIssue)))

def number (drafts : List Draft) : List LocalizationIssue := drafts.mapIdx fun i draft => draft (i + 1)

/-- A presence finding on a node whose correspondence is ambiguous. -/
def contradictory (result : ReconciliationResult) (issue : LocalizationIssue) : Bool :=
  let ambiguousSources := result.matchGraph.ambiguous.map (·.val.sourceNodeRef) ++ result.alignment.unresolvedSourceRefs
  let ambiguousTargets := result.matchGraph.ambiguous.map (·.val.targetNodeRef) ++ result.alignment.unresolvedTargetRefs
  decide (issue.localizationStatus = .missingInLocale ∧ ∃ s ∈ issue.sourceNodeRef, s ∈ ambiguousSources) ||
    decide (issue.localizationStatus = .extraInLocale ∧ ∃ t ∈ issue.localeNodeRef, t ∈ ambiguousTargets)

def withoutContradictoryPresence (issues : List LocalizationIssue) (result : ReconciliationResult) : List LocalizationIssue :=
  issues.filter fun issue => !contradictory result issue

def interpret [PyRuntime] (result : ReconciliationResult) (sourceTree localeTree : CanonicalTree) (locale : String)
    (policy : Option LocaleVariationPolicy) : List LocalizationIssue :=
  withoutContradictoryPresence (number (drafts result sourceTree localeTree locale policy)) result

/-! ## Recommendations -/

def repairSafetyFactor : ℚ := 9 / 10

def preconditionsOf : RepairOperation → List String
  | .moveNode => ["INPUT_FINGERPRINT_UNCHANGED", "TARGET_NODE_EXISTS", "DESTINATION_PARENT_EXISTS", "DOMAIN_RULES_PASS"]
  | .reorderNodes => ["INPUT_FINGERPRINT_UNCHANGED", "MATCHED_SIBLINGS_EXIST", "DOMAIN_RULES_PASS"]
  | .addNode => ["INPUT_FINGERPRINT_UNCHANGED", "DESTINATION_PARENT_EXISTS", "SOURCE_NODE_AVAILABLE", "DOMAIN_RULES_PASS"]
  | .removeNode => ["INPUT_FINGERPRINT_UNCHANGED", "TARGET_NODE_EXISTS", "DOMAIN_RULES_PASS"]
  | .reviewTranslation => []

def postconditionsOf : RepairOperation → List String
  | .moveNode => ["TARGET_PARENT_MATCHES_AUTHORITATIVE_PARENT", "XML_REMAINS_SCHEMA_VALID"]
  | .reorderNodes => ["SIBLING_ORDER_MATCHES_AUTHORITATIVE", "XML_REMAINS_SCHEMA_VALID"]
  | .addNode => ["REQUIRED_NODE_PRESENT_IN_LOCALE", "XML_REMAINS_SCHEMA_VALID"]
  | .removeNode => ["EXTRA_NODE_REMOVED_FROM_LOCALE", "XML_REMAINS_SCHEMA_VALID"]
  | .reviewTranslation => []

def changesOf : RepairOperation → List RepairChange
  | .moveNode => [.containment]
  | .reorderNodes => [.order]
  | .addNode => [.containment]
  | .removeNode => [.containment]
  | .reviewTranslation => []

def statusOperation : LocalizationStatus → Option RepairOperation
  | .wrongParent => some .moveNode
  | .wrongOrder => some .reorderNodes
  | .missingInLocale => some .addNode
  | .extraInLocale => some .removeNode
  | _ => none

/-- Every repair that is planned names its preconditions and its changes. -/
theorem statusOperation_listed {status : LocalizationStatus} {operation : RepairOperation}
    (h : statusOperation status = some operation) : preconditionsOf operation ≠ [] ∧ changesOf operation ≠ [] := by
  cases status <;> cases h <;> simp [preconditionsOf, changesOf]

theorem range_mul {q : ℚ} (h : 0 ≤ q ∧ q ≤ 1) : 0 ≤ q * repairSafetyFactor ∧ q * repairSafetyFactor ≤ 1 := by
  unfold repairSafetyFactor
  constructor <;> linarith [h.1, h.2]

/-- Below the smaller of the two confidences, by the safety factor. -/
def repairConfidence (issue : LocalizationIssue) : Score :=
  let base : Score := min (issue.matchConfidence.getD ⟨1, Confidence.full.range⟩) (issue.operationConfidence.getD ⟨1, Confidence.full.range⟩)
  ⟨round6 (base.val * repairSafetyFactor), round6_range (range_mul base.property)⟩

/-- The parent a move came from, as the first of the issue's operations that has one records it. -/
def geometry (issue : LocalizationIssue) (operationsById : Dict String StructuralOperation) : Option NodeRef :=
  issue.coreOperationIds.findSome? fun opId => (operationsById.get? opId).bind (·.val.fromParentRef)

/-- A repair that names its preconditions and its changes. -/
abbrev Repair := {op : RepairOperation // preconditionsOf op ≠ [] ∧ changesOf op ≠ []}

/-- The repair of an issue that is neither ambiguous nor exempt. -/
def repairOf (issue : LocalizationIssue) : Option Repair :=
  match h : statusOperation issue.localizationStatus with
  | none => none
  | some operation =>
    if issue.localizationStatus = .ambiguousMatch then none
    else if issue.policyExemption ≠ none then none
    else some ⟨operation, statusOperation_listed h⟩

def targetSide : AuthoritativeSide → AuthoritativeSide
  | .source => .locale
  | .locale => .source

def recommendation (authoritativeSide : AuthoritativeSide) (operationsById : Dict String StructuralOperation)
    (counter : Nat) (issue : LocalizationIssue) (operation : Repair) : RepairRecommendation where
  recommendationId := "repair-" ++ toString counter
  operation := operation
  authoritativeSide := authoritativeSide
  targetSide := targetSide authoritativeSide
  issueId := issue.issueId
  sourceOperationIds := issue.coreOperationIds
  targetNodeRef := (truthy issue.localeNodeRef).or issue.sourceNodeRef
  destinationParentRef := geometry issue operationsById
  afterSiblingRef := none
  repairConfidence := repairConfidence issue
  changes := changesOf operation
  preconditions := preconditionsOf operation
  postconditions := postconditionsOf operation
  recommendationId_ne := by simp
  issueId_ne := issue.issueId_ne
  preconditions_ne := operation.property.1
  changes_ne := operation.property.2

def recommend (issues : List LocalizationIssue) (authoritativeSide : AuthoritativeSide)
    (operationsById : Dict String StructuralOperation) : List RepairRecommendation :=
  (issues.filterMap fun issue => (repairOf issue).map fun operation => (issue, operation)).mapIdx fun i e =>
    recommendation authoritativeSide operationsById (i + 1) e.1 e.2

/-- The recommendation of each issue that has one, with its confidence. -/
def attachments (recommendations : List RepairRecommendation) : Dict String (String × Score) :=
  Dict.ofPairs (recommendations.map fun r => (r.issueId, (r.recommendationId, r.repairConfidence)))

def attach (links : Dict String (String × Score)) (issue : LocalizationIssue) : LocalizationIssue :=
  match links.get? issue.issueId with
  | none => issue
  | some link =>
    { issue with
      recommendationId := some link.1
      repairConfidence := some link.2
      repair_linked := by simp }

/-! ## Summary -/

def summarize (issues : List LocalizationIssue) (result : ReconciliationResult) : LocalizationSummary :=
  let statusCounts := Dict.tally (issues.map (·.localizationStatus.value))
  let count (status : LocalizationStatus) : Nat := (statusCounts.get? status.value).getD 0
  { statusCounts := statusCounts
    operationCounts := Dict.tally (result.operations.operations.map (·.val.type.value))
    actionCounts := Dict.tally (issues.map (·.recommendedAction.value))
    nodeCounts :=
      { confirmed := count .confirmedMatch
        probable := count .probableMatch
        ambiguous := count .ambiguousMatch
        missing := count .missingInLocale
        extra := count .extraInLocale
        structurallyDivergent := count .wrongParent + count .wrongOrder + count .localeDiverged
        exempt := count .exemptLocaleVariation }
    directIssueCount := issues.length
    suppressedEffectCount := result.suppression.suppressedEffects.length
    unresolvedRegionCount := result.alignment.val.unresolvedRegionIds.length }

/-! ## The service -/

def operationsById (result : ReconciliationResult) : Dict String StructuralOperation :=
  Dict.ofPairs (result.operations.operations.map fun op => (op.val.operationId, op))

def validate [PyRuntime] (result : ReconciliationResult) (sourceTree localeTree : CanonicalTree) (locale : String)
    (authoritativeSide : AuthoritativeSide) (policy : Option LocaleVariationPolicy) : LocalizationValidationResult :=
  let issues := interpret result sourceTree localeTree locale policy
  let recommendations := recommend issues authoritativeSide (operationsById result)
  let issues := issues.map (attach (attachments recommendations))
  { contractVersion := "localization-result-v1"
    jobId := result.jobId
    locale := locale
    authoritativeSide := authoritativeSide
    reconciliation := result
    issues := issues
    recommendations := recommendations
    summary := summarize issues result }

end Reconciliation.Localization
