/-
  Reconciliation.Localization.Contracts — what the application layer says about a source and
  its locale: issues, locale policies, repair recommendations, and the localization result.

  The validators' conditions are fields, so that no issue or recommendation is built against
  them. A policy's id and version and a rule's justification, which nothing reads, are left
  out.
-/
import Reconciliation.Contracts.Results

namespace Reconciliation.Localization

open Reconciliation.Base Reconciliation.Contracts

/-- A confidence as a field of a report: between 0 and 1. -/
abbrev Score := {q : ℚ // 0 ≤ q ∧ q ≤ 1}

/-- The tree that is right where the two differ. -/
inductive AuthoritativeSide where
  | source
  | locale
  deriving DecidableEq

def AuthoritativeSide.value : AuthoritativeSide → String
  | source => "SOURCE"
  | locale => "LOCALE"

/-! ## Issues -/

inductive LocalizationStatus where
  | confirmedMatch
  | probableMatch
  | ambiguousMatch
  | missingInLocale
  | extraInLocale
  | wrongParent
  | wrongOrder
  | moved
  | sourceUpdated
  | localeDiverged
  | identifierConflict
  | exemptLocaleVariation
  deriving DecidableEq

def LocalizationStatus.value : LocalizationStatus → String
  | confirmedMatch => "CONFIRMED_MATCH"
  | probableMatch => "PROBABLE_MATCH"
  | ambiguousMatch => "AMBIGUOUS_MATCH"
  | missingInLocale => "MISSING_IN_LOCALE"
  | extraInLocale => "EXTRA_IN_LOCALE"
  | wrongParent => "WRONG_PARENT"
  | wrongOrder => "WRONG_ORDER"
  | moved => "MOVED"
  | sourceUpdated => "SOURCE_UPDATED"
  | localeDiverged => "LOCALE_DIVERGED"
  | identifierConflict => "IDENTIFIER_CONFLICT"
  | exemptLocaleVariation => "EXEMPT_LOCALE_VARIATION"

/-- Whether a translation is up to date, apart from what it corresponds to. -/
inductive TranslationState where
  | current
  | stale
  | unknown
  deriving DecidableEq

def TranslationState.value : TranslationState → String
  | current => "CURRENT"
  | stale => "STALE"
  | unknown => "UNKNOWN"

inductive RecommendedAction where
  | none
  | review
  | relinkOrMove
  | reorder
  | addOrTranslate
  | reviewOrRemove
  | reviewTranslation
  deriving DecidableEq

def RecommendedAction.value : RecommendedAction → String
  | none => "NONE"
  | review => "REVIEW"
  | relinkOrMove => "RELINK_OR_MOVE"
  | reorder => "REORDER"
  | addOrTranslate => "ADD_OR_TRANSLATE"
  | reviewOrRemove => "REVIEW_OR_REMOVE"
  | reviewTranslation => "REVIEW_TRANSLATION"

structure LocalizationIssue where
  issueId : String
  localizationStatus : LocalizationStatus
  severity : Severity
  sourceNodeRef : Option NodeRef := none
  localeNodeRef : Option NodeRef := none
  sourceNodeId : Option String := none
  localeNodeId : Option String := none
  sourceLabel : Option String := none
  localeLabel : Option String := none
  coreMatchIds : List String := []
  coreOperationIds : List String := []
  matchConfidence : Option Score := none
  operationConfidence : Option Score := none
  repairConfidence : Option Score := none
  translationState : TranslationState := .unknown
  recommendedAction : RecommendedAction := .none
  autoFixEligible : Bool := false
  policyExemption : Option String := none
  recommendationId : Option String := none
  message : Option String := none
  issueId_ne : issueId ≠ ""
  no_auto_fix : autoFixEligible = false := by rfl
  repair_linked : recommendationId = none → repairConfidence = none := by simp
  exemption_named : localizationStatus = .exemptLocaleVariation → policyExemption ≠ none ∧ policyExemption ≠ some "" := by
    simp
  deriving DecidableEq

/-! ## Locale policies -/

structure LocaleVariationRule where
  ruleId : String
  permittedOperation : OperationType
  nodeTypes : List String
  ruleId_ne : ruleId ≠ ""

/-- The rule permits the operation for the node type; no node types mean all. -/
def LocaleVariationRule.appliesTo (rule : LocaleVariationRule) (operation : OperationType) (nodeType : String) : Bool :=
  if operation ≠ rule.permittedOperation then false else decide (rule.nodeTypes = [] ∨ nodeType ∈ rule.nodeTypes)

structure LocaleVariationPolicy where
  locale : String
  confirmedMatchThreshold : ℚ
  rules : List LocaleVariationRule
  locale_ne : locale ≠ ""
  threshold_range : 0 ≤ confirmedMatchThreshold ∧ confirmedMatchThreshold ≤ 1
  ruleIds_nodup : (rules.map LocaleVariationRule.ruleId).Nodup

/-! ## Recommendations -/

inductive RepairOperation where
  | moveNode
  | reorderNodes
  | addNode
  | removeNode
  | reviewTranslation
  deriving DecidableEq

def RepairOperation.value : RepairOperation → String
  | moveNode => "MOVE_NODE"
  | reorderNodes => "REORDER_NODES"
  | addNode => "ADD_NODE"
  | removeNode => "REMOVE_NODE"
  | reviewTranslation => "REVIEW_TRANSLATION"

inductive RepairChange where
  | containment
  | order
  | identity
  | content
  deriving DecidableEq

def RepairChange.value : RepairChange → String
  | containment => "CONTAINMENT"
  | order => "ORDER"
  | identity => "IDENTITY"
  | content => "CONTENT"

structure RepairRecommendation where
  recommendationId : String
  operation : RepairOperation
  authoritativeSide : AuthoritativeSide
  targetSide : AuthoritativeSide
  issueId : String
  sourceOperationIds : List String
  targetNodeRef : Option NodeRef
  destinationParentRef : Option NodeRef
  afterSiblingRef : Option NodeRef
  beforeSiblingRef : Option NodeRef := none
  repairConfidence : Score
  executable : Bool := false
  autoFixEligible : Bool := false
  changes : List RepairChange
  preconditions : List String
  postconditions : List String
  recommendationId_ne : recommendationId ≠ ""
  issueId_ne : issueId ≠ ""
  not_executable : executable = false := by rfl
  no_auto_fix : autoFixEligible = false := by rfl
  preconditions_ne : preconditions ≠ []
  changes_ne : changes ≠ []
  deriving DecidableEq

/-! ## The result -/

structure NodeCounts where
  confirmed : Nat
  probable : Nat
  ambiguous : Nat
  missing : Nat
  extra : Nat
  structurallyDivergent : Nat
  exempt : Nat
  deriving DecidableEq

structure LocalizationSummary where
  statusCounts : Dict String Nat
  operationCounts : Dict String Nat
  actionCounts : Dict String Nat
  nodeCounts : NodeCounts
  directIssueCount : Nat
  suppressedEffectCount : Nat
  unresolvedRegionCount : Nat
  deriving DecidableEq

structure LocalizationValidationResult where
  contractVersion : String
  jobId : String
  locale : String
  authoritativeSide : AuthoritativeSide
  reconciliation : ReconciliationResult
  issues : List LocalizationIssue
  recommendations : List RepairRecommendation
  summary : LocalizationSummary
  deriving DecidableEq

end Reconciliation.Localization
