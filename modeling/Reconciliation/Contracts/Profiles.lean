/-
  Reconciliation.Contracts.Profiles — the profiles and the execution context that
  configure a run, each with the invariants its model checks.

  Weights and thresholds are exact rationals. A frozen set is a list read by membership.
  Fields no stage reads (identifiers, tie-break keys, anchor partitioning, attribute
  order, per-operation thresholds, the duration limit) are left out.
-/
import Reconciliation.Contracts.Tree

namespace Reconciliation.Contracts

open Reconciliation.Base

/-! ## Enumerations -/

inductive EvidenceType where
  | persistentId
  | semanticSignature
  | normalizedLabel
  | nodeType
  | childSignature
  | ancestorContext
  | weightedSimilarity
  deriving DecidableEq

def EvidenceType.value : EvidenceType → String
  | persistentId => "PERSISTENT_ID"
  | semanticSignature => "SEMANTIC_SIGNATURE"
  | normalizedLabel => "NORMALIZED_LABEL"
  | nodeType => "NODE_TYPE"
  | childSignature => "CHILD_SIGNATURE"
  | ancestorContext => "ANCESTOR_CONTEXT"
  | weightedSimilarity => "WEIGHTED_SIMILARITY"

inductive OperationType where
  | match_
  | insert
  | delete
  | update
  | move
  | reorder
  | wrap
  | unwrap
  | split
  | merge
  deriving DecidableEq

def OperationType.value : OperationType → String
  | match_ => "MATCH"
  | insert => "INSERT"
  | delete => "DELETE"
  | update => "UPDATE"
  | move => "MOVE"
  | reorder => "REORDER"
  | wrap => "WRAP"
  | unwrap => "UNWRAP"
  | split => "SPLIT"
  | merge => "MERGE"

def initialOperations : List OperationType := [.match_, .insert, .delete, .update, .move, .reorder]

def extendedOperations : List OperationType := [.wrap, .unwrap, .split, .merge]

inductive OrderSemantics where
  | ordered
  | unordered
  deriving DecidableEq

inductive AlignmentStrategy where
  | lcs
  | weightedDp
  deriving DecidableEq

def AlignmentStrategy.value : AlignmentStrategy → String
  | lcs => "LCS"
  | weightedDp => "WEIGHTED_DP"

inductive UnresolvedPresencePolicy where
  | suppressAmbiguousNodes
  | suppressUnresolvedRegions
  | emitAll
  deriving DecidableEq

/-! ## Profiles -/

structure NormalizationProfile where
  version : String
  collapseWhitespace : Bool
  nonsemanticMetadataKeys : List String
  preservePropertyKeys : List String
  version_ne : version ≠ ""
  no_conflict : ∀ k ∈ nonsemanticMetadataKeys, k ∉ preservePropertyKeys

structure CalibrationInfo where
  calibrated : Bool
  model : Option String
  model_required : calibrated = true → model ≠ none ∧ model ≠ some ""

theorem no_model_required : false = true → (none : Option String) ≠ none ∧ (none : Option String) ≠ some "" := by simp

structure FeatureWeight where
  feature : EvidenceType
  weight : ℚ
  weight_nonneg : 0 ≤ weight

structure MatchingProfile where
  version : String
  evidencePriority : List EvidenceType
  featureWeights : List FeatureWeight
  authoritativeIdFeatures : List EvidenceType
  hardConstraintNodeType : Bool
  matchThreshold : ℚ
  probableThreshold : ℚ
  ambiguityMargin : ℚ
  disableSimilarityForTranslatable : Bool
  calibration : CalibrationInfo
  version_ne : version ≠ ""
  matchThreshold_range : 0 ≤ matchThreshold ∧ matchThreshold ≤ 1
  probableThreshold_range : 0 ≤ probableThreshold ∧ probableThreshold ≤ 1
  ambiguityMargin_range : 0 ≤ ambiguityMargin ∧ ambiguityMargin ≤ 1
  priority_ne : evidencePriority ≠ []
  priority_nodup : evidencePriority.Nodup
  probable_le_match : probableThreshold ≤ matchThreshold

structure AlignmentProfile where
  version : String
  strategy : AlignmentStrategy
  defaultOrderSemantics : OrderSemantics
  orderSemanticsByType : Dict String OrderSemantics
  version_ne : version ≠ ""

def AlignmentProfile.orderSemanticsFor (profile : AlignmentProfile) (nodeType : String) : OrderSemantics :=
  (profile.orderSemanticsByType.get? nodeType).getD profile.defaultOrderSemantics

structure OperationProfile where
  version : String
  enabledOperations : List OperationType
  moveConfidenceThreshold : ℚ
  unresolvedPresencePolicy : UnresolvedPresencePolicy
  version_ne : version ≠ ""
  moveConfidenceThreshold_range : 0 ≤ moveConfidenceThreshold ∧ moveConfidenceThreshold ≤ 1
  no_extended : ∀ op ∈ enabledOperations, op ∉ extendedOperations

structure SuppressionRule where
  ruleId : String
  rootOperation : OperationType
  effectCategory : String
  threshold : ℚ
  ruleId_ne : ruleId ≠ ""
  effectCategory_ne : effectCategory ≠ ""
  threshold_range : 0 ≤ threshold ∧ threshold ≤ 1

structure SuppressionProfile where
  version : String
  rules : List SuppressionRule
  independentDefectCheck : Bool
  version_ne : version ≠ ""
  ruleIds_nodup : (rules.map SuppressionRule.ruleId).Nodup

def SuppressionProfile.rulesFor (profile : SuppressionProfile) (operation : OperationType) : List SuppressionRule :=
  profile.rules.filter fun rule => rule.rootOperation = operation

/-! ## Commands -/

structure ResourceLimits where
  maxNodeCount : Option Nat
  maxTreeDepth : Option Nat
  maxCandidates : Option Nat
  maxNodeCount_pos : ∀ n ∈ maxNodeCount, 1 ≤ n
  maxTreeDepth_pos : ∀ n ∈ maxTreeDepth, 1 ≤ n
  maxCandidates_pos : ∀ n ∈ maxCandidates, 1 ≤ n

theorem no_limit_pos : ∀ n ∈ (none : Option Nat), 1 ≤ n := by simp

structure ExecutionContext where
  jobId : String
  correlationId : Option String
  resourceLimits : ResourceLimits
  incompleteOnLimit : Bool
  jobId_ne : jobId ≠ ""

structure ReconcileTreesCommand where
  sourceTree : CanonicalTree
  targetTree : CanonicalTree
  normalizationProfile : NormalizationProfile
  matchingProfile : MatchingProfile
  alignmentProfile : AlignmentProfile
  operationProfile : OperationProfile
  suppressionProfile : SuppressionProfile
  executionContext : ExecutionContext

end Reconciliation.Contracts
