/-
  Reconciliation.Builders — trees, evidence and profiles written down.

  A tree is drafted as the list of its nodes, the root first; the children of a node are the
  later drafts that name it as their parent. The profiles are the default ones of the test
  builders.
-/
import Reconciliation.Evidence.Extractor

namespace Reconciliation.Builders

open Reconciliation.Base Reconciliation.Contracts Reconciliation.Evidence

/-- The interpreter, as far as inputs without floats and without characters above ASCII show it. -/
@[reducible] def asciiRuntime : PyRuntime := ⟨fun _ => false, fun _ => "0.0"⟩

/-! ## Trees -/

/-- What a builder is told about a node. -/
structure Draft where
  nodeRef : NodeRef
  nodeType : String
  parentRef : Option NodeRef
  identity : List (String × CanonicalValue)
  content : List (String × CanonicalValue)

/-- The drafts make a tree whose nodes pass their own checks. -/
def Drafted (root : NodeRef) (drafts : List Draft) : Prop :=
  (drafts.map Draft.nodeRef).Nodup ∧ (∃ d ∈ drafts, d.nodeRef = root ∧ d.parentRef = none) ∧
    ∀ d ∈ drafts, d.nodeRef ≠ "" ∧ d.nodeType ≠ "" ∧ d.parentRef ≠ some d.nodeRef ∧
      (d.identity.map Prod.fst).Nodup ∧ (d.content.map Prod.fst).Nodup

instance (root : NodeRef) (drafts : List Draft) : Decidable (Drafted root drafts) :=
  inferInstanceAs (Decidable (_ ∧ _ ∧ _))

def childRefs (drafts : List Draft) (ref : NodeRef) : List NodeRef :=
  (drafts.filter fun d => d.parentRef = some ref).map Draft.nodeRef

def buildNode {root : NodeRef} {drafts : List Draft} (h : Drafted root drafts) (d : Draft) (hd : d ∈ drafts) : CanonicalNode where
  nodeRef := d.nodeRef
  nodeType := d.nodeType
  parentRef := d.parentRef
  childRefs := childRefs drafts d.nodeRef
  identityProperties := ⟨d.identity, (h.2.2 d hd).2.2.2.1⟩
  contentProperties := ⟨d.content, (h.2.2 d hd).2.2.2.2⟩
  structuralProperties := Dict.empty
  extensionProperties := Dict.empty
  nodeRef_ne := (h.2.2 d hd).1
  nodeType_ne := (h.2.2 d hd).2.1
  childRefs_nodup := h.1.sublist (List.filter_sublist.map _)
  not_own_parent := (h.2.2 d hd).2.2.1
  not_own_child := by
    intro hown
    obtain ⟨c, hc, hcd⟩ := List.mem_map.mp hown
    have hmem := (List.mem_filter.mp hc).1
    have hparent := of_decide_eq_true (List.mem_filter.mp hc).2
    obtain rfl := List.inj_on_of_nodup_map h.1 hmem hd hcd
    exact (h.2.2 c hmem).2.2.1 hparent

def buildTree (root : NodeRef) (drafts : List Draft) (h : Drafted root drafts := by decide +kernel) : CanonicalTree where
  rootNodeRef := root
  nodes := ⟨drafts.pmap (fun d hd => (d.nodeRef, buildNode h d hd)) fun _ hd => hd, by
    rw [List.map_pmap]
    simpa using h.1⟩
  root_present := by
    obtain ⟨d, hd, rfl, hp⟩ := h.2.1
    exact ⟨buildNode h d hd, (Dict.get?_eq_some _).mpr (List.mem_pmap.mpr ⟨d, hd, rfl⟩), hp⟩
  keys_agree := by
    intro e he
    obtain ⟨d, hd, rfl⟩ := List.mem_pmap.mp he
    rfl

/-- A map whose second topic has an arrow in its reference. -/
def arrowMap : CanonicalTree :=
  buildTree "map" [⟨"map", "map", none, [], []⟩, ⟨"a", "topic", some "map", [("id", .str "i")], []⟩,
    ⟨"a->b", "topic", some "map", [("id", .str "j")], []⟩]

/-! ## Evidence -/

def keyedEvidence (nodes : List NodeEvidence) (h : (nodes.map NodeEvidence.nodeRef).Nodup := by decide +kernel) :
    KeyedEvidence :=
  ⟨⟨nodes.map fun e => (e.nodeRef, e), by rw [List.map_map]; exact h⟩, by
    intro e he
    obtain ⟨node, -, rfl⟩ := List.mem_map.mp he
    rfl⟩

/-! ## Profiles -/

theorem v1_ne : "v1" ≠ "" := by decide

theorem weight_one : 0 ≤ (1 : ℚ) := by norm_num

theorem weight_half : 0 ≤ (1 / 2 : ℚ) := by norm_num

theorem weight_three_tenths : 0 ≤ (3 / 10 : ℚ) := by norm_num

theorem threshold_seven_tenths : 0 ≤ (7 / 10 : ℚ) ∧ (7 / 10 : ℚ) ≤ 1 := by norm_num

theorem position_category_ne : "DOWNSTREAM_POSITION_CHANGED" ≠ "" := by decide

theorem path_category_ne : "DESCENDANT_PATH_CHANGED" ≠ "" := by decide

def defaultNormalizationProfile : NormalizationProfile where
  version := "v1"
  collapseWhitespace := true
  nonsemanticMetadataKeys := []
  preservePropertyKeys := []
  version_ne := v1_ne
  no_conflict := by simp

def defaultMatchingProfile : MatchingProfile where
  version := "v1"
  evidencePriority := [.persistentId, .semanticSignature, .normalizedLabel, .weightedSimilarity, .ancestorContext]
  featureWeights := [⟨.persistentId, 1 / 2, weight_half⟩, ⟨.semanticSignature, 2 / 5, by norm_num⟩,
    ⟨.normalizedLabel, 3 / 10, weight_three_tenths⟩, ⟨.weightedSimilarity, 1 / 5, by norm_num⟩]
  authoritativeIdFeatures := [.persistentId]
  hardConstraintNodeType := true
  matchThreshold := 3 / 5
  probableThreshold := 2 / 5
  ambiguityMargin := 1 / 20
  disableSimilarityForTranslatable := true
  calibration := ⟨false, none, no_model_required⟩
  version_ne := v1_ne
  matchThreshold_range := by norm_num
  probableThreshold_range := by norm_num
  ambiguityMargin_range := by norm_num
  priority_ne := by simp
  priority_nodup := by decide
  probable_le_match := by norm_num

def defaultAlignmentProfile : AlignmentProfile where
  version := "v1"
  strategy := .lcs
  defaultOrderSemantics := .ordered
  orderSemanticsByType := Dict.empty
  version_ne := v1_ne

def defaultOperationProfile : OperationProfile where
  version := "v1"
  enabledOperations := initialOperations
  moveConfidenceThreshold := 3 / 4
  unresolvedPresencePolicy := .suppressAmbiguousNodes
  version_ne := v1_ne
  moveConfidenceThreshold_range := by norm_num
  no_extended := by decide

def defaultSuppressionProfile : SuppressionProfile where
  version := "v1"
  rules := [
    ⟨"insert-downstream-position-v1", .insert, "DOWNSTREAM_POSITION_CHANGED", 3 / 5, by decide, position_category_ne, by norm_num⟩,
    ⟨"delete-downstream-position-v1", .delete, "DOWNSTREAM_POSITION_CHANGED", 3 / 5, by decide, position_category_ne, by norm_num⟩,
    ⟨"move-descendant-path-v1", .move, "DESCENDANT_PATH_CHANGED", 7 / 10, by decide, path_category_ne,
      threshold_seven_tenths⟩,
    ⟨"reorder-position-v1", .reorder, "DOWNSTREAM_POSITION_CHANGED", 3 / 5, by decide, position_category_ne, by norm_num⟩]
  independentDefectCheck := true
  version_ne := v1_ne
  ruleIds_nodup := by decide

def unlimited : ResourceLimits := ⟨none, none, none, no_limit_pos, no_limit_pos, no_limit_pos⟩

def defaultExecutionContext : ExecutionContext := ⟨"job-test", none, unlimited, false, by decide⟩

def defaultCommand (source target : CanonicalTree) : ReconcileTreesCommand where
  sourceTree := source
  targetTree := target
  normalizationProfile := defaultNormalizationProfile
  matchingProfile := defaultMatchingProfile
  alignmentProfile := defaultAlignmentProfile
  operationProfile := defaultOperationProfile
  suppressionProfile := defaultSuppressionProfile
  executionContext := defaultExecutionContext

end Reconciliation.Builders
