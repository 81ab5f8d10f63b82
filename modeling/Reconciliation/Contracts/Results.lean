/-
  Reconciliation.Contracts.Results — structural operations, the causal graph, suppressed
  effects, and the result of a run.

  Stage durations are left out of the metrics. The causal graph's validator is the
  depth-first search of the source, with a round bound no link set reaches.
-/
import Reconciliation.Contracts.Alignment

namespace Reconciliation.Contracts

open Reconciliation.Base

/-! ## Structural operations -/

structure StructuralOperationFields where
  operationId : String
  type : OperationType
  sourceNodeRefs : List NodeRef
  targetNodeRefs : List NodeRef
  fromParentRef : Option NodeRef
  toParentRef : Option NodeRef
  confidence : Confidence
  matchIds : List String
  evidenceCodes : List String
  preconditions : List String
  deriving DecidableEq

/-- A reorder names two siblings, a move changes the parent, and a move, a match or an update
    names its correspondence. -/
def StructuralOperationFields.check (op : StructuralOperationFields) : Except PyError Unit :=
  if op.operationId = "" then .error (emptyString "StructuralOperation" "operation_id")
  else if op.type = .reorder ∧ op.sourceNodeRefs.length < 2 then
    .error (.validationError "StructuralOperation"
      [.text "REORDER must reference at least two matched siblings (REQ-262)"])
  else if op.type = .move ∧ op.fromParentRef = op.toParentRef then
    .error (.validationError "StructuralOperation" [.text "MOVE must identify a changed parent or region (REQ-263)"])
  else if op.type = .move ∧ op.matchIds = [] then
    .error (.validationError "StructuralOperation"
      [.text "MOVE must reference supporting correspondence (REQ-259, REQ-066)"])
  else if (op.type = .match_ ∨ op.type = .update) ∧ op.matchIds = [] then
    .error (.validationError "StructuralOperation"
      [.text (op.type.value ++ " must reference supporting correspondence (REQ-259)")])
  else .ok ()

abbrev StructuralOperation := Checked StructuralOperationFields.check

theorem StructuralOperation.check_ok {op : StructuralOperationFields} :
    op.check = .ok () ↔ op.operationId ≠ "" ∧ (op.type = .reorder → 2 ≤ op.sourceNodeRefs.length) ∧
      (op.type = .move → op.fromParentRef ≠ op.toParentRef ∧ op.matchIds ≠ []) ∧
      (op.type = .match_ ∨ op.type = .update → op.matchIds ≠ []) := by
  unfold StructuralOperationFields.check
  split
  · simp_all
  split
  · rename_i h
    simp [h.1, not_le.mpr h.2]
  split
  · simp_all
  split
  · simp_all
  split
  · simp_all
  · rename_i h1 h2 h3 h4 h5
    simp only [not_and, not_lt] at h2 h3 h4 h5
    simp only [true_iff]
    exact ⟨h1, h2, fun hm => ⟨h3 hm, h4 hm⟩, h5⟩

structure StructuralOperationSet where
  operations : List StructuralOperation
  deriving DecidableEq

/-! ## The causal graph -/

structure CausalLinkFields where
  rootOperationId : String
  derivedOperationId : String
  rationale : Option String
  deriving DecidableEq

def CausalLinkFields.check (l : CausalLinkFields) : Except PyError Unit :=
  if l.rootOperationId = "" then .error (emptyString "CausalLink" "root_operation_id")
  else if l.derivedOperationId = "" then .error (emptyString "CausalLink" "derived_operation_id")
  else if l.rootOperationId = l.derivedOperationId then
    .error (.validationError "CausalLink" [.text "an operation cannot be its own causal root"])
  else .ok ()

abbrev CausalLink := Checked CausalLinkFields.check

structure CandidateExplanation where
  explanationId : String
  rootOperationIds : List String
  links : List CausalLink
  objectiveScore : ℚ
  confidence : Confidence
  explanationId_ne : explanationId ≠ ""

instance : DecidableEq CandidateExplanation := fun a b =>
  decidable_of_iff (a.explanationId = b.explanationId ∧ a.rootOperationIds = b.rootOperationIds ∧ a.links = b.links ∧
      a.objectiveScore = b.objectiveScore ∧ a.confidence = b.confidence) <| by
    cases a
    cases b
    simp

/-- The two sets of the cycle search. -/
structure CycleSearch where
  visiting : List String
  visited : List String

/-- The loop over the successors of a node; `true` is a cycle. -/
def searchAll (hasCycle : String → CycleSearch → Except PyError (Bool × CycleSearch)) :
    List String → CycleSearch → Except PyError (Bool × CycleSearch)
  | [], search => .ok (false, search)
  | next :: rest, search =>
    if next ∈ search.visiting then .ok (true, search)
    else if next ∈ search.visited then searchAll hasCycle rest search
    else do
      let (found, search) ← hasCycle next search
      if found then .ok (true, search) else searchAll hasCycle rest search

def hasCycle (adjacency : Dict String (List String)) :
    Nat → String → CycleSearch → Except PyError (Bool × CycleSearch)
  | 0, _, _ => .error .diverged
  | fuel + 1, node, search => do
    let search := { search with visiting := node :: search.visiting }
    let (found, search) ← searchAll (hasCycle adjacency fuel) ((adjacency.get? node).getD []) search
    if found then .ok (true, search)
    else .ok (false, ⟨search.visiting.filter (· ≠ node), node :: search.visited⟩)

/-- The outer loop over the nodes that have successors. -/
def acyclicFrom (adjacency : Dict String (List String)) (fuel : Nat) :
    List String → CycleSearch → Except PyError Unit
  | [], _ => .ok ()
  | start :: rest, search =>
    if start ∈ search.visited then acyclicFrom adjacency fuel rest search
    else do
      let (found, search) ← hasCycle adjacency fuel start search
      if found then
        .error (.validationError "CausalOperationGraph" [.text "causal operation graph contains an invalid cycle"])
      else acyclicFrom adjacency fuel rest search

structure CausalOperationGraphFields where
  selected : CandidateExplanation
  alternatives : List CandidateExplanation
  deriving DecidableEq

def CausalOperationGraphFields.check (g : CausalOperationGraphFields) : Except PyError Unit :=
  let adjacency := Dict.group (g.selected.links.map fun l => (l.val.rootOperationId, l.val.derivedOperationId))
  acyclicFrom adjacency (2 * g.selected.links.length + 1) adjacency.keys ⟨[], []⟩

abbrev CausalOperationGraph := Checked CausalOperationGraphFields.check

/-! ## Suppressed effects -/

inductive IndependentDefectCheck where
  | passed
  | defectRetained
  | notApplicable
  deriving DecidableEq

def IndependentDefectCheck.value : IndependentDefectCheck → String
  | passed => "PASSED"
  | defectRetained => "DEFECT_RETAINED"
  | notApplicable => "NOT_APPLICABLE"

structure SuppressedEffectFields where
  effectId : String
  rootOperationId : String
  suppressionRuleId : String
  category : String
  affectedNodeRefs : List NodeRef
  confidence : Confidence
  independentDefectCheck : IndependentDefectCheck
  originalSeverity : Option String := none
  deriving DecidableEq

/-- The four texts are not empty, and no defect is retained. -/
def SuppressedEffectFields.check (e : SuppressedEffectFields) : Except PyError Unit :=
  if e.effectId = "" then .error (emptyString "SuppressedEffect" "effect_id")
  else if e.rootOperationId = "" then .error (emptyString "SuppressedEffect" "root_operation_id")
  else if e.suppressionRuleId = "" then .error (emptyString "SuppressedEffect" "suppression_rule_id")
  else if e.category = "" then .error (emptyString "SuppressedEffect" "category")
  else if e.independentDefectCheck = .defectRetained then
    .error (.validationError "SuppressedEffect"
      [.text "a suppressed effect cannot carry a retained independent defect (REQ-084)"])
  else .ok ()

abbrev SuppressedEffect := Checked SuppressedEffectFields.check

theorem SuppressedEffect.check_ok {e : SuppressedEffectFields} :
    e.check = .ok () ↔ e.effectId ≠ "" ∧ e.rootOperationId ≠ "" ∧ e.suppressionRuleId ≠ "" ∧ e.category ≠ "" ∧
      e.independentDefectCheck ≠ .defectRetained := by
  unfold SuppressedEffectFields.check
  split_ifs <;> simp_all

structure SuppressionResult where
  suppressedEffects : List SuppressedEffect
  retainedDefectNodeRefs : List NodeRef
  deriving DecidableEq

/-! ## Metrics and diagnostics -/

inductive Severity where
  | info
  | warning
  | error
  deriving DecidableEq

def Severity.value : Severity → String
  | info => "INFO"
  | warning => "WARNING"
  | error => "ERROR"

inductive PipelineStage where
  | normalization
  | evidence
  | matching
  | alignment
  | classification
  | rootCause
  | suppression
  deriving DecidableEq

structure StageMetric where
  stage : PipelineStage
  candidateCount : Nat
  resultCount : Nat
  deriving DecidableEq

structure ReconciliationMetrics where
  sourceNodeCount : Nat
  targetNodeCount : Nat
  stageMetrics : List StageMetric
  deriving DecidableEq

inductive MetadataValue where
  | str (s : String)
  | int (n : Nat)
  deriving DecidableEq

structure EngineDiagnostic where
  code : String
  severity : Severity
  stage : PipelineStage
  message : Message
  metadata : List (String × MetadataValue)
  code_ne : code ≠ ""

instance : DecidableEq EngineDiagnostic := fun a b =>
  decidable_of_iff (a.code = b.code ∧ a.severity = b.severity ∧ a.stage = b.stage ∧ a.message = b.message ∧
      a.metadata = b.metadata) <| by
    cases a
    cases b
    simp

/-! ## Results -/

structure ProfileVersions where
  engineVersion : String
  coreContractVersion : String
  normalizationProfileVersion : String
  matchingProfileVersion : String
  alignmentProfileVersion : String
  operationProfileVersion : String
  suppressionProfileVersion : String
  deriving DecidableEq

structure ReconciliationResult where
  contractVersion : String
  jobId : String
  complete : Bool
  matchGraph : MatchGraph
  alignment : AlignmentResult
  operations : StructuralOperationSet
  causality : CausalOperationGraph
  suppression : SuppressionResult
  diagnostics : List EngineDiagnostic
  metrics : ReconciliationMetrics
  profileVersions : ProfileVersions
  deriving DecidableEq

end Reconciliation.Contracts
