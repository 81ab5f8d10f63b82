/-
  Reconciliation.Causality — the explanation of the operations: every operation but a match
  is a root, scored by what it costs and how confident it is.

  The initial release links nothing, so the graph always passes its acyclicity check
  (`analyze_total`).
-/
import Reconciliation.Matching.Scorer
import Reconciliation.Contracts.Results

namespace Reconciliation.Causality

open Reconciliation.Base Reconciliation.Contracts Reconciliation.Matching

/-! ## The objective -/

def operationCost : OperationType → ℚ
  | .match_ => 0
  | .update => 1
  | .insert => 1
  | .delete => 1
  | .move => 3 / 2
  | .reorder => 6 / 5
  | _ => 1

/-- Confidence gained less the cost of the edits. -/
def objectiveScore (operations : List StructuralOperation) : ℚ :=
  let plausibility := (operations.map fun op => op.val.confidence.value).sum
  let cost := (operations.map fun op => operationCost op.val.type).sum
  round6 (plausibility - cost)

/-! ## Analysis -/

/-- The mean confidence of the changes, 1 when there are none. -/
def confidenceValue (changed : List StructuralOperation) : ℚ :=
  if changed = [] then 1 else (changed.map fun op => op.val.confidence.value).sum / changed.length

theorem confidence_sum_range (changed : List StructuralOperation) :
    0 ≤ (changed.map fun op => op.val.confidence.value).sum ∧
      (changed.map fun op => op.val.confidence.value).sum ≤ changed.length := by
  induction changed with
  | nil => simp
  | cons op rest ih =>
    have hop := op.val.confidence.range
    simp only [List.map_cons, List.sum_cons, List.length_cons]
    push_cast
    constructor
    · linarith [ih.1, hop.1]
    · linarith [ih.2, hop.2]

theorem confidenceValue_range (changed : List StructuralOperation) :
    0 ≤ confidenceValue changed ∧ confidenceValue changed ≤ 1 := by
  unfold confidenceValue
  split
  · norm_num
  · rename_i hne
    obtain ⟨hlow, hhigh⟩ := confidence_sum_range changed
    have hpos : (0 : ℚ) < changed.length := by exact_mod_cast List.length_pos_of_ne_nil hne
    exact ⟨div_nonneg hlow hpos.le, (div_le_one hpos).mpr hhigh⟩

/-- The explanation the analyzer gives, under an id. -/
def explanation (explanationId : String) (hne : explanationId ≠ "") (operations : List StructuralOperation) :
    CandidateExplanation :=
  let changed := operations.filter fun op => op.val.type ≠ .match_
  { explanationId
    rootOperationIds := changed.map fun op => op.val.operationId
    links := []
    objectiveScore := objectiveScore operations
    confidence := ⟨round6 (confidenceValue changed), false, none, round6_range (confidenceValue_range changed)⟩
    explanationId_ne := hne }

/-- An ambiguous match graph keeps a second explanation. -/
def analyze (operations : StructuralOperationSet) (graph : MatchGraph) : Except PyError CausalOperationGraph :=
  Checked.build CausalOperationGraphFields.check
    { selected := explanation "explanation-primary" (by decide) operations.operations
      alternatives :=
        if graph.ambiguous = [] then []
        else [explanation "explanation-ambiguous-alternative" (by decide) operations.operations] }

theorem analyze_total (operations : StructuralOperationSet) (graph : MatchGraph) :
    ∃ causality, analyze operations graph = .ok causality := Checked.build_total rfl

end Reconciliation.Causality
