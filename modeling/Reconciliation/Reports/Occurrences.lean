/-
  Reconciliation.Reports.Occurrences — which nodes the operations of a complete result
  concern.

  A source node occurs in a match or an update when it is aligned, in a move when it moved,
  in a delete when it is absent, as far as these operations are enabled; and so for target
  nodes and inserts.
-/
import Reconciliation.EngineProofs

namespace Reconciliation.Reports

open Reconciliation.Base Reconciliation.Contracts Reconciliation.Evidence Reconciliation.Matching
  Reconciliation.Classification Reconciliation.Engine

/-! ## Complete results -/

/-- The command returned the result, and it is complete. -/
def Completes [PyRuntime] (command : ReconcileTreesCommand) (result : ReconciliationResult) : Prop :=
  reconcile command = .ok result ∧ result.complete = true

/-- The six initial operations are enabled. -/
def AllEnabled (profile : OperationProfile) : Prop := ∀ type ∈ initialOperations, type ∈ profile.enabledOperations

instance (profile : OperationProfile) : Decidable (AllEnabled profile) := inferInstanceAs (Decidable (∀ _ ∈ _, _))

theorem Completes.exists_stages [PyRuntime] {command : ReconcileTreesCommand} {result : ReconciliationResult}
    (h : Completes command result) : Admitted command ∧ ∃ evidence, Stages command evidence result := by
  obtain ⟨hadmitted, hrun⟩ := complete_iff.mp h
  exact ⟨hadmitted, runStages_stages hrun⟩

/-- A command that returns a complete result is admitted, and has evidence. -/
theorem exists_completes [PyRuntime] {command : ReconcileTreesCommand} {P : ReconciliationResult → Prop}
    (h : Outcome.Returns (reconcile command) fun result => result.complete = true ∧ P result) :
    ∃ result evidence, ∃ _ : Admitted command, Completes command result ∧ P result ∧
      extract (normalizedSource command) (normalizedTarget command) = .ok evidence := by
  obtain ⟨result, hrun, hcomplete, hP⟩ := h
  have hadmitted := (complete_iff.mp ⟨hrun, hcomplete⟩).1
  obtain ⟨evidence, he⟩ := hadmitted.exists_evidence
  exact ⟨result, evidence, hadmitted, ⟨hrun, hcomplete⟩, hP, he⟩

/-! ## Occurrences -/

/-- An operation of one of the types concerns the source node. -/
def SourceIn (result : ReconciliationResult) (types : List OperationType) (s : NodeRef) : Prop :=
  ∃ op ∈ result.operations.operations, op.val.type ∈ types ∧ s ∈ op.val.sourceNodeRefs

/-- An operation of one of the types concerns the target node. -/
def TargetIn (result : ReconciliationResult) (types : List OperationType) (t : NodeRef) : Prop :=
  ∃ op ∈ result.operations.operations, op.val.type ∈ types ∧ t ∈ op.val.targetNodeRefs

instance (result : ReconciliationResult) (types : List OperationType) (s : NodeRef) : Decidable (SourceIn result types s) :=
  inferInstanceAs (Decidable (∃ _ ∈ _, _ ∧ _))

instance (result : ReconciliationResult) (types : List OperationType) (t : NodeRef) : Decidable (TargetIn result types t) :=
  inferInstanceAs (Decidable (∃ _ ∈ _, _ ∧ _))

theorem sourceIn_append {result : ReconciliationResult} {types types' : List OperationType} {s : NodeRef} :
    SourceIn result (types ++ types') s ↔ SourceIn result types s ∨ SourceIn result types' s := by
  simp only [SourceIn, List.mem_append, or_and_right, and_or_left, exists_or]

theorem targetIn_append {result : ReconciliationResult} {types types' : List OperationType} {t : NodeRef} :
    TargetIn result (types ++ types') t ↔ TargetIn result types t ∨ TargetIn result types' t := by
  simp only [TargetIn, List.mem_append, or_and_right, and_or_left, exists_or]

theorem enabled_kept {ctx : ClassificationContext} (h : AllEnabled ctx.profile) (s t : NodeRef) :
    (matchOf ctx s t).type ∈ ctx.profile.enabledOperations := by
  rcases matchOf_kept ctx s t with he | he
  · exact he ▸ h _ (by decide)
  · exact he ▸ h _ (by decide)

section Runs
variable [PyRuntime] {command : ReconcileTreesCommand} {evidence : EvidenceIndex} {result : ReconciliationResult}
  (h : Admitted command) (hs : Stages command evidence result)

include h hs

/-- An operation names a node, on either side, exactly when something reported does. -/
theorem named_iff (refs : StructuralOperationFields → List NodeRef) {types : List OperationType} {ref : NodeRef} :
    (∃ op ∈ result.operations.operations, op.val.type ∈ types ∧ ref ∈ refs op.val) ↔
      ∃ x, (Reported (context command result) command.alignmentProfile (h.comparison evidence)
        (certainty evidence command.matchingProfile) x ∧ x.type ∈ types) ∧ ref ∈ refs x := by
  constructor
  · intro hx
    obtain ⟨op, hop, ht, hin⟩ := hx
    exact ⟨op.val, ⟨(hs.reported h op).mp hop, ht⟩, hin⟩
  · intro hx
    obtain ⟨x, ⟨hx, ht⟩, hin⟩ := hx
    obtain ⟨op, hop, rfl⟩ := hs.exists_op h hx
    exact ⟨op, hop, ht, hin⟩

theorem sourceIn_iff {types : List OperationType} {s : NodeRef} : SourceIn result types s ↔
    ∃ x, (Reported (context command result) command.alignmentProfile (h.comparison evidence)
      (certainty evidence command.matchingProfile) x ∧ x.type ∈ types) ∧ s ∈ x.sourceNodeRefs :=
  named_iff h hs StructuralOperationFields.sourceNodeRefs

theorem targetIn_iff {types : List OperationType} {t : NodeRef} : TargetIn result types t ↔
    ∃ x, (Reported (context command result) command.alignmentProfile (h.comparison evidence)
      (certainty evidence command.matchingProfile) x ∧ x.type ∈ types) ∧ t ∈ x.targetNodeRefs :=
  named_iff h hs StructuralOperationFields.targetNodeRefs

/-! ## Deletes and inserts -/

theorem deleted_iff {s : NodeRef} : SourceIn result [.delete] s ↔
    .delete ∈ command.operationProfile.enabledOperations ∧
      Absent (h.comparison evidence) (certainty evidence command.matchingProfile) command.operationProfile s := by
  rw [sourceIn_iff h hs]
  simp only [reported_deleted_iff]
  constructor
  · intro hx
    obtain ⟨x, ⟨a, u, ha, hu, hen, rfl⟩, hin⟩ := hx
    exact ⟨hen, List.mem_singleton.mp hin ▸ ha⟩
  · intro hx
    obtain ⟨hen, ha⟩ := hx
    classical
    exact ⟨_, ⟨s, decide ((h.comparison evidence).Open s), ha, by simp, hen, rfl⟩, List.mem_singleton.mpr rfl⟩

theorem inserted_iff {t : NodeRef} : TargetIn result [.insert] t ↔
    .insert ∈ command.operationProfile.enabledOperations ∧ Absent (h.comparison evidence).swap
      (fun b a => certainty evidence command.matchingProfile a b) command.operationProfile t := by
  rw [targetIn_iff h hs]
  simp only [reported_inserted_iff]
  constructor
  · intro hx
    obtain ⟨x, ⟨b, u, hb, hu, hen, rfl⟩, hin⟩ := hx
    exact ⟨hen, List.mem_singleton.mp hin ▸ hb⟩
  · intro hx
    obtain ⟨hen, hb⟩ := hx
    classical
    exact ⟨_, ⟨t, decide ((h.comparison evidence).swap.Open t), hb, by simp, hen, rfl⟩, List.mem_singleton.mpr rfl⟩

/-! ## Matches, updates and moves -/

variable (hall : AllEnabled command.operationProfile)

include hall

theorem kept_source_iff {s : NodeRef} :
    SourceIn result [.match_, .update] s ↔ ∃ t, (h.comparison evidence).Aligned s t := by
  rw [sourceIn_iff h hs]
  simp only [reported_kept_iff]
  constructor
  · intro hx
    obtain ⟨x, ⟨a, b, ha, -, rfl⟩, hin⟩ := hx
    exact ⟨b, List.mem_singleton.mp hin ▸ ha⟩
  · intro hx
    obtain ⟨t, ha⟩ := hx
    exact ⟨_, ⟨s, t, ha, enabled_kept hall s t, rfl⟩, List.mem_singleton.mpr rfl⟩

theorem kept_target_iff {t : NodeRef} :
    TargetIn result [.match_, .update] t ↔ ∃ s, (h.comparison evidence).Aligned s t := by
  rw [targetIn_iff h hs]
  simp only [reported_kept_iff]
  constructor
  · intro hx
    obtain ⟨x, ⟨a, b, ha, -, rfl⟩, hin⟩ := hx
    exact ⟨a, List.mem_singleton.mp hin ▸ ha⟩
  · intro hx
    obtain ⟨s, ha⟩ := hx
    exact ⟨_, ⟨s, t, ha, enabled_kept hall s t, rfl⟩, List.mem_singleton.mpr rfl⟩

theorem moved_source_iff {s : NodeRef} : SourceIn result [.move] s ↔ ∃ t, Moved (h.comparison evidence)
    (certainty evidence command.matchingProfile) command.operationProfile s t := by
  rw [sourceIn_iff h hs]
  simp only [reported_moved_iff]
  constructor
  · intro hx
    obtain ⟨x, ⟨a, b, hm, -, rfl⟩, hin⟩ := hx
    exact ⟨b, List.mem_singleton.mp hin ▸ hm⟩
  · intro hx
    obtain ⟨t, hm⟩ := hx
    exact ⟨_, ⟨s, t, hm, hall _ (by decide), rfl⟩, List.mem_singleton.mpr rfl⟩

theorem moved_target_iff {t : NodeRef} : TargetIn result [.move] t ↔ ∃ s, Moved (h.comparison evidence)
    (certainty evidence command.matchingProfile) command.operationProfile s t := by
  rw [targetIn_iff h hs]
  simp only [reported_moved_iff]
  constructor
  · intro hx
    obtain ⟨x, ⟨a, b, hm, -, rfl⟩, hin⟩ := hx
    exact ⟨a, List.mem_singleton.mp hin ▸ hm⟩
  · intro hx
    obtain ⟨s, hm⟩ := hx
    exact ⟨_, ⟨s, t, hm, hall _ (by decide), rfl⟩, List.mem_singleton.mpr rfl⟩

end Runs

end Reconciliation.Reports
