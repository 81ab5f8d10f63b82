/-
  Reconciliation.Reports.Limits — how far the configured limits are kept.

  The bounds on nodes and depth are checked before a run, and a valid command beyond them is
  refused. The bound on candidates is configured and never checked: the limits are honoured
  exactly when every bound that is exceeded is exceeded by a valid command, and one on nodes
  or depth with it (`limits_honoured_iff`). Two topics with their counterparts under a bound
  of one candidate break it (`oneCandidate_dishonoured`).
-/
import Reconciliation.Matching.Guarantees
import Reconciliation.Reports.Failures
import Reconciliation.Reports.Occurrences

namespace Reconciliation.Reports

open Reconciliation.Base Reconciliation.Base.Outcome Reconciliation.Contracts Reconciliation.Evidence
  Reconciliation.Matching Reconciliation.Engine Reconciliation.Metrics Reconciliation.Validation Reconciliation.Builders

/-! ## Bounds -/

section Bounds
variable (command : ReconcileTreesCommand)

/-- The two trees together have more nodes than allowed. -/
def TooManyNodes : Prop := ∃ limit ∈ command.executionContext.resourceLimits.maxNodeCount,
  limit < command.sourceTree.nodes.size + command.targetTree.nodes.size

/-- A tree is deeper than allowed. -/
def TooDeep : Prop := ∃ limit ∈ command.executionContext.resourceLimits.maxTreeDepth,
  Deeper command.sourceTree limit ∨ Deeper command.targetTree limit

/-- More than so many pairs satisfy `R`. -/
def MoreThan (limit : Nat) (R : NodeRef → NodeRef → Prop) : Prop :=
  ∃ pairs : List (NodeRef × NodeRef), pairs.Nodup ∧ (∀ e ∈ pairs, R e.1 e.2) ∧ limit < pairs.length

/-- The evidence of the two trees proposes more pairs than allowed. -/
def TooManyCandidates [PyRuntime] : Prop := ∃ limit ∈ command.executionContext.resourceLimits.maxCandidates,
  ∃ evidence, extract (normalizedSource command) (normalizedTarget command) = .ok evidence ∧
    MoreThan limit (Proposed evidence command.matchingProfile)

end Bounds

/-- A result within every bound. -/
structure WithinLimits (command : ReconcileTreesCommand) (result : ReconciliationResult) : Prop where
  nodes : ¬ TooManyNodes command
  depth : ¬ TooDeep command
  candidates : ∀ limit ∈ command.executionContext.resourceLimits.maxCandidates,
    result.matchGraph.candidates.length ≤ limit

/-- The run raises the error on limits, or returns an incomplete result when asked to. -/
def Refused [PyRuntime] (command : ReconcileTreesCommand) : Prop :=
  (∃ message cid context, reconcile command = .error (.documented (.resourceLimitExceeded message cid context))) ∨
    (command.executionContext.incompleteOnLimit = true ∧
      ∃ result, reconcile command = .ok result ∧ result.complete = false)

/-- Complete results are within the limits, and what exceeds one is refused. -/
structure LimitsHonoured [PyRuntime] (command : ReconcileTreesCommand) : Prop where
  complete : ∀ result, Completes command result → WithinLimits command result
  refused : TooManyNodes command ∨ TooDeep command ∨ TooManyCandidates command → Refused command

section Runs
variable [PyRuntime] {command : ReconcileTreesCommand} {evidence : EvidenceIndex} {result : ReconciliationResult}

omit [PyRuntime] in
/-- Once the command is valid, the checks before a run pass exactly within the first two bounds. -/
theorem within_iff (hv : validate command = .ok ()) : checkPreLimits command.sourceTree command.targetTree
    command.executionContext.resourceLimits command.executionContext.correlationId = .ok () ↔
      ¬ TooManyNodes command ∧ ¬ TooDeep command := by
  obtain ⟨hs, ht, -⟩ := validate_ok_iff.mp hv
  rw [checkPreLimits_ok (rooted_of_validateTree hs) (rooted_of_validateTree ht)]
  simp only [TooManyNodes, TooDeep, not_exists, not_and, not_or]

/-- The graph of a run has as many candidates as there are proposed pairs. -/
theorem candidates_iff (he : extract (normalizedSource command) (normalizedTarget command) = .ok evidence)
    (hs : Stages command evidence result) {limit : Nat} :
    MoreThan limit (Proposed evidence command.matchingProfile) ↔ limit < result.matchGraph.candidates.length := by
  have hmem : ∀ e : NodeRef × NodeRef, e ∈ result.matchGraph.candidates.map endpoints ↔
      Proposed evidence command.matchingProfile e.1 e.2 := fun e => proposed_iff he hs.matched
  have hnodup := endpoints_nodup hs.matched
  constructor
  · intro h
    obtain ⟨pairs, hpairs, hproposed, hlt⟩ := h
    have hle : pairs.length ≤ (result.matchGraph.candidates.map endpoints).length :=
      (hpairs.subperm fun e he => (hmem e).mpr (hproposed e he)).length_le
    rw [List.length_map] at hle
    omega
  · intro hlt
    exact ⟨_, hnodup, fun e he => (hmem e).mp he, by rwa [List.length_map]⟩

theorem tooManyCandidates_iff (hs : Stages command evidence result) : TooManyCandidates command ↔
    ∃ limit ∈ command.executionContext.resourceLimits.maxCandidates,
      limit < result.matchGraph.candidates.length := by
  constructor
  · intro h
    obtain ⟨limit, hlimit, evidence', he, hmore⟩ := h
    obtain rfl := Except.ok.inj (he.symm.trans hs.extracted)
    exact ⟨limit, hlimit, (candidates_iff he hs).mp hmore⟩
  · intro h
    obtain ⟨limit, hlimit, hlt⟩ := h
    exact ⟨limit, hlimit, evidence, hs.extracted, (candidates_iff hs.extracted hs).mpr hlt⟩

omit [PyRuntime] in
/-- Validation fails with an error of its own. -/
theorem validate_not_limit {message : Message} {cid : Option String} {context : List (String × Nat)} :
    validate command ≠ .error (.documented (.resourceLimitExceeded message cid context)) := by
  have htree : ∀ tree, validateTree tree command.executionContext.correlationId ≠
      .error (.documented (.resourceLimitExceeded message cid context)) := by
    intro tree h
    obtain ⟨vs, hvs⟩ := validateTreeResult_ok tree
    unfold validateTree at h
    rw [hvs] at h
    cases vs with
    | nil => cases h
    | cons v vs => cases h
  intro h
  unfold validate at h
  rcases bind_error.mp h with h | ⟨-, -, h⟩
  · exact htree _ h
  · rcases bind_error.mp h with h | ⟨-, -, h⟩
    · exact htree _ h
    · unfold raiseIfInvalid at h
      split at h
      · cases h
      · cases h

/-- Only a valid command beyond the first two bounds is refused. -/
theorem refused_iff : Refused command ↔
    validate command = .ok () ∧ (TooManyNodes command ∨ TooDeep command) := by
  constructor
  · intro h
    rcases validate_outcome command with hv | ⟨e, hv⟩
    · refine ⟨hv, ?_⟩
      by_contra hno
      have hl := (within_iff hv).mpr (not_or.mp hno)
      obtain ⟨hs, ht, hp⟩ := validate_ok_iff.mp hv
      have hadmitted : Admitted command := ⟨hs, ht, hp, hl⟩
      rcases h with ⟨message, cid, context, hrun⟩ | ⟨-, result, hrun, hincomplete⟩
      · rw [reconcile_admitted hadmitted] at hrun
        exact internal_runStages hadmitted _ hrun trivial
      · rw [reconcile_admitted hadmitted] at hrun
        exact absurd (runStages_complete hrun) (by simp [hincomplete])
    · have hfail : reconcile command = .error (.documented e) := by
        unfold reconcile
        rw [hv]
        rfl
      rcases h with ⟨message, cid, context, hrun⟩ | ⟨-, result, hrun, -⟩
      · obtain rfl := PyError.documented.inj (Except.error.inj (hfail.symm.trans hrun))
        exact absurd hv validate_not_limit
      · cases hfail.symm.trans hrun
  · intro h
    obtain ⟨hv, hover⟩ := h
    obtain ⟨message, context, hrun⟩ := limit_outcome hv fun hl => not_or.mpr ((within_iff hv).mp hl) hover
    by_cases hi : command.executionContext.incompleteOnLimit = true
    · rw [if_pos hi] at hrun
      exact Or.inr ⟨hi, _, hrun, rfl⟩
    · rw [if_neg hi] at hrun
      exact Or.inl ⟨_, _, _, hrun⟩

/-- The limits are honoured exactly when whatever exceeds one is a valid command with too many nodes
    or too much depth. -/
theorem limits_honoured_iff (command : ReconcileTreesCommand) : LimitsHonoured command ↔
    (TooManyNodes command ∨ TooDeep command ∨ TooManyCandidates command →
      validate command = .ok () ∧ (TooManyNodes command ∨ TooDeep command)) := by
  constructor
  · intro h hover
    exact refused_iff.mp (h.refused hover)
  · intro hcond
    refine ⟨fun result hc => ?_, fun hover => refused_iff.mpr (hcond hover)⟩
    obtain ⟨h, evidence, hs⟩ := hc.exists_stages
    have hv := validate_ok_iff.mpr ⟨h.source_valid, h.target_valid, h.profiles_valid⟩
    obtain ⟨hnodes, hdepth⟩ := (within_iff hv).mp h.within_limits
    refine ⟨hnodes, hdepth, fun limit hlimit => ?_⟩
    by_contra hlt
    have hover := (tooManyCandidates_iff hs).mpr ⟨limit, hlimit, not_le.mp hlt⟩
    exact not_or.mpr ⟨hnodes, hdepth⟩ (hcond (Or.inr (Or.inr hover))).2

end Runs

/-- A map with two topics against itself, at most one candidate allowed. -/
def oneCandidate : ReconcileTreesCommand :=
  { defaultCommand
      (buildTree "map" [⟨"map", "map", none, [], []⟩, ⟨"intro", "topic", some "map", [("id", .str "i")], []⟩,
        ⟨"usage", "topic", some "map", [("id", .str "u")], []⟩])
      (buildTree "map" [⟨"map", "map", none, [], []⟩, ⟨"intro", "topic", some "map", [("id", .str "i")], []⟩,
        ⟨"usage", "topic", some "map", [("id", .str "u")], []⟩]) with
    executionContext := { defaultExecutionContext with
      resourceLimits := { unlimited with maxCandidates := some 1, maxCandidates_pos := by simp } } }

/-- The run completes with more candidates than allowed. -/
theorem oneCandidate_dishonoured : ¬ @LimitsHonoured asciiRuntime oneCandidate := by
  intro h
  have hrun : Outcome.Returns (@reconcile asciiRuntime oneCandidate) fun result =>
      result.complete = true ∧ ¬ result.matchGraph.candidates.length ≤ 1 := by
    decide +kernel
  obtain ⟨result, hrun, hcomplete, hmany⟩ := hrun
  exact hmany ((@LimitsHonoured.complete asciiRuntime _ h result ⟨hrun, hcomplete⟩).candidates 1 rfl)

end Reconciliation.Reports
