/-
  Reconciliation.Reports.Failures — which errors a run can end in.

  A run raises documented errors only, exactly when the command is not admitted or its
  stages return: every pair to be asserted has evidence, and the region ids are told apart
  (`documented_iff`). An authoritative id without a weight breaks the first
  (`unweightedIds_undocumented`), an arrow inside the references the second
  (`arrowRefs_undocumented`).
-/
import Reconciliation.Builders
import Reconciliation.EngineProofs

namespace Reconciliation.Reports

open Reconciliation.Base Reconciliation.Base.Outcome Reconciliation.Contracts Reconciliation.Evidence Reconciliation.Alignment
  Reconciliation.Matching Reconciliation.Engine Reconciliation.Builders

/-- An invalid tree, an invalid profile or an exceeded limit. -/
def Documented : PyError → Prop
  | .documented _ => True
  | _ => False

instance : DecidablePred Documented := fun e =>
  match e with
  | .documented _ => isTrue trivial
  | .validationError _ _ => isFalse id
  | .keyError _ => isFalse id
  | .indexError => isFalse id
  | .assertionError => isFalse id
  | .diverged => isFalse id

/-! ## The stages raise no documented error -/

def Internal (e : PyError) : Prop := ¬ Documented e

@[simp] theorem internal_validationError (model : String) (message : Message) :
    Internal (.validationError model message) := id

theorem internal_candidate (c : MatchCandidateFields) : Raises Internal c.check := by
  unfold MatchCandidateFields.check
  split_ifs <;> simp only [raises_error, raises_ok, emptyString, internal_validationError]

theorem internal_oneToOne (sources targets : List NodeRef) (cs : List MatchCandidate) :
    Raises Internal (oneToOne sources targets cs) := by
  induction cs generalizing sources targets with
  | nil => exact raises_ok ()
  | cons c cs ih =>
    unfold oneToOne
    split_ifs
    · exact ih _ _
    · exact raises_error.mpr (internal_validationError _ _)
    · exact raises_error.mpr (internal_validationError _ _)
    · exact ih _ _

theorem internal_lookup (evidence : KeyedEvidence) (ref : NodeRef) : Raises Internal (lookup evidence ref) := by
  unfold lookup
  split
  · exact raises_ok _
  · exact raises_error.mpr id

theorem internal_candidateFor (evidence : EvidenceIndex) (fields : NodeEvidence → NodeEvidence → MatchCandidateFields)
    (e : NodeRef × NodeRef) : Raises Internal (candidateFor evidence fields e) :=
  (internal_lookup _ _).bind fun _ => (internal_lookup _ _).bind fun _ => Checked.raises_build (internal_candidate _)

theorem internal_match (evidence : EvidenceIndex) (profile : MatchingProfile) : Raises Internal (match_ evidence profile) := by
  have hids : Raises Internal (authoritativePhase evidence profile) := by
    unfold authoritativePhase
    split_ifs
    · exact Raises.mapM (fun p => Checked.raises_build (internal_candidate _)) _
    · exact raises_ok []
  have hsimilar : ∀ sources targets, Raises Internal (similarityMatches evidence profile sources targets) :=
    fun sources targets => (Raises.mapM (internal_candidateFor evidence _) _).bind fun _ =>
      (Raises.mapM (internal_candidateFor evidence _) _).bind fun _ => raises_ok _
  exact hids.bind fun _ => (hsimilar _ _).bind fun _ => Checked.raises_build (internal_oneToOne _ _ _)

theorem internal_node (tree : CanonicalTree) (ref : NodeRef) : Raises Internal (tree.node ref) := by
  unfold CanonicalTree.node
  split
  · exact raises_ok _
  · exact raises_error.mpr id

theorem internal_position (p : AlignedPairFields) : Raises Internal p.check := by
  unfold AlignedPairFields.check
  split_ifs <;> simp only [raises_error, raises_ok, internal_validationError]

theorem internal_region (r : AlignedRegionFields) : Raises Internal r.check := by
  unfold AlignedRegionFields.check
  split_ifs <;> simp only [raises_error, raises_ok, emptyString, internal_validationError]

theorem internal_alignment (a : AlignmentResultFields) : Raises Internal a.check := by
  unfold AlignmentResultFields.check
  simp only
  split_ifs <;> simp only [raises_error, raises_ok, internal_validationError]

theorem internal_align (source target : CanonicalTree) (graph : MatchGraph) (profile : AlignmentProfile) :
    Raises Internal (align source target graph profile) := by
  have hparent : ∀ ambS ambT parents, Raises Internal (alignParent source target graph profile ambS ambT parents) :=
    fun ambS ambT parents => (internal_node _ _).bind fun _ => (internal_node _ _).bind fun _ =>
      (Raises.mapM (fun p => Checked.raises_build (internal_position p)) _).bind fun _ =>
        Checked.raises_build (internal_region _)
  exact (Raises.mapM (hparent _ _) _).bind fun _ => Checked.raises_build (internal_alignment _)

/-! ## Documented runs -/

section Runs
variable [PyRuntime] {command : ReconcileTreesCommand}

/-- The stages of an admitted command fail in the matcher or in the aligner only. -/
theorem internal_runStages (h : Admitted command) : Raises Internal (runStages command) := by
  obtain ⟨evidence, he⟩ := h.exists_evidence
  by_cases htotal : Supported evidence command.matchingProfile ∧ DistinctRegionIds (h.comparison evidence)
  · obtain ⟨result, hrun⟩ := (runStages_total_iff h he).mpr htotal
    rw [hrun]
    exact raises_ok result
  · intro e hfail
    unfold runStages at hfail
    rcases bind_error.mp hfail with hfail | ⟨evidence', he', hfail⟩
    · cases (show extract _ _ = .ok evidence from he).symm.trans hfail
    · obtain rfl : evidence = evidence' := Except.ok.inj (he.symm.trans he')
      rcases bind_error.mp hfail with hfail | ⟨graph, hg, hfail⟩
      · exact internal_match _ _ e hfail
      · rcases bind_error.mp hfail with hfail | ⟨alignment, ha, -⟩
        · exact internal_align _ _ _ _ e hfail
        · exact absurd (runStages_conditions h he hg ha) htotal

/-- A run raises documented errors only, exactly when the stages of an admitted command return. -/
theorem documented_iff (command : ReconcileTreesCommand) : Raises Documented (reconcile command) ↔
    ∀ (h : Admitted command) evidence, extract (normalizedSource command) (normalizedTarget command) = .ok evidence →
      Supported evidence command.matchingProfile ∧ DistinctRegionIds (h.comparison evidence) := by
  constructor
  · intro hraises h evidence he
    refine (runStages_total_iff h he).mp ?_
    cases hrun : runStages command with
    | ok result => exact ⟨result, rfl⟩
    | error e => exact absurd (hraises e (reconcile_admitted h ▸ hrun)) (internal_runStages h e hrun)
  · intro hcond
    by_cases h : Admitted command
    · obtain ⟨evidence, he⟩ := h.exists_evidence
      obtain ⟨result, hrun⟩ := (runStages_total_iff h he).mpr (hcond h evidence he)
      rw [reconcile_admitted h, hrun]
      exact raises_ok result
    · rcases not_admitted_outcome h with ⟨e, he⟩ | ⟨diagnostics, hrun⟩
      · rw [he]
        exact raises_error.mpr trivial
      · rw [hrun]
        exact raises_ok _

end Runs

/-- One topic with the same id in both trees; the id is authoritative, but no feature has a weight. -/
def unweightedIds : ReconcileTreesCommand :=
  { defaultCommand
      (buildTree "map" [⟨"map", "map", none, [], []⟩, ⟨"intro", "topic", some "map", [("id", .str "i")], []⟩])
      (buildTree "map" [⟨"map", "map", none, [], []⟩, ⟨"intro", "topic", some "map", [("id", .str "i")], []⟩]) with
    matchingProfile := { defaultMatchingProfile with featureWeights := [] } }

/-- A pair confirmed by its id carries no evidence, and its validator rejects it. -/
theorem unweightedIds_undocumented : ¬ Raises Documented (@reconcile asciiRuntime unweightedIds) := by
  decide +kernel

/-- Two chapters whose references hold arrows, so that their regions get one id. -/
def arrowRefs : ReconcileTreesCommand :=
  defaultCommand arrowMap
    (buildTree "map" [⟨"map", "map", none, [], []⟩, ⟨"b->c", "topic", some "map", [("id", .str "i")], []⟩,
      ⟨"c", "topic", some "map", [("id", .str "j")], []⟩])

theorem arrowRefs_undocumented : ¬ Raises Documented (@reconcile asciiRuntime arrowRefs) := by
  decide +kernel

end Reconciliation.Reports
