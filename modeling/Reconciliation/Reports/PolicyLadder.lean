/-
  Reconciliation.Reports.PolicyLadder — three runs that differ in the presence policy alone.

  The policy is read by the presence classifier only, so the three runs return together, with
  one match graph and one alignment, and report the same matches, updates, moves and
  reorders. Their presence operations form a ladder: withholding regions reports less than
  withholding ambiguous nodes, which reports exactly what emitting everything reports
  without the audit code (`policy_ladder`).
-/
import Reconciliation.Builders
import Reconciliation.Reports.Occurrences

namespace Reconciliation.Reports

open Reconciliation.Base Reconciliation.Contracts Reconciliation.Evidence Reconciliation.Matching
  Reconciliation.Classification Reconciliation.Engine Reconciliation.Builders Reconciliation.Metrics
  Reconciliation.Validation

/-! ## The policy of a profile -/

def profileUnder (policy : UnresolvedPresencePolicy) (profile : OperationProfile) : OperationProfile :=
  { profile with unresolvedPresencePolicy := policy }

def contextUnder (policy : UnresolvedPresencePolicy) (ctx : ClassificationContext) : ClassificationContext :=
  { ctx with profile := profileUnder policy ctx.profile }

def commandUnder (policy : UnresolvedPresencePolicy) (command : ReconcileTreesCommand) : ReconcileTreesCommand :=
  { command with operationProfile := profileUnder policy command.operationProfile }

/-- The audit code of a presence operation that only the policy forced. -/
def forcedCode : String := "UNRESOLVED_CORRESPONDENCE_FORCED_BY_POLICY"

/-! ## What is withheld -/

section Absence
variable {α β : Type} {D : Comparison α β} {certainty : α → β → ℚ} {profile : OperationProfile} {p a : α} {q : β}

theorem withheld_regions : Withheld D (profileUnder .suppressUnresolvedRegions profile) p q a ↔
    D.Unresolved p q ∨ D.Open a := by
  simp [Withheld, RegionWithheld, profileUnder]

theorem withheld_nodes : Withheld D (profileUnder .suppressAmbiguousNodes profile) p q a ↔ D.Open a := by
  simp [Withheld, RegionWithheld, profileUnder]

theorem withheld_all : ¬ Withheld D (profileUnder .emitAll profile) p q a := by
  simp [Withheld, RegionWithheld, profileUnder]

theorem absent_regions (h : Absent D certainty (profileUnder .suppressUnresolvedRegions profile) a) :
    Absent D certainty (profileUnder .suppressAmbiguousNodes profile) a := by
  obtain ⟨p, q, halone, hw, hmoved⟩ := h
  exact ⟨p, q, halone, fun ho => hw (withheld_regions.mpr (Or.inr (withheld_nodes.mp ho))), hmoved⟩

theorem absent_nodes_iff : Absent D certainty (profileUnder .suppressAmbiguousNodes profile) a ↔
    Absent D certainty (profileUnder .emitAll profile) a ∧ ¬ D.Open a := by
  constructor
  · intro h
    obtain ⟨p, q, halone, hw, hmoved⟩ := h
    exact ⟨⟨p, q, halone, withheld_all, hmoved⟩, fun ho => hw (withheld_nodes.mpr ho)⟩
  · intro h
    obtain ⟨⟨p, q, halone, -, hmoved⟩, hopen⟩ := h
    exact ⟨p, q, halone, fun hw => hopen (withheld_nodes.mp hw), hmoved⟩

end Absence

/-! ## What is reported -/

section Reporting
variable {ctx : ClassificationContext} {ap : AlignmentProfile} {D : Comparison NodeRef NodeRef}
  {certainty : NodeRef → NodeRef → ℚ} {x : StructuralOperationFields}

theorem forced_mem_evidenceCodes {sideCode : String} (hne : sideCode ≠ forcedCode) (u : Bool) :
    forcedCode ∈ evidenceCodes sideCode u ↔ u = true := by
  cases u with
  | true => simp [evidenceCodes, forcedCode]
  | false => simpa [evidenceCodes] using hne.symm

theorem forced_not_mem_matchOf (s t : NodeRef) : forcedCode ∉ (matchOf ctx s t).evidenceCodes := by
  unfold matchOf
  cases contentChanged ctx.source ctx.target s t with
  | true => simp [matchFields, forcedCode]
  | false => simp [matchFields, forcedCode]

/-- Apart from deletes and inserts, the policy changes nothing. -/
theorem reported_other {policy policy' : UnresolvedPresencePolicy}
    (h : Reported (contextUnder policy ctx) ap D certainty x) (htype : x.type ≠ .delete ∧ x.type ≠ .insert) :
    Reported (contextUnder policy' ctx) ap D certainty x := by
  cases h with
  | aligned ha hen => exact .aligned ha hen
  | deleted ha hu hen => exact absurd rfl htype.1
  | inserted ha hu hen => exact absurd rfl htype.2
  | moved hm hen => exact .moved hm hen
  | reordered hpq hs hen => exact .reordered hpq hs hen

theorem reported_regions (h : Reported (contextUnder .suppressUnresolvedRegions ctx) ap D certainty x) :
    Reported (contextUnder .suppressAmbiguousNodes ctx) ap D certainty x := by
  cases h with
  | aligned ha hen => exact .aligned ha hen
  | deleted ha hu hen => exact .deleted (absent_regions ha) hu hen
  | inserted ha hu hen => exact .inserted (absent_regions ha) hu hen
  | moved hm hen => exact .moved hm hen
  | reordered hpq hs hen => exact .reordered hpq hs hen

/-- Withholding ambiguous nodes reports what is reported otherwise without the audit code. -/
theorem reported_nodes_iff : Reported (contextUnder .suppressAmbiguousNodes ctx) ap D certainty x ↔
    Reported (contextUnder .emitAll ctx) ap D certainty x ∧ forcedCode ∉ x.evidenceCodes := by
  constructor
  · intro h
    cases h with
    | aligned ha hen => exact ⟨.aligned ha hen, forced_not_mem_matchOf _ _⟩
    | deleted ha hu hen =>
      obtain ⟨ha, hopen⟩ := absent_nodes_iff.mp ha
      exact ⟨.deleted ha hu hen, fun hin => hopen (hu.mp ((forced_mem_evidenceCodes (by decide) _).mp hin))⟩
    | inserted ha hu hen =>
      obtain ⟨ha, hopen⟩ := absent_nodes_iff.mp ha
      exact ⟨.inserted ha hu hen, fun hin => hopen (hu.mp ((forced_mem_evidenceCodes (by decide) _).mp hin))⟩
    | moved hm hen => exact ⟨.moved hm hen, by simp [moveOf, moveFields, forcedCode]⟩
    | reordered hpq hs hen => exact ⟨.reordered hpq hs hen, by simp [reorderOf, forcedCode]⟩
  · intro h
    obtain ⟨h, hnot⟩ := h
    cases h with
    | aligned ha hen => exact .aligned ha hen
    | deleted ha hu hen =>
      have hopen := fun ho => hnot ((forced_mem_evidenceCodes (by decide) _).mpr (hu.mpr ho))
      exact .deleted (absent_nodes_iff.mpr ⟨ha, hopen⟩) hu hen
    | inserted ha hu hen =>
      have hopen := fun ho => hnot ((forced_mem_evidenceCodes (by decide) _).mpr (hu.mpr ho))
      exact .inserted (absent_nodes_iff.mpr ⟨ha, hopen⟩) hu hen
    | moved hm hen => exact .moved hm hen
    | reordered hpq hs hen => exact .reordered hpq hs hen

end Reporting

/-! ## The ladder -/

/-- No delete and no insert. -/
def others (result : ReconciliationResult) : List StructuralOperation :=
  result.operations.operations.filter fun op => op.val.type ≠ .delete ∧ op.val.type ≠ .insert

/-- Two results differ in deletes and inserts alone. -/
structure SameButPresence (r r' : ReconciliationResult) : Prop where
  graph : r.matchGraph = r'.matchGraph
  alignment : r.alignment = r'.alignment
  others : (others r).Perm (others r')

/-- What the three policies report, from the strictest on. -/
structure Ladder (regions nodes all : ReconciliationResult) : Prop where
  regions_nodes : SameButPresence regions nodes
  nodes_all : SameButPresence nodes all
  regions_sub : ∀ op ∈ regions.operations.operations, op ∈ nodes.operations.operations
  nodes_sub : ∀ op ∈ nodes.operations.operations, op ∈ all.operations.operations
  nodes_exact : ∀ op, op ∈ nodes.operations.operations ↔
    op ∈ all.operations.operations ∧ forcedCode ∉ op.val.evidenceCodes

section Runs
variable [PyRuntime] {command : ReconcileTreesCommand} {evidence evidence' : EvidenceIndex}
  {result r r' : ReconciliationResult} {policy policy' : UnresolvedPresencePolicy}

omit [PyRuntime] in
theorem admitted_under (h : Admitted command) (policy : UnresolvedPresencePolicy) : Admitted (commandUnder policy command) :=
  ⟨h.source_valid, h.target_valid, h.profiles_valid, h.within_limits⟩

/-- A command that is not admitted ends the same way under every policy. -/
theorem reconcile_under (h : ¬ Admitted command) (policy : UnresolvedPresencePolicy) :
    reconcile (commandUnder policy command) = reconcile command := by
  have hv : validate (commandUnder policy command) = validate command := rfl
  have hl : checkPreLimits (commandUnder policy command).sourceTree (commandUnder policy command).targetTree
      (commandUnder policy command).executionContext.resourceLimits
      (commandUnder policy command).executionContext.correlationId =
    checkPreLimits command.sourceTree command.targetTree command.executionContext.resourceLimits
      command.executionContext.correlationId := rfl
  unfold reconcile
  rw [hv, hl]
  cases hvalid : validate command with
  | error e => rfl
  | ok u =>
    obtain ⟨hs, ht, hp⟩ := validate_ok_iff.mp hvalid
    rcases checkPreLimits_outcome (rooted_of_validateTree hs) (rooted_of_validateTree ht)
      command.executionContext.resourceLimits command.executionContext.correlationId with hok | ⟨message, context, herror⟩
    · exact absurd ⟨hs, ht, hp, hok⟩ h
    · rw [herror]
      rfl

/-- An admitted command returns under one policy when it does under another. -/
theorem run_under (h : Admitted command) (hrun : runStages command = .ok result) (policy : UnresolvedPresencePolicy) :
    ∃ evidence r, reconcile (commandUnder policy command) = .ok r ∧ Stages (commandUnder policy command) evidence r := by
  obtain ⟨evidence, hs⟩ := runStages_stages hrun
  have hcond := (runStages_total_iff h hs.extracted).mp ⟨result, hrun⟩
  obtain ⟨r, hr⟩ := (runStages_total_iff (admitted_under h policy) hs.extracted).mpr hcond
  obtain ⟨evidence', hs'⟩ := runStages_stages hr
  exact ⟨evidence', r, (reconcile_admitted (admitted_under h policy)).trans hr, hs'⟩

theorem same_under (hs : Stages (commandUnder policy command) evidence r)
    (hs' : Stages (commandUnder policy' command) evidence' r') :
    evidence = evidence' ∧ r.matchGraph = r'.matchGraph ∧ r.alignment = r'.alignment := by
  obtain rfl : evidence = evidence' := Except.ok.inj (hs.extracted.symm.trans hs'.extracted)
  have hgraph : r.matchGraph = r'.matchGraph := Except.ok.inj (hs.matched.symm.trans hs'.matched)
  have haligned := hs.aligned
  rw [hgraph] at haligned
  exact ⟨rfl, hgraph, Except.ok.inj (haligned.symm.trans hs'.aligned)⟩

/-- The operations of the runs are reported from one context, under the policy of each. -/
theorem reported_under (h : Admitted command) (hs : Stages (commandUnder policy command) evidence r)
    (hs' : Stages (commandUnder policy' command) evidence' r') (op : StructuralOperation) :
    op ∈ r.operations.operations ↔ Reported (contextUnder policy (context command r')) command.alignmentProfile
      (h.comparison evidence') (certainty evidence' command.matchingProfile) op.val := by
  obtain ⟨rfl, hgraph, halignment⟩ := same_under hs hs'
  rw [hs.reported (admitted_under h policy) op, show context (commandUnder policy command) r =
    contextUnder policy (context command r') by simp only [context, hgraph, halignment]; rfl]
  rfl

theorem others_under (h : Admitted command) (hs : Stages (commandUnder policy command) evidence r)
    (hs' : Stages (commandUnder policy' command) evidence' r') : SameButPresence r r' := by
  obtain ⟨-, hgraph, halignment⟩ := same_under hs hs'
  refine ⟨hgraph, halignment, ?_⟩
  have hnodup := hs.nodup (admitted_under h policy)
  have hnodup' := hs'.nodup (admitted_under h policy')
  refine (List.perm_ext_iff_of_nodup hnodup hnodup').mpr fun op => ?_
  simp only [List.mem_filter, decide_eq_true_eq, reported_under h hs hs' op, reported_under h hs' hs' op]
  constructor
  · intro hop
    exact ⟨reported_other hop.1 hop.2, hop.2⟩
  · intro hop
    exact ⟨reported_other hop.1 hop.2, hop.2⟩

/-- Three runs that differ in the presence policy alone return together, and form a ladder. -/
theorem policy_ladder (hrun : reconcile command = .ok result) : ∃ regions nodes all,
    reconcile (commandUnder .suppressUnresolvedRegions command) = .ok regions ∧
      reconcile (commandUnder .suppressAmbiguousNodes command) = .ok nodes ∧
      reconcile (commandUnder .emitAll command) = .ok all ∧ Ladder regions nodes all := by
  by_cases h : Admitted command
  · have hstages := reconcile_admitted h ▸ hrun
    obtain ⟨_, regions, hregions, hs⟩ := run_under h hstages .suppressUnresolvedRegions
    obtain ⟨_, nodes, hnodes, hs'⟩ := run_under h hstages .suppressAmbiguousNodes
    obtain ⟨_, all, hall, hs''⟩ := run_under h hstages .emitAll
    refine ⟨regions, nodes, all, hregions, hnodes, hall, ⟨others_under h hs hs', others_under h hs' hs'', ?_, ?_, ?_⟩⟩
    · intro op hop
      exact (reported_under h hs' hs'' op).mpr (reported_regions ((reported_under h hs hs'' op).mp hop))
    · intro op hop
      exact (reported_under h hs'' hs'' op).mpr (reported_nodes_iff.mp ((reported_under h hs' hs'' op).mp hop)).1
    · intro op
      rw [reported_under h hs' hs'' op, reported_under h hs'' hs'' op]
      exact reported_nodes_iff
  · have hreturns := fun policy => (reconcile_under h policy).trans hrun
    refine ⟨result, result, result, hreturns _, hreturns _, hreturns _, ?_⟩
    have hempty : result.operations.operations = [] := by
      rcases not_admitted_outcome h with ⟨e, he⟩ | ⟨diagnostics, hincomplete⟩
      · rw [hrun] at he
        cases he
      · rw [hrun] at hincomplete
        cases hincomplete
        rfl
    exact ⟨⟨rfl, rfl, .refl _⟩, ⟨rfl, rfl, .refl _⟩, fun op hop => hop, fun op hop => hop, fun op => by simp [hempty]⟩

end Runs

/-- One of two chapters that look the same is gone, and so is a part of the book. -/
def thinnedBook : ReconcileTreesCommand :=
  defaultCommand
    (buildTree "book" [⟨"book", "map", none, [], []⟩, ⟨"first", "topic", some "book", [], []⟩,
      ⟨"second", "topic", some "book", [], []⟩, ⟨"part", "part", some "book", [], []⟩])
    (buildTree "book" [⟨"book", "map", none, [], []⟩, ⟨"only", "topic", some "book", [], []⟩])

theorem thinnedBook_ladder : ∃ regions nodes all,
    @reconcile asciiRuntime (commandUnder .suppressUnresolvedRegions thinnedBook) = .ok regions ∧
      @reconcile asciiRuntime (commandUnder .suppressAmbiguousNodes thinnedBook) = .ok nodes ∧
      @reconcile asciiRuntime (commandUnder .emitAll thinnedBook) = .ok all ∧ Ladder regions nodes all := by
  have hrun : Outcome.Returns (@reconcile asciiRuntime thinnedBook) fun result => result.complete = true ∧
      SourceIn result [.delete] "part" := by
    decide +kernel
  obtain ⟨result, hrun, -⟩ := hrun
  exact @policy_ladder asciiRuntime _ _ hrun

end Reconciliation.Reports
