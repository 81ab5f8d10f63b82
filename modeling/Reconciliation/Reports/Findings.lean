/-
  Reconciliation.Reports.Findings — what the localization issues of a complete result say
  about the two trees.

  - A node is reported missing, or extra, exactly when it is absent, not open, and no rule
    permits it (`missing_iff`, `extra_iff`).
  - A confirmed pair below the source root has an issue with a match status (`matched_iff`),
    which is `WRONG_PARENT` exactly when the pair moved (`wrongParent_iff`).
  - Unless presence is forced, the issues lose and invent no structural finding
    (`findings_kept`).
-/
import Reconciliation.Classification.OperationIds
import Reconciliation.Localization.ValidationProofs
import Reconciliation.Reports.Presence

namespace Reconciliation.Reports

open Reconciliation.Base Reconciliation.Contracts Reconciliation.Normalization Reconciliation.Evidence Reconciliation.Matching
  Reconciliation.Alignment Reconciliation.Classification Reconciliation.Engine Reconciliation.Builders
  Reconciliation.Localization

/-- The localization result of a command's result and its two trees. -/
def localize [PyRuntime] (command : ReconcileTreesCommand) (result : ReconciliationResult) (locale : String)
    (side : AuthoritativeSide) (policy : Option LocaleVariationPolicy) : LocalizationValidationResult :=
  Localization.validate result command.sourceTree command.targetTree locale side policy

/-! ## Open nodes -/

section Opens
variable {ctx : ClassificationContext} {ap : AlignmentProfile} {D : Comparison NodeRef NodeRef}
  {certainty : NodeRef → NodeRef → ℚ} (h : Agrees ctx ap D certainty)

include h

/-- A source node the alignment leaves unresolved is open. -/
theorem open_of_unresolvedSource {s : NodeRef} (hs : s ∈ ctx.alignment.unresolvedSourceRefs) : D.Open s := by
  obtain ⟨r, hr, hs⟩ := List.mem_flatMap.mp hs
  obtain ⟨p, q, hpq, hregion⟩ := region_parents h.aligned hr
  obtain ⟨c, hc, hcs⟩ := List.mem_filterMap.mp hs
  obtain ⟨hc, hkind⟩ := List.mem_filter.mp hc
  replace hkind := of_decide_eq_true hkind
  rcases h.position_cases hregion (h.paired_iff.mp hpq) hc with ⟨s', t', -, hx⟩ | ⟨s', -, -, hx⟩ | ⟨t', -, -, hx⟩
  · rw [hx] at hkind
    cases hkind
  · obtain rfl := Option.some.inj (hcs.symm.trans hx.kind.2)
    refine hx.unresolved.mp ?_
    simp [AlignedPairFields.isUnresolved, unresolvedEdgeKinds, hkind]
  · rcases hx.kind.1 with hk | hk
    · exact absurd (hkind.symm.trans hk) (by simp)
    · exact absurd (hkind.symm.trans hk) (by simp)

/-- A target node the alignment leaves unresolved is open. -/
theorem open_of_unresolvedTarget {t : NodeRef} (ht : t ∈ ctx.alignment.unresolvedTargetRefs) : D.swap.Open t := by
  obtain ⟨r, hr, ht⟩ := List.mem_flatMap.mp ht
  obtain ⟨p, q, hpq, hregion⟩ := region_parents h.aligned hr
  obtain ⟨c, hc, hct⟩ := List.mem_filterMap.mp ht
  obtain ⟨hc, hkind⟩ := List.mem_filter.mp hc
  replace hkind := of_decide_eq_true hkind
  rcases h.position_cases hregion (h.paired_iff.mp hpq) hc with ⟨s', t', -, hx⟩ | ⟨s', -, -, hx⟩ | ⟨t', -, -, hx⟩
  · rw [hx] at hkind
    cases hkind
  · rcases hx.kind.1 with hk | hk
    · exact absurd (hkind.symm.trans hk) (by simp)
    · exact absurd (hkind.symm.trans hk) (by simp)
  · obtain rfl := Option.some.inj (hct.symm.trans hx.kind.2)
    refine hx.unresolved.mp ?_
    simp [AlignedPairFields.isUnresolved, unresolvedEdgeKinds, hkind]

/-- The sources whose presence findings are dropped are the open ones. -/
theorem mem_ambiguousOrUnresolvedSources {s : NodeRef} :
    s ∈ ctx.graph.ambiguous.map (·.val.sourceNodeRef) ++ ctx.alignment.unresolvedSourceRefs ↔ D.Open s := by
  rw [List.mem_append]
  constructor
  · intro hs
    rcases hs with hs | hs
    · obtain ⟨c, hc, rfl⟩ := List.mem_map.mp hs
      obtain ⟨hc, hstate⟩ := MatchGraph.mem_ambiguous.mp hc
      exact ⟨_, (h.unsettled_iff _ _).mp ⟨c, hc, hstate, rfl, rfl⟩⟩
    · exact open_of_unresolvedSource h hs
  · intro ho
    obtain ⟨t, ho⟩ := ho
    obtain ⟨c, hc, hstate, rfl, -⟩ := (h.unsettled_iff _ _).mpr ho
    exact Or.inl (List.mem_map.mpr ⟨c, MatchGraph.mem_ambiguous.mpr ⟨hc, hstate⟩, rfl⟩)

theorem mem_ambiguousOrUnresolvedTargets {t : NodeRef} :
    t ∈ ctx.graph.ambiguous.map (·.val.targetNodeRef) ++ ctx.alignment.unresolvedTargetRefs ↔ D.swap.Open t := by
  rw [List.mem_append]
  constructor
  · intro ht
    rcases ht with ht | ht
    · obtain ⟨c, hc, rfl⟩ := List.mem_map.mp ht
      obtain ⟨hc, hstate⟩ := MatchGraph.mem_ambiguous.mp hc
      exact ⟨_, (h.unsettled_iff _ _).mp ⟨c, hc, hstate, rfl, rfl⟩⟩
    · exact open_of_unresolvedTarget h ht
  · intro ho
    obtain ⟨s, ho⟩ := ho
    obtain ⟨c, hc, hstate, -, rfl⟩ := (h.unsettled_iff _ _).mpr ho
    exact Or.inl (List.mem_map.mpr ⟨c, MatchGraph.mem_ambiguous.mpr ⟨hc, hstate⟩, rfl⟩)

end Opens

/-- Where a finding comes from, and the status it has there. -/
inductive Origin [PyRuntime] (command : ReconcileTreesCommand) (result : ReconciliationResult) (locale : String)
    (policy : Option LocaleVariationPolicy) (f : Finding) : Prop
  | matched (c : MatchCandidate) (confirmed : c ∈ result.matchGraph.confirmed)
      (below : ∃ p, command.sourceTree.parentOf c.val.sourceNodeRef = some p)
      (eq : f = matchFinding result command.sourceTree command.targetTree policy c) (status : f.status ∈ matchStatuses)
  | ambiguous (c : MatchCandidate) (open_ : c ∈ result.matchGraph.ambiguous)
      (eq : f = ambiguousFinding c.val.sourceNodeRef) (status : f.status = .ambiguousMatch)
  | reordered (op : StructuralOperation) (emitted : op ∈ result.operations.operations) (type : op.val.type = .reorder)
      (eq : f = reorderFinding op) (status : f.status = .wrongOrder)
  | missing (op : StructuralOperation) (emitted : op ∈ result.operations.operations) (s : NodeRef) (u : Bool)
      (val : op.val = deleteFields u s) (eq : f = missingFinding command.sourceTree locale policy op s)
      (exemption : exemptionAt locale policy .delete command.sourceTree s = none) (status : f.status = .missingInLocale)
  | extra (op : StructuralOperation) (emitted : op ∈ result.operations.operations) (t : NodeRef) (u : Bool)
      (val : op.val = insertFields u t) (eq : f = extraFinding command.targetTree locale policy op t)
      (exemption : exemptionAt locale policy .insert command.targetTree t = none) (status : f.status = .extraInLocale)
  | exempt (op : StructuralOperation) (emitted : op ∈ result.operations.operations)
      (eq : presenceFinding command.sourceTree command.targetTree locale policy op = some f)
      (status : f.status = .exemptLocaleVariation)
  | conflict (eq : f = conflictFinding) (status : f.status = .identifierConflict)

/-! ## Operations of one type -/

section Runs
variable [PyRuntime] {command : ReconcileTreesCommand} {evidence : EvidenceIndex} {result : ReconciliationResult}
  (h : Admitted command) (hs : Stages command evidence result) {op : StructuralOperation}

include h hs

theorem correspondents_known {s t : NodeRef} (hm : (h.comparison evidence).Matched s t) :
    s ∈ command.sourceTree.nodes.keys ∧ t ∈ command.targetTree.nodes.keys :=
  ((hs.agrees h).known s t hm).imp mem_keys_normalize.mp mem_keys_normalize.mp

theorem reported_type {types : List OperationType} : (op ∈ result.operations.operations ∧ op.val.type ∈ types) ↔
    Reported (context command result) command.alignmentProfile (h.comparison evidence)
      (certainty evidence command.matchingProfile) op.val ∧ op.val.type ∈ types :=
  and_congr_left fun _ => hs.reported h op

theorem move_op_iff : (op ∈ result.operations.operations ∧ op.val.type = .move) ↔
    ∃ s t, Moved (h.comparison evidence) (certainty evidence command.matchingProfile) command.operationProfile s t ∧
      .move ∈ command.operationProfile.enabledOperations ∧ op.val = moveOf (context command result) s t := by
  rw [← List.mem_singleton, reported_type h hs, reported_moved_iff]
  rfl

theorem reorder_op_iff : (op ∈ result.operations.operations ∧ op.val.type = .reorder) ↔
    ∃ p q, (h.comparison evidence).Paired p q ∧ Shuffled (context command result) command.alignmentProfile p q ∧
      .reorder ∈ command.operationProfile.enabledOperations ∧ op.val = reorderOf (context command result) p q := by
  rw [← List.mem_singleton, reported_type h hs, reported_reordered_iff]
  rfl

theorem delete_op_iff : (op ∈ result.operations.operations ∧ op.val.type = .delete) ↔
    ∃ s u, Absent (h.comparison evidence) (certainty evidence command.matchingProfile) command.operationProfile s ∧
      (u = true ↔ (h.comparison evidence).Open s) ∧ .delete ∈ command.operationProfile.enabledOperations ∧
        op.val = deleteFields u s := by
  rw [← List.mem_singleton, reported_type h hs, reported_deleted_iff]
  rfl

theorem insert_op_iff : (op ∈ result.operations.operations ∧ op.val.type = .insert) ↔
    ∃ t u, Absent (h.comparison evidence).swap (fun b a => certainty evidence command.matchingProfile a b)
      command.operationProfile t ∧ (u = true ↔ (h.comparison evidence).swap.Open t) ∧
        .insert ∈ command.operationProfile.enabledOperations ∧ op.val = insertFields u t := by
  rw [← List.mem_singleton, reported_type h hs, reported_inserted_iff]
  rfl

/-- The move of a source node, looked up. -/
theorem moveIndex_eq_some {s : NodeRef} : (moveIndex result).get? s = some op ↔
    (op ∈ result.operations.operations ∧ op.val.type = .move) ∧ op.val.sourceNodeRefs = [s] := by
  have hpairs : ∀ op', (s, op') ∈ (result.operations.operations.filter fun op => op.val.type = .move).flatMap
      (fun op => op.val.sourceNodeRefs.map fun ref => (ref, op)) ↔
      (op' ∈ result.operations.operations ∧ op'.val.type = .move) ∧ op'.val.sourceNodeRefs = [s] := by
    intro op'
    simp only [List.mem_flatMap, List.mem_filter, decide_eq_true_eq, List.mem_map, Prod.mk.injEq]
    constructor
    · intro hx
      obtain ⟨op, hop, ref, href, rfl, rfl⟩ := hx
      obtain ⟨s, t, -, -, hval⟩ := (move_op_iff h hs).mp hop
      rw [hval] at href
      exact ⟨hop, by rw [hval, List.mem_singleton.mp href]; rfl⟩
    · intro hx
      obtain ⟨hop, hrefs⟩ := hx
      exact ⟨op', hop, s, by simp [hrefs], rfl, rfl⟩
  unfold moveIndex
  constructor
  · intro hget
    exact (hpairs op).mp (Dict.mem_of_get?_ofPairs hget)
  · intro hop
    refine Dict.get?_ofPairs ((hpairs op).mpr hop) fun op' hop' => ?_
    -- two moves of one source node are of one pair
    obtain ⟨hop', hrefs'⟩ := (hpairs op').mp hop'
    obtain ⟨hop, hrefs⟩ := hop
    obtain ⟨a, b, hm, -, hval⟩ := (move_op_iff h hs).mp hop
    obtain ⟨a', b', hm', -, hval'⟩ := (move_op_iff h hs).mp hop'
    rw [hval] at hrefs
    rw [hval'] at hrefs'
    obtain rfl : a = a' := List.singleton_inj.mp (hrefs.trans hrefs'.symm)
    obtain rfl := (h.comparison evidence).target_unique hm.1.1 hm'.1.1
    exact Checked.ext_val (hval'.trans hval.symm)

/-! ## Presence findings -/

variable {locale : String} {policy : Option LocaleVariationPolicy} {side : AuthoritativeSide} {f : Finding}

/-- A presence finding is that of a delete or of an insert. -/
theorem presenceFinding_cases (hop : op ∈ result.operations.operations)
    (hf : presenceFinding command.sourceTree command.targetTree locale policy op = some f) :
    (op.val.type = .delete ∧ ∃ s u, op.val = deleteFields u s ∧ f = missingFinding command.sourceTree locale policy op s) ∨
      (op.val.type = .insert ∧ ∃ t u, op.val = insertFields u t ∧ f = extraFinding command.targetTree locale policy op t) := by
  unfold presenceFinding at hf
  split at hf
  · rename_i s htype hrefs
    obtain ⟨s', u, -, -, -, hval⟩ := (delete_op_iff h hs).mp ⟨hop, htype⟩
    rw [hval] at hrefs
    obtain rfl := Option.some.inj hrefs
    exact Or.inl ⟨htype, s', u, hval, (Option.some.inj hf).symm⟩
  · rename_i t htype hrefs
    obtain ⟨t', u, -, -, -, hval⟩ := (insert_op_iff h hs).mp ⟨hop, htype⟩
    rw [hval] at hrefs
    obtain rfl := Option.some.inj hrefs
    exact Or.inr ⟨htype, t', u, hval, (Option.some.inj hf).symm⟩
  · cases hf

theorem finding_origin (hf : f ∈ findings result command.sourceTree command.targetTree locale policy) :
    Origin command result locale policy f := by
  rcases mem_findings.mp hf with ⟨c, hc, hp, rfl⟩ | ⟨c, hc, rfl⟩ | ⟨op, hop, htype, rfl⟩ | ⟨op, hop, hfinding⟩ | ⟨d, -, -, rfl⟩
  · exact .matched c hc hp rfl (matchStatus_mem c)
  · exact .ambiguous c hc rfl rfl
  · exact .reordered op hop htype rfl rfl
  · rcases presenceFinding_cases h hs hop hfinding with ⟨htype, s, u, hval, rfl⟩ | ⟨htype, t, u, hval, rfl⟩
    · rcases presenceStatus_own op.val.type command.sourceTree s .missingInLocale with ⟨hown, hexempt⟩ | hexempt
      · exact .missing op hop s u hval rfl (htype ▸ hexempt) hown
      · exact .exempt op hop hfinding hexempt
    · rcases presenceStatus_own op.val.type command.targetTree t .extraInLocale with ⟨hown, hexempt⟩ | hexempt
      · exact .extra op hop t u hval rfl (htype ▸ hexempt) hown
      · exact .exempt op hop hfinding hexempt
  · exact .conflict rfl rfl

/-- A finding that a node is missing is that of a delete no rule permits. -/
theorem missing_finding (hf : f ∈ findings result command.sourceTree command.targetTree locale policy)
    (hstatus : f.status = .missingInLocale) : ∃ op ∈ result.operations.operations, ∃ s u,
      op.val = deleteFields u s ∧ f = missingFinding command.sourceTree locale policy op s ∧
        exemptionAt locale policy .delete command.sourceTree s = none := by
  cases finding_origin h hs hf with
  | missing op hop s u hval heq hexempt hother => exact ⟨op, hop, s, u, hval, heq, hexempt⟩
  | extra op hop t u hval heq hexempt hother => cases hstatus.symm.trans hother
  | matched c hc hp heq hmatch => simp [hstatus, matchStatuses] at hmatch
  | ambiguous c hc heq hother => cases hstatus.symm.trans hother
  | reordered op hop htype heq hother => cases hstatus.symm.trans hother
  | exempt op hop heq hother => cases hstatus.symm.trans hother
  | conflict heq hother => cases hstatus.symm.trans hother

/-- A finding that a node is extra is that of an insert no rule permits. -/
theorem extra_finding (hf : f ∈ findings result command.sourceTree command.targetTree locale policy)
    (hstatus : f.status = .extraInLocale) : ∃ op ∈ result.operations.operations, ∃ t u,
      op.val = insertFields u t ∧ f = extraFinding command.targetTree locale policy op t ∧
        exemptionAt locale policy .insert command.targetTree t = none := by
  cases finding_origin h hs hf with
  | extra op hop t u hval heq hexempt hother => exact ⟨op, hop, t, u, hval, heq, hexempt⟩
  | missing op hop s u hval heq hexempt hother => cases hstatus.symm.trans hother
  | matched c hc hp heq hmatch => simp [hstatus, matchStatuses] at hmatch
  | ambiguous c hc heq hother => cases hstatus.symm.trans hother
  | reordered op hop htype heq hother => cases hstatus.symm.trans hother
  | exempt op hop heq hother => cases hstatus.symm.trans hother
  | conflict heq hother => cases hstatus.symm.trans hother

/-- The source node has an issue that it is missing in the locale. -/
def MissingIn (localized : LocalizationValidationResult) (s : NodeRef) : Prop :=
  ∃ issue ∈ localized.issues, issue.localizationStatus = .missingInLocale ∧ issue.sourceNodeRef = some s

/-- The locale node has an issue that it is extra there. -/
def ExtraIn (localized : LocalizationValidationResult) (t : NodeRef) : Prop :=
  ∃ issue ∈ localized.issues, issue.localizationStatus = .extraInLocale ∧ issue.localeNodeRef = some t

/-- A node is reported missing when it is absent, not open, and its absence is not permitted. -/
theorem missing_iff {s : NodeRef} : MissingIn (localize command result locale side policy) s ↔
    .delete ∈ command.operationProfile.enabledOperations ∧
      Absent (h.comparison evidence) (certainty evidence command.matchingProfile) command.operationProfile s ∧
      ¬ (h.comparison evidence).Open s ∧ exemptionAt locale policy .delete command.sourceTree s = none := by
  have hopen := @mem_ambiguousOrUnresolvedSources _ _ _ _ (hs.agrees h) s
  constructor
  · intro hx
    obtain ⟨issue, hissue, hstatus, hsource⟩ := hx
    obtain ⟨hf, hcontra⟩ := exists_issue_iff.mp ⟨issue, hissue, rfl⟩
    obtain ⟨op, hop, s', u, hval, heq, hexempt⟩ := missing_finding h hs hf hstatus
    obtain rfl : s' = s := Option.some.inj ((congrArg Finding.source heq).symm.trans hsource)
    obtain ⟨a, u', habsent, -, hen, hval'⟩ := (delete_op_iff h hs).mp ⟨hop, by rw [hval]; rfl⟩
    obtain rfl : s' = a := List.singleton_inj.mp
      (congrArg StructuralOperationFields.sourceNodeRefs (hval.symm.trans hval'))
    exact ⟨hen, habsent, fun ho => hcontra (Or.inl ⟨hstatus, s', hsource, hopen.mpr ho⟩), hexempt⟩
  · intro hx
    obtain ⟨hen, habsent, ho, hexempt⟩ := hx
    obtain ⟨op, hop, hval⟩ := hs.exists_op h (Reported.deleted (u := false) habsent (by simp [ho]) hen)
    have hstatus : (missingFinding command.sourceTree locale policy op s).status = .missingInLocale := by
      show presenceStatus (exemptionAt locale policy op.val.type command.sourceTree s) .missingInLocale = _
      rw [hval, presenceStatus_eq]
      exact if_pos hexempt
    obtain ⟨issue, hissue, hf⟩ : ∃ issue ∈ (localize command result locale side policy).issues,
        issue.finding = missingFinding command.sourceTree locale policy op s := by
      refine exists_issue_iff.mpr ⟨mem_findings.mpr ?_, ?_⟩
      · exact Or.inr (Or.inr (Or.inr (Or.inl ⟨op, hop, presenceFinding_delete hval⟩)))
      · intro hcontra
        rcases hcontra with ⟨-, s', hs', hmem⟩ | ⟨he, -⟩
        · obtain rfl := Option.some.inj hs'
          exact ho (hopen.mp hmem)
        · exact absurd (hstatus.symm.trans he) (by simp)
    exact ⟨issue, hissue, (congrArg Finding.status hf).trans hstatus, congrArg Finding.source hf⟩

/-- A node is reported extra when it is absent, not open, and its presence is not permitted. -/
theorem extra_iff {t : NodeRef} : ExtraIn (localize command result locale side policy) t ↔
    .insert ∈ command.operationProfile.enabledOperations ∧
      Absent (h.comparison evidence).swap (fun b a => certainty evidence command.matchingProfile a b)
        command.operationProfile t ∧
      ¬ (h.comparison evidence).swap.Open t ∧ exemptionAt locale policy .insert command.targetTree t = none := by
  have hopen := @mem_ambiguousOrUnresolvedTargets _ _ _ _ (hs.agrees h) t
  constructor
  · intro hx
    obtain ⟨issue, hissue, hstatus, hlocale⟩ := hx
    obtain ⟨hf, hcontra⟩ := exists_issue_iff.mp ⟨issue, hissue, rfl⟩
    obtain ⟨op, hop, t', u, hval, heq, hexempt⟩ := extra_finding h hs hf hstatus
    obtain rfl : t' = t := Option.some.inj ((congrArg Finding.locale heq).symm.trans hlocale)
    obtain ⟨b, u', habsent, -, hen, hval'⟩ := (insert_op_iff h hs).mp ⟨hop, by rw [hval]; rfl⟩
    obtain rfl : t' = b := List.singleton_inj.mp
      (congrArg StructuralOperationFields.targetNodeRefs (hval.symm.trans hval'))
    exact ⟨hen, habsent, fun ho => hcontra (Or.inr ⟨hstatus, t', hlocale, hopen.mpr ho⟩), hexempt⟩
  · intro hx
    obtain ⟨hen, habsent, ho, hexempt⟩ := hx
    obtain ⟨op, hop, hval⟩ := hs.exists_op h (Reported.inserted (u := false) habsent (by simp [ho]) hen)
    have hstatus : (extraFinding command.targetTree locale policy op t).status = .extraInLocale := by
      show presenceStatus (exemptionAt locale policy op.val.type command.targetTree t) .extraInLocale = _
      rw [hval, presenceStatus_eq]
      exact if_pos hexempt
    obtain ⟨issue, hissue, hf⟩ : ∃ issue ∈ (localize command result locale side policy).issues,
        issue.finding = extraFinding command.targetTree locale policy op t := by
      refine exists_issue_iff.mpr ⟨mem_findings.mpr ?_, ?_⟩
      · exact Or.inr (Or.inr (Or.inr (Or.inl ⟨op, hop, presenceFinding_insert hval⟩)))
      · intro hcontra
        rcases hcontra with ⟨he, -⟩ | ⟨-, t', ht', hmem⟩
        · exact absurd (hstatus.symm.trans he) (by simp)
        · obtain rfl := Option.some.inj ht'
          exact ho (hopen.mp hmem)
    exact ⟨issue, hissue, (congrArg Finding.status hf).trans hstatus, congrArg Finding.locale hf⟩

/-! ## Correspondences -/

/-- A finding with a match status is that of a confirmed candidate below the source root. -/
theorem match_finding (hf : f ∈ findings result command.sourceTree command.targetTree locale policy)
    (hstatus : f.status ∈ matchStatuses) : ∃ c ∈ result.matchGraph.confirmed,
      (∃ p, command.sourceTree.parentOf c.val.sourceNodeRef = some p) ∧
        f = matchFinding result command.sourceTree command.targetTree policy c := by
  cases finding_origin h hs hf with
  | matched c hc hp heq hmatch => exact ⟨c, hc, hp, heq⟩
  | missing op hop s u hval heq hexempt hother => simp [hother, matchStatuses] at hstatus
  | extra op hop t u hval heq hexempt hother => simp [hother, matchStatuses] at hstatus
  | exempt op hop heq hother => simp [hother, matchStatuses] at hstatus
  | ambiguous c hc heq hother => simp [hother, matchStatuses] at hstatus
  | reordered op hop htype heq hother => simp [hother, matchStatuses] at hstatus
  | conflict heq hother => simp [hother, matchStatuses] at hstatus

/-- A finding that an order is wrong is that of a reorder. -/
theorem order_finding (hf : f ∈ findings result command.sourceTree command.targetTree locale policy)
    (hstatus : f.status = .wrongOrder) : ∃ op ∈ result.operations.operations, op.val.type = .reorder ∧
      f = reorderFinding op := by
  cases finding_origin h hs hf with
  | reordered op hop htype heq hother => exact ⟨op, hop, htype, heq⟩
  | matched c hc hp heq hmatch => simp [hstatus, matchStatuses] at hmatch
  | missing op hop s u hval heq hexempt hother => cases hstatus.symm.trans hother
  | extra op hop t u hval heq hexempt hother => cases hstatus.symm.trans hother
  | exempt op hop heq hother => cases hstatus.symm.trans hother
  | ambiguous c hc heq hother => cases hstatus.symm.trans hother
  | conflict heq hother => cases hstatus.symm.trans hother

/-- A finding that a match is ambiguous is that of an ambiguous candidate. -/
theorem ambiguous_finding (hf : f ∈ findings result command.sourceTree command.targetTree locale policy)
    (hstatus : f.status = .ambiguousMatch) : ∃ c ∈ result.matchGraph.ambiguous, f = ambiguousFinding c.val.sourceNodeRef := by
  cases finding_origin h hs hf with
  | ambiguous c hc heq hother => exact ⟨c, hc, heq⟩
  | matched c hc hp heq hmatch => simp [hstatus, matchStatuses] at hmatch
  | missing op hop s u hval heq hexempt hother => cases hstatus.symm.trans hother
  | extra op hop t u hval heq hexempt hother => cases hstatus.symm.trans hother
  | exempt op hop heq hother => cases hstatus.symm.trans hother
  | reordered op hop htype heq hother => cases hstatus.symm.trans hother
  | conflict heq hother => cases hstatus.symm.trans hother

omit h hs in
/-- A confirmed candidate below the source root has an issue with a match status. -/
theorem exists_match_issue {c : MatchCandidate} (hc : c ∈ result.matchGraph.confirmed)
    (hp : ∃ p, command.sourceTree.parentOf c.val.sourceNodeRef = some p) :
    ∃ issue ∈ (localize command result locale side policy).issues,
      issue.finding = matchFinding result command.sourceTree command.targetTree policy c := by
  refine exists_issue_iff.mpr ⟨mem_findings.mpr (Or.inl ⟨c, hc, hp, rfl⟩), fun hcontra => ?_⟩
  have hmem := @matchStatus_mem _ result command.sourceTree command.targetTree policy c
  rcases hcontra with ⟨he, -⟩ | ⟨he, -⟩
  · rw [show matchStatus result command.sourceTree command.targetTree policy c = _ from he] at hmem
    simp [matchStatuses] at hmem
  · rw [show matchStatus result command.sourceTree command.targetTree policy c = _ from he] at hmem
    simp [matchStatuses] at hmem

/-- The pair has an issue with a match status. -/
def MatchedIn (localized : LocalizationValidationResult) (s t : NodeRef) : Prop :=
  ∃ issue ∈ localized.issues, issue.localizationStatus ∈ matchStatuses ∧
    issue.sourceNodeRef = some s ∧ issue.localeNodeRef = some t

/-- A pair has an issue with a match status when it is confirmed and its source is no root. -/
theorem matchedIn_iff {s t : NodeRef} : MatchedIn (localize command result locale side policy) s t ↔
    (h.comparison evidence).Matched s t ∧ ∃ p, (h.comparison evidence).source.parent s = some p := by
  constructor
  · intro hx
    obtain ⟨issue, hissue, hstatus, hsource, hlocale⟩ := hx
    obtain ⟨hf, -⟩ := exists_issue_iff.mp ⟨issue, hissue, rfl⟩
    obtain ⟨c, hc, hp, heq⟩ := match_finding h hs hf hstatus
    obtain ⟨hmem, hstate⟩ := MatchGraph.mem_confirmed.mp hc
    obtain rfl := Option.some.inj ((congrArg Finding.source heq).symm.trans hsource)
    obtain rfl := Option.some.inj ((congrArg Finding.locale heq).symm.trans hlocale)
    refine ⟨((hs.agrees h).matched_iff _ _).mp ⟨c, hmem, hstate, rfl, rfl⟩, ?_⟩
    simpa only [h.source_parent] using hp
  · intro hx
    obtain ⟨hm, hp⟩ := hx
    obtain ⟨c, hc, hstate, rfl, rfl⟩ := ((hs.agrees h).matched_iff s t).mpr hm
    simp only [h.source_parent] at hp
    obtain ⟨issue, hissue, hf⟩ := @exists_match_issue _ _ result locale policy side c (MatchGraph.mem_confirmed.mpr ⟨hc, hstate⟩) hp
    refine ⟨issue, hissue, ?_, congrArg Finding.source hf, congrArg Finding.locale hf⟩
    rw [show issue.localizationStatus = _ from congrArg Finding.status hf]
    exact matchStatus_mem c

/-! ## Statuses and operations -/

/-- The operations the localization issues are to refer to. -/
def structuralTypes : List OperationType := [.move, .reorder, .delete, .insert]

/-- The statuses of an issue that refers to an operation of the type. -/
def statusesOf : OperationType → List LocalizationStatus
  | .move => [.wrongParent]
  | .reorder => [.wrongOrder]
  | .delete => [.missingInLocale, .exemptLocaleVariation]
  | .insert => [.extraInLocale, .exemptLocaleVariation]
  | _ => []

/-- The operation an issue refers to has the type its status tells. -/
theorem finding_status_of (hf : f ∈ findings result command.sourceTree command.targetTree locale policy)
    (hop : op ∈ result.operations.operations) (hid : op.val.operationId ∈ f.operationIds) :
    f.status ∈ statusesOf op.val.type := by
  have htype : ∀ op' ∈ result.operations.operations, op.val.operationId = op'.val.operationId → op.val.type = op'.val.type :=
    fun op' hop' => ((hs.reported h op).mp hop).type_eq ((hs.reported h op').mp hop')
  rcases mem_findings.mp hf with ⟨c, -, -, rfl⟩ | ⟨c, -, rfl⟩ | ⟨op', hop', hreorder, rfl⟩ | ⟨op', hop', hfinding⟩ | ⟨d, -, -, rfl⟩
  · obtain ⟨op', hget, he⟩ := Option.map_eq_some_iff.mp (Option.mem_toList.mp hid)
    obtain ⟨⟨hop', hmove⟩, -⟩ := (moveIndex_eq_some h hs).mp hget
    rw [htype op' hop' he.symm, hmove]
    exact List.mem_singleton.mpr ((matchStatus_wrongParent c).mpr (by rw [hget]; rfl))
  · cases hid
  · rw [htype op' hop' (List.mem_singleton.mp hid), hreorder]
    exact List.mem_singleton.mpr rfl
  · rcases presenceFinding_cases h hs hop' hfinding with ⟨hdelete, s, u, -, rfl⟩ | ⟨hinsert, t, u, -, rfl⟩
    · rw [htype op' hop' (List.mem_singleton.mp hid), hdelete]
      exact List.mem_pair.mpr (presenceStatus_cases _ _)
    · rw [htype op' hop' (List.mem_singleton.mp hid), hinsert]
      exact List.mem_pair.mpr (presenceStatus_cases _ _)
  · cases hid

/-! ## Moves and reorders -/

variable {issue : LocalizationIssue}

/-- An issue about a wrong parent is about a reported move. -/
theorem wrongParent_issue (hissue : issue ∈ (localize command result locale side policy).issues)
    (hstatus : issue.localizationStatus = .wrongParent) : ∃ s t,
      Moved (h.comparison evidence) (certainty evidence command.matchingProfile) command.operationProfile s t ∧
      .move ∈ command.operationProfile.enabledOperations ∧ issue.sourceNodeRef = some s ∧ issue.localeNodeRef = some t ∧
      issue.coreOperationIds = [(moveOf (context command result) s t).operationId] := by
  obtain ⟨hf, -⟩ := exists_issue_iff.mp ⟨issue, hissue, rfl⟩
  obtain ⟨c, hc, -, heq⟩ := match_finding h hs hf (by rw [finding_status, hstatus]; decide)
  obtain ⟨op, hget⟩ := Option.isSome_iff_exists.mp
    ((matchStatus_wrongParent c).mp ((congrArg Finding.status heq).symm.trans hstatus))
  obtain ⟨hop, hrefs⟩ := (moveIndex_eq_some h hs).mp hget
  obtain ⟨s, t, hm, hen, hval⟩ := (move_op_iff h hs).mp hop
  rw [hval] at hrefs
  obtain rfl : s = c.val.sourceNodeRef := List.singleton_inj.mp hrefs
  -- the candidate is that of the move, since its source has one match
  obtain ⟨hmem, hstate⟩ := MatchGraph.mem_confirmed.mp hc
  have hm' := ((hs.agrees h).matched_iff _ _).mp ⟨c, hmem, hstate, rfl, rfl⟩
  obtain rfl := (h.comparison evidence).target_unique hm' hm.1.1
  refine ⟨_, _, hm, hen, congrArg Finding.source heq, congrArg Finding.locale heq, ?_⟩
  have hids : issue.coreOperationIds = _ := congrArg Finding.operationIds heq
  rw [hids]
  show (((moveIndex result).get? _).map _).toList = _
  rw [hget, ← hval]
  rfl

/-- A reported move has its issue. -/
theorem exists_wrongParent_issue {s t : NodeRef}
    (hm : Moved (h.comparison evidence) (certainty evidence command.matchingProfile) command.operationProfile s t)
    (hen : .move ∈ command.operationProfile.enabledOperations) :
    ∃ issue ∈ (localize command result locale side policy).issues, issue.finding =
      ⟨.wrongParent, some s, some t, [(moveOf (context command result) s t).operationId], none⟩ := by
  obtain ⟨c, hc, hstate, rfl, rfl⟩ := ((hs.agrees h).matched_iff s t).mpr hm.1.1
  obtain ⟨-, p, -, hp, -⟩ := hm.1
  rw [h.source_parent] at hp
  obtain ⟨issue, hissue, hf⟩ := @exists_match_issue _ _ result locale policy side c
    (MatchGraph.mem_confirmed.mpr ⟨hc, hstate⟩) ⟨p, hp⟩
  obtain ⟨op, hop, hval⟩ := hs.exists_op h (Reported.moved hm hen)
  have hget : (moveIndex result).get? c.val.sourceNodeRef = some op :=
    (moveIndex_eq_some h hs).mpr ⟨⟨hop, by rw [hval]; rfl⟩, by rw [hval]; rfl⟩
  refine ⟨issue, hissue, hf.trans ?_⟩
  unfold matchFinding
  rw [(matchStatus_wrongParent c).mpr (by rw [hget]; rfl), hget, ← hval]
  rfl

/-- An issue about a wrong order is about a reported reorder. -/
theorem wrongOrder_issue (hissue : issue ∈ (localize command result locale side policy).issues)
    (hstatus : issue.localizationStatus = .wrongOrder) : ∃ p q, (h.comparison evidence).Paired p q ∧
      Shuffled (context command result) command.alignmentProfile p q ∧
      .reorder ∈ command.operationProfile.enabledOperations ∧
      issue.sourceNodeRef = (reorderOf (context command result) p q).sourceNodeRefs.head? ∧ issue.localeNodeRef = none ∧
      issue.coreOperationIds = [(reorderOf (context command result) p q).operationId] := by
  obtain ⟨hf, -⟩ := exists_issue_iff.mp ⟨issue, hissue, rfl⟩
  obtain ⟨op, hop, htype, heq⟩ := order_finding h hs hf hstatus
  obtain ⟨p, q, hpq, hsh, hen, hval⟩ := (reorder_op_iff h hs).mp ⟨hop, htype⟩
  refine ⟨p, q, hpq, hsh, hen, ?_, congrArg Finding.locale heq, ?_⟩
  · exact (congrArg Finding.source heq).trans (by rw [← hval]; rfl)
  · exact (congrArg Finding.operationIds heq).trans (by rw [← hval]; rfl)

/-- A reported reorder has its issue. -/
theorem exists_wrongOrder_issue {p q : NodeRef} (hpq : (h.comparison evidence).Paired p q)
    (hsh : Shuffled (context command result) command.alignmentProfile p q)
    (hen : .reorder ∈ command.operationProfile.enabledOperations) :
    ∃ issue ∈ (localize command result locale side policy).issues, issue.finding =
      ⟨.wrongOrder, (reorderOf (context command result) p q).sourceNodeRefs.head?, none,
        [(reorderOf (context command result) p q).operationId], none⟩ := by
  obtain ⟨op, hop, hval⟩ := hs.exists_op h (Reported.reordered hpq hsh hen)
  refine exists_issue_iff.mpr ⟨mem_findings.mpr (Or.inr (Or.inr (Or.inl ⟨op, hop, by rw [hval]; rfl, ?_⟩))), fun hcontra => ?_⟩
  · unfold reorderFinding
    rw [hval]
  · rcases hcontra with ⟨he, -⟩ | ⟨he, -⟩
    · cases he
    · cases he

/-- The children a reorder names are matched. -/
theorem matched_of_reordered {p q s : NodeRef} (hin : s ∈ (reorderOf (context command result) p q).sourceNodeRefs) :
    ∃ t, (h.comparison evidence).Matched s t := by
  obtain ⟨x, hx, rfl⟩ := List.mem_map.mp hin
  exact ⟨x.2, ((hs.agrees h).matched_iff _ _).mp (mem_matchedPairs.mp hx).2.2⟩

/-! ## Nothing lost, nothing invented -/

/-- The issues refer to every structural operation once, with the status of its type; their ids
    are distinct, and the status counts count them. -/
structure FindingsKept (result : ReconciliationResult) (localized : LocalizationValidationResult) : Prop where
  operationIds : (localized.issues.flatMap (·.coreOperationIds)).Perm
    ((result.operations.operations.filter fun op => op.val.type ∈ structuralTypes).map (·.val.operationId))
  statuses : ∀ issue ∈ localized.issues, ∀ op ∈ result.operations.operations,
    op.val.operationId ∈ issue.coreOperationIds → issue.localizationStatus ∈ statusesOf op.val.type
  issueIds : (localized.issues.map (·.issueId)).Nodup
  statusCounts : localized.summary.statusCounts.values.sum = localized.issues.length

/-- Unless presence is forced, no finding contradicts an ambiguity. -/
theorem not_contradicts (hpolicy : command.operationProfile.unresolvedPresencePolicy ≠ .emitAll)
    (hf : f ∈ findings result command.sourceTree command.targetTree locale policy) : ¬ Contradicts result f := by
  intro hcontra
  rcases hcontra with ⟨hstatus, s, hsource, hmem⟩ | ⟨hstatus, t, hlocale, hmem⟩
  · obtain ⟨op, hop, s', u, hval, rfl, -⟩ := missing_finding h hs hf hstatus
    obtain rfl : s' = s := Option.some.inj hsource
    obtain ⟨a, u', habsent, -, -, hval'⟩ := (delete_op_iff h hs).mp ⟨hop, by rw [hval]; rfl⟩
    obtain rfl : s' = a := List.singleton_inj.mp
      (congrArg StructuralOperationFields.sourceNodeRefs (hval.symm.trans hval'))
    obtain ⟨p, q, -, hw, -⟩ := habsent
    exact hw (Or.inr ⟨hpolicy, (mem_ambiguousOrUnresolvedSources (hs.agrees h)).mp hmem⟩)
  · obtain ⟨op, hop, t', u, hval, rfl, -⟩ := extra_finding h hs hf hstatus
    obtain rfl : t' = t := Option.some.inj hlocale
    obtain ⟨b, u', habsent, -, -, hval'⟩ := (insert_op_iff h hs).mp ⟨hop, by rw [hval]; rfl⟩
    obtain rfl : t' = b := List.singleton_inj.mp
      (congrArg StructuralOperationFields.targetNodeRefs (hval.symm.trans hval'))
    obtain ⟨q, p, -, hw, -⟩ := habsent
    exact hw (Or.inr ⟨hpolicy, (mem_ambiguousOrUnresolvedTargets (hs.agrees h)).mp hmem⟩)

/-- The moves found from the confirmed candidates are all the moves. -/
theorem moves_found : ((result.matchGraph.confirmed.filter fun c =>
      (command.sourceTree.parentOf c.val.sourceNodeRef).isSome).filterMap fun c =>
        (moveIndex result).get? c.val.sourceNodeRef).Perm
    (result.operations.operations.filter fun op => op.val.type = .move) := by
  refine (List.perm_ext_iff_of_nodup ?_ ?_).mpr fun op => ?_
  · have hsources : (result.matchGraph.confirmed.map (·.val.sourceNodeRef)).Nodup :=
      (MatchGraph.oneToOne_ok.mp result.matchGraph.accepted).1
    have hcomp : (fun c : MatchCandidate => (moveIndex result).get? c.val.sourceNodeRef) =
        (moveIndex result).get? ∘ fun c => c.val.sourceNodeRef := rfl
    rw [hcomp, ← List.filterMap_map]
    refine List.Nodup.filterMap (fun s s' op hop hop' => ?_) (hsources.sublist (List.filter_sublist.map _))
    have hrefs := ((moveIndex_eq_some h hs).mp hop).2
    exact List.singleton_inj.mp (hrefs.symm.trans ((moveIndex_eq_some h hs).mp hop').2)
  · refine (hs.nodup h).sublist (List.monotone_filter_right _ fun op hop => ?_)
    simp only [decide_eq_true_eq] at hop ⊢
    simp [hop]
  · simp only [List.mem_filterMap, List.mem_filter, decide_eq_true_eq, Option.isSome_iff_exists]
    constructor
    · intro hx
      obtain ⟨c, -, hget⟩ := hx
      exact ((moveIndex_eq_some h hs).mp hget).1
    · intro hop
      obtain ⟨s, t, hm, -, hval⟩ := (move_op_iff h hs).mp hop
      obtain ⟨c, hc, hstate, rfl, rfl⟩ := ((hs.agrees h).matched_iff s t).mpr hm.1.1
      obtain ⟨-, p, -, hp, -⟩ := hm.1
      rw [h.source_parent] at hp
      refine ⟨c, ⟨MatchGraph.mem_confirmed.mpr ⟨hc, hstate⟩, p, hp⟩, (moveIndex_eq_some h hs).mpr ⟨hop, ?_⟩⟩
      rw [hval]
      rfl

omit h hs [PyRuntime] in
theorem structural_perm (operations : List StructuralOperation) :
    ((operations.filter fun op => op.val.type = .move) ++ ((operations.filter fun op => op.val.type = .reorder) ++
      (operations.filter fun op => op.val.type = .delete ∨ op.val.type = .insert))).Perm
    (operations.filter fun op => op.val.type ∈ structuralTypes) := by
  have hrest := filter_append_perm_of_disjoint (p := fun op : StructuralOperation => decide (op.val.type = .reorder))
    (q := fun op => decide (op.val.type = .delete ∨ op.val.type = .insert)) (fun op hop => by simp_all) operations
  refine (hrest.append_left _).trans ?_
  refine (filter_append_perm_of_disjoint (fun op hop => ?_) operations).trans (List.Perm.of_eq ?_)
  · simp_all
  · refine List.filter_congr fun op _ => ?_
    simp [structuralTypes]

/-- The presence findings refer to the deletes and the inserts, one each. -/
theorem presence_ids : (result.operations.operations.filterMap
      (presenceFinding command.sourceTree command.targetTree locale policy)).flatMap (·.operationIds) =
    (result.operations.operations.filter fun op => op.val.type = .delete ∨ op.val.type = .insert).map (·.val.operationId) := by
  rw [List.filterMap_eq_flatMap_toList, List.flatMap_assoc, ← List.filterMap_eq_map, ← List.filterMap_eq_filter,
    List.filterMap_filterMap, List.filterMap_eq_flatMap_toList]
  refine List.flatMap_congr fun op hop => ?_
  cases hfinding : presenceFinding command.sourceTree command.targetTree locale policy op with
  | some f =>
    rcases presenceFinding_cases h hs hop hfinding with ⟨htype, s, u, -, rfl⟩ | ⟨htype, t, u, -, rfl⟩
    · simp [htype, Option.guard, missingFinding]
    · simp [htype, Option.guard, extraFinding]
  | none =>
    have hdelete : op.val.type ≠ .delete := by
      intro htype
      obtain ⟨s, u, -, -, -, hval⟩ := (delete_op_iff h hs).mp ⟨hop, htype⟩
      rw [presenceFinding_delete hval] at hfinding
      cases hfinding
    have hinsert : op.val.type ≠ .insert := by
      intro htype
      obtain ⟨t, u, -, -, -, hval⟩ := (insert_op_iff h hs).mp ⟨hop, htype⟩
      rw [presenceFinding_insert hval] at hfinding
      cases hfinding
    simp [hdelete, hinsert, Option.guard]

/-- The operations the findings refer to, in the order of the loops. -/
theorem findings_ids : (findings result command.sourceTree command.targetTree locale policy).flatMap (·.operationIds) =
    (((result.matchGraph.confirmed.filter fun c => (command.sourceTree.parentOf c.val.sourceNodeRef).isSome).filterMap
      fun c => (moveIndex result).get? c.val.sourceNodeRef) ++
    ((result.operations.operations.filter fun op => op.val.type = .reorder) ++
    (result.operations.operations.filter fun op => op.val.type = .delete ∨ op.val.type = .insert))).map
      (·.val.operationId) := by
  unfold findings
  simp only [List.flatMap_append, List.map_append, presence_ids h hs]
  have hmoves : ∀ cs : List MatchCandidate,
      (cs.map (matchFinding result command.sourceTree command.targetTree policy)).flatMap (·.operationIds) =
        (cs.filterMap fun c => (moveIndex result).get? c.val.sourceNodeRef).map (·.val.operationId) := by
    intro cs
    rw [List.map_filterMap, List.filterMap_eq_flatMap_toList, List.flatMap_map]
    rfl
  have hnone : ∀ (l : List NodeRef), (l.map ambiguousFinding).flatMap (·.operationIds) = [] := by
    intro l
    rw [List.flatMap_map]
    exact List.flatMap_eq_nil_iff.mpr fun _ _ => rfl
  have hreorders : ∀ ops : List StructuralOperation, (ops.map reorderFinding).flatMap (·.operationIds) =
      ops.map (·.val.operationId) := by
    intro ops
    rw [List.flatMap_map, List.map_eq_flatMap]
    rfl
  have hconflicts : ∀ ds : List EngineDiagnostic, (ds.map fun _ => conflictFinding).flatMap (·.operationIds) = [] := by
    intro ds
    rw [List.flatMap_map]
    exact List.flatMap_eq_nil_iff.mpr fun _ _ => rfl
  rw [hmoves, hnone, hreorders, hconflicts, List.nil_append, List.append_nil]

end Runs

section Complete
variable [PyRuntime] {command : ReconcileTreesCommand} {result : ReconciliationResult}

/-- Unless presence is forced, the localization issues lose and invent no structural finding. -/
theorem findings_kept (hc : Completes command result)
    (hpolicy : command.operationProfile.unresolvedPresencePolicy ≠ .emitAll) (locale : String)
    (side : AuthoritativeSide) (policy : Option LocaleVariationPolicy) :
    FindingsKept result (localize command result locale side policy) := by
  obtain ⟨h, evidence, hs⟩ := hc.exists_stages
  have hall : (localize command result locale side policy).issues.map LocalizationIssue.finding =
      findings result command.sourceTree command.targetTree locale policy := by
    refine (validate_findings _ _ _ _ _ _).trans (List.filter_eq_self.mpr fun f hf => ?_)
    exact decide_eq_true (not_contradicts h hs hpolicy hf)
  constructor
  · have hids : (localize command result locale side policy).issues.flatMap (·.coreOperationIds) =
        ((localize command result locale side policy).issues.map LocalizationIssue.finding).flatMap (·.operationIds) := by
      rw [List.flatMap_map]
      rfl
    rw [hids, hall, findings_ids h hs]
    exact (((moves_found h hs).append_right _).trans (structural_perm _)).map _
  · intro issue hissue op hop hid
    have hf : issue.finding ∈ findings result command.sourceTree command.targetTree locale policy :=
      hall ▸ List.mem_map.mpr ⟨issue, hissue, rfl⟩
    exact finding_status_of h hs hf hop hid
  · exact issueIds_nodup _ _ _ _ _ _
  · exact statusCounts_sum _ _ _ _ _ _

end Complete

theorem revisedBook_findings : ∃ result, @Completes asciiRuntime revisedBook result ∧
    FindingsKept result (@localize asciiRuntime revisedBook result "fr" .source none) := by
  have hrun : Outcome.Returns (@reconcile asciiRuntime revisedBook) fun result => result.complete = true ∧
      (@localize asciiRuntime revisedBook result "fr" .source none).issues.map (·.localizationStatus) =
        [.confirmedMatch, .wrongParent, .missingInLocale, .extraInLocale] := by
    decide +kernel
  obtain ⟨result, -, -, hc, -⟩ := @exists_completes asciiRuntime _ _ hrun
  exact ⟨result, hc, @findings_kept asciiRuntime _ _ hc (by decide) "fr" .source none⟩

end Reconciliation.Reports
