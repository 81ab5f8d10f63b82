/-
  Reconciliation.Localization.ValidationProofs — what the issues and the recommendations of
  a localization result are.

  A `Finding` is what an issue says apart from its number, its texts and its links. The
  findings of a result are those of the drafts that do not contradict an ambiguity
  (`validate_findings`), and each of them comes from one of the service's five loops
  (`mem_findings`). The issue ids are distinct (`issueIds_nodup`), and the recommendations are
  the repairs of the issues (`recommended`, `exists_recommended`). An issue is as severe as its
  status says (`severity_eq`).
-/
import Reconciliation.Base.Sequence
import Reconciliation.Localization.Validation

namespace Reconciliation.Localization

open Reconciliation.Base Reconciliation.Contracts Reconciliation.Matching Reconciliation.Classification

/-! ## Numbering -/

section Numbering
variable {ds : List Draft}

/-- What does not depend on the number is that of the drafts. -/
theorem map_number {γ : Type} {f : LocalizationIssue → γ} (h : ∀ draft ∈ ds, ∀ counter, f (draft counter) = f (draft 0)) :
    (number ds).map f = ds.map fun draft => f (draft 0) := by
  unfold number
  refine List.ext_getElem (by simp) fun i hi hi' => ?_
  simp only [List.getElem_map, List.getElem_mapIdx]
  exact h _ (List.getElem_mem _) _

theorem number_ids (h : ∀ draft ∈ ds, ∀ counter, (draft counter).issueId = issueIdOf counter) :
    (number ds).map LocalizationIssue.issueId = (List.range ds.length).map fun i => issueIdOf (i + 1) := by
  unfold number
  refine List.ext_getElem (by simp) fun i hi hi' => ?_
  simp only [List.getElem_map, List.getElem_mapIdx, List.getElem_range]
  exact h _ (List.getElem_mem _) _

end Numbering

/-! ## Findings -/

/-- What an issue says: its status, its nodes, its operations, and the rule that exempts it. -/
structure Finding where
  status : LocalizationStatus
  source : Option NodeRef
  locale : Option NodeRef
  operationIds : List String
  exemption : Option String

def LocalizationIssue.finding (issue : LocalizationIssue) : Finding :=
  ⟨issue.localizationStatus, issue.sourceNodeRef, issue.localeNodeRef, issue.coreOperationIds, issue.policyExemption⟩

@[simp] theorem finding_status (issue : LocalizationIssue) : issue.finding.status = issue.localizationStatus := rfl

@[simp] theorem finding_source (issue : LocalizationIssue) : issue.finding.source = issue.sourceNodeRef := rfl

/-- A draft whose number is only its number, and whose severity is that of its status. -/
structure Steady (draft : Draft) : Prop where
  numbered : ∀ counter, (draft counter).issueId = issueIdOf counter
  finding : ∀ counter, (draft counter).finding = (draft 0).finding
  graded : ∀ counter, (draft counter).severity = severityOf (draft counter).localizationStatus

section Findings
variable [PyRuntime] {result : ReconciliationResult} {sourceTree localeTree : CanonicalTree} {locale : String}
  {policy : Option LocaleVariationPolicy}

theorem steady_confirmed {moveBySource : Dict NodeRef StructuralOperation} {c : MatchCandidate} {draft : Draft}
    (h : confirmedIssue moveBySource sourceTree localeTree policy c = some draft) : Steady draft := by
  unfold confirmedIssue at h
  simp only [Option.bind_eq_bind, Option.bind_eq_some_iff] at h
  obtain ⟨sourceNode, -, h⟩ := h
  split at h
  · cases h
  · cases h
    exact ⟨fun _ => rfl, fun _ => rfl, fun _ => rfl⟩

theorem steady_presence {op : StructuralOperation} {draft : Draft}
    (h : presenceDraft sourceTree localeTree locale policy op = some draft) : Steady draft := by
  unfold presenceDraft at h
  split at h
  · cases h
    exact ⟨fun _ => rfl, fun _ => rfl, fun _ => rfl⟩
  · cases h
    exact ⟨fun _ => rfl, fun _ => rfl, fun _ => rfl⟩
  · cases h

theorem steady_drafts : ∀ draft ∈ drafts result sourceTree localeTree locale policy, Steady draft := by
  intro draft hd
  simp only [drafts, List.mem_append, List.mem_filterMap, List.mem_map] at hd
  rcases hd with ⟨c, -, hd⟩ | ⟨s, -, rfl⟩ | ⟨op, -, rfl⟩ | ⟨op, -, hd⟩ | ⟨d, -, rfl⟩
  · exact steady_confirmed hd
  · exact ⟨fun _ => rfl, fun _ => rfl, fun _ => rfl⟩
  · exact ⟨fun _ => rfl, fun _ => rfl, fun _ => rfl⟩
  · exact steady_presence hd
  · exact ⟨fun _ => rfl, fun _ => rfl, fun _ => rfl⟩

/-! ## The findings of each loop -/

variable (result sourceTree localeTree locale policy)

/-- The rule that permits the operation on a node of the tree. -/
def exemptionAt (operation : OperationType) (tree : CanonicalTree) (ref : NodeRef) : Option String :=
  exemptionFor policy locale operation (((tree.nodes.get? ref).map (·.nodeType)).getD "")

/-- The status of a confirmed candidate below the source root. -/
def matchStatus (c : MatchCandidate) : LocalizationStatus :=
  correspondenceStatus ((moveIndex result).get? c.val.sourceNodeRef).isSome
    (((sourceTree.nodes.get? c.val.sourceNodeRef).bind fun sourceNode =>
      (localeTree.nodes.get? c.val.targetNodeRef).map (stateFor sourceNode)).getD .unknown)
    c.val.confidence.value (confirmedThreshold policy)

def matchFinding (c : MatchCandidate) : Finding where
  status := matchStatus result sourceTree localeTree policy c
  source := some c.val.sourceNodeRef
  locale := some c.val.targetNodeRef
  operationIds := (((moveIndex result).get? c.val.sourceNodeRef).map (·.val.operationId)).toList
  exemption := none

omit [PyRuntime] in
/-- A presence finding is exempt, or has its own status. -/
def presenceStatus (exemption : Option String) (status : LocalizationStatus) : LocalizationStatus :=
  if (truthy exemption).isSome then .exemptLocaleVariation else status

def missingFinding (op : StructuralOperation) (s : NodeRef) : Finding where
  status := presenceStatus (exemptionAt locale policy op.val.type sourceTree s) .missingInLocale
  source := some s
  locale := none
  operationIds := [op.val.operationId]
  exemption := exemptionAt locale policy op.val.type sourceTree s

def extraFinding (op : StructuralOperation) (t : NodeRef) : Finding where
  status := presenceStatus (exemptionAt locale policy op.val.type localeTree t) .extraInLocale
  source := none
  locale := some t
  operationIds := [op.val.operationId]
  exemption := exemptionAt locale policy op.val.type localeTree t

/-- The finding of a delete or of an insert. -/
def presenceFinding (op : StructuralOperation) : Option Finding :=
  match op.val.type, op.val.sourceNodeRefs.head?, op.val.targetNodeRefs.head? with
  | .delete, some s, _ => some (missingFinding sourceTree locale policy op s)
  | .insert, _, some t => some (extraFinding localeTree locale policy op t)
  | _, _, _ => none

def ambiguousFinding (s : NodeRef) : Finding := ⟨.ambiguousMatch, some s, none, [], none⟩

def reorderFinding (op : StructuralOperation) : Finding :=
  ⟨.wrongOrder, op.val.sourceNodeRefs.head?, none, [op.val.operationId], none⟩

def conflictFinding : Finding := ⟨.identifierConflict, none, none, [], none⟩

/-- The findings before any of them is dropped. -/
def findings : List Finding :=
  (result.matchGraph.confirmed.filter fun c => (sourceTree.parentOf c.val.sourceNodeRef).isSome).map
      (matchFinding result sourceTree localeTree policy) ++
    ((sortedBy id (result.matchGraph.ambiguous.map (·.val.sourceNodeRef)).dedup).map ambiguousFinding ++
    ((result.operations.operations.filter fun op => op.val.type = .reorder).map reorderFinding ++
    (result.operations.operations.filterMap (presenceFinding sourceTree localeTree locale policy) ++
    (result.diagnostics.filter fun d => d.code = "DUPLICATE_PERSISTENT_ID").map fun _ => conflictFinding)))

theorem confirmedIssue_finding (c : MatchCandidate) :
    (confirmedIssue (moveIndex result) sourceTree localeTree policy c).map (fun draft => (draft 0).finding) =
      if (sourceTree.parentOf c.val.sourceNodeRef).isSome then some (matchFinding result sourceTree localeTree policy c)
      else none := by
  unfold confirmedIssue CanonicalTree.parentOf
  cases hs : sourceTree.nodes.get? c.val.sourceNodeRef with
  | none => rfl
  | some node =>
    cases hp : node.parentRef with
    | none => simp [hp]
    | some p =>
      simp only [Option.bind_eq_bind, Option.bind_some, hp, if_neg (Option.some_ne_none p), Option.isSome_some, if_true]
      unfold matchFinding matchStatus
      rw [hs]
      rfl

theorem presenceDraft_finding (op : StructuralOperation) :
    (presenceDraft sourceTree localeTree locale policy op).map (fun draft => (draft 0).finding) =
      presenceFinding sourceTree localeTree locale policy op := by
  unfold presenceDraft presenceFinding
  cases op.val.type <;> cases op.val.sourceNodeRefs.head? <;> cases op.val.targetNodeRefs.head? <;> rfl

omit [PyRuntime] in
variable {locale policy sourceTree localeTree} in
theorem presenceFinding_delete {op : StructuralOperation} {s : NodeRef} {u : Bool} (hval : op.val = deleteFields u s) :
    presenceFinding sourceTree localeTree locale policy op = some (missingFinding sourceTree locale policy op s) := by
  unfold presenceFinding
  rw [hval]
  rfl

omit [PyRuntime] in
variable {locale policy sourceTree localeTree} in
theorem presenceFinding_insert {op : StructuralOperation} {t : NodeRef} {u : Bool} (hval : op.val = insertFields u t) :
    presenceFinding sourceTree localeTree locale policy op = some (extraFinding localeTree locale policy op t) := by
  unfold presenceFinding
  rw [hval]
  rfl

theorem drafts_findings : (drafts result sourceTree localeTree locale policy).map (fun draft => (draft 0).finding) =
    findings result sourceTree localeTree locale policy := by
  unfold drafts findings
  simp only [List.map_append, List.map_filterMap, confirmedIssue_finding, presenceDraft_finding, List.map_map]
  refine congrArg₂ _ ?_ rfl
  rw [← List.filterMap_eq_map, ← List.filterMap_eq_filter, List.filterMap_filterMap]
  refine List.filterMap_congr fun c _ => ?_
  cases hp : (sourceTree.parentOf c.val.sourceNodeRef).isSome <;> simp [Option.guard, hp]

/-! ## The findings of a localization result -/

variable (authoritativeSide : AuthoritativeSide)

omit [PyRuntime] in
/-- The finding contradicts an ambiguity: it says that an ambiguous node is present on one side only. -/
def Contradicts (f : Finding) : Prop :=
  (f.status = .missingInLocale ∧ ∃ s ∈ f.source,
      s ∈ result.matchGraph.ambiguous.map (·.val.sourceNodeRef) ++ result.alignment.unresolvedSourceRefs) ∨
    (f.status = .extraInLocale ∧ ∃ t ∈ f.locale,
      t ∈ result.matchGraph.ambiguous.map (·.val.targetNodeRef) ++ result.alignment.unresolvedTargetRefs)

instance (f : Finding) : Decidable (Contradicts result f) := inferInstanceAs (Decidable (_ ∨ _))

omit [PyRuntime] in
theorem contradictory_iff (issue : LocalizationIssue) : contradictory result issue = true ↔ Contradicts result issue.finding := by
  unfold contradictory Contradicts
  rw [Bool.or_eq_true, decide_eq_true_iff, decide_eq_true_iff]
  rfl

omit [PyRuntime] in
theorem attach_finding (links : Dict String (String × Score)) (issue : LocalizationIssue) :
    (attach links issue).finding = issue.finding ∧ (attach links issue).issueId = issue.issueId := by
  unfold attach
  split <;> exact ⟨rfl, rfl⟩

theorem interpret_findings : (interpret result sourceTree localeTree locale policy).map LocalizationIssue.finding =
    (findings result sourceTree localeTree locale policy).filter fun f => ¬ Contradicts result f := by
  have hkeep : (fun issue => !contradictory result issue) =
      (fun f => decide (¬ Contradicts result f)) ∘ LocalizationIssue.finding := by
    funext issue
    by_cases hc : Contradicts result issue.finding
    · simp [hc, (contradictory_iff result issue).mpr hc]
    · have hno : contradictory result issue = false := by
        rw [← Bool.not_eq_true, contradictory_iff]
        exact hc
      simp [hc, hno]
  unfold interpret withoutContradictoryPresence
  rw [hkeep, ← List.filter_map, ← drafts_findings, map_number fun draft hd => (steady_drafts draft hd).finding]

/-- The findings of a localization result are those that contradict no ambiguity. -/
theorem validate_findings :
    (validate result sourceTree localeTree locale authoritativeSide policy).issues.map LocalizationIssue.finding =
      (findings result sourceTree localeTree locale policy).filter fun f => ¬ Contradicts result f := by
  rw [← interpret_findings]
  show ((interpret result sourceTree localeTree locale policy).map _).map LocalizationIssue.finding = _
  rw [List.map_map]
  exact List.map_congr_left fun issue _ => (attach_finding _ issue).1

variable {result sourceTree localeTree locale policy}

omit [PyRuntime] in
theorem attach_severity (links : Dict String (String × Score)) (issue : LocalizationIssue) :
    (attach links issue).severity = issue.severity := by
  unfold attach
  split <;> rfl

/-- Every issue has the severity of its status. -/
theorem severity_eq {authoritativeSide : AuthoritativeSide} {issue : LocalizationIssue}
    (hissue : issue ∈ (validate result sourceTree localeTree locale authoritativeSide policy).issues) :
    issue.severity = severityOf issue.localizationStatus := by
  obtain ⟨issue, hin, rfl⟩ := List.mem_map.mp hissue
  rw [attach_severity, ← finding_status, (attach_finding _ issue).1]
  obtain ⟨hnumbered, -⟩ := List.mem_filter.mp hin
  obtain ⟨i, hi, rfl⟩ := List.mem_mapIdx.mp hnumbered
  exact (steady_drafts _ (List.getElem_mem hi)).graded (i + 1)

theorem mem_findings {f : Finding} : f ∈ findings result sourceTree localeTree locale policy ↔
    (∃ c ∈ result.matchGraph.confirmed, (∃ p, sourceTree.parentOf c.val.sourceNodeRef = some p) ∧
        matchFinding result sourceTree localeTree policy c = f) ∨
      (∃ c ∈ result.matchGraph.ambiguous, ambiguousFinding c.val.sourceNodeRef = f) ∨
      (∃ op ∈ result.operations.operations, op.val.type = .reorder ∧ reorderFinding op = f) ∨
      (∃ op ∈ result.operations.operations, presenceFinding sourceTree localeTree locale policy op = some f) ∨
      (∃ d ∈ result.diagnostics, d.code = "DUPLICATE_PERSISTENT_ID" ∧ conflictFinding = f) := by
  unfold findings
  simp only [List.mem_append, List.mem_map, List.mem_filter, mem_sortedBy, List.mem_dedup, List.mem_filterMap,
    decide_eq_true_eq, Option.isSome_iff_exists, and_assoc, exists_exists_and_eq_and]

/-- Some issue has the finding exactly when it is one, and it contradicts no ambiguity. -/
theorem exists_issue_iff {f : Finding} {authoritativeSide : AuthoritativeSide} :
    (∃ issue ∈ (validate result sourceTree localeTree locale authoritativeSide policy).issues, issue.finding = f) ↔
      f ∈ findings result sourceTree localeTree locale policy ∧ ¬ Contradicts result f := by
  rw [← List.mem_map, validate_findings, List.mem_filter, decide_eq_true_iff]

/-! ## Statuses -/

/-- The statuses of a correspondence. -/
def matchStatuses : List LocalizationStatus := [.confirmedMatch, .probableMatch, .wrongParent, .sourceUpdated]

theorem matchStatus_mem (c : MatchCandidate) : matchStatus result sourceTree localeTree policy c ∈ matchStatuses := by
  unfold matchStatus correspondenceStatus matchStatuses
  split_ifs <;> simp

theorem matchStatus_wrongParent (c : MatchCandidate) : matchStatus result sourceTree localeTree policy c = .wrongParent ↔
    ((moveIndex result).get? c.val.sourceNodeRef).isSome = true := by
  unfold matchStatus correspondenceStatus
  split_ifs <;> simp_all

omit [PyRuntime] in
theorem truthy_exemptionAt (operation : OperationType) (tree : CanonicalTree) (ref : NodeRef) :
    truthy (exemptionAt locale policy operation tree ref) = exemptionAt locale policy operation tree ref := by
  cases hrule : exemptionAt locale policy operation tree ref with
  | none => rfl
  | some rule =>
    refine Option.filter_some_pos (decide_eq_true ?_)
    unfold exemptionAt exemptionFor at hrule
    simp only [Option.bind_eq_bind, Option.bind_eq_some_iff] at hrule
    obtain ⟨policy, -, hrule⟩ := hrule
    split at hrule
    · cases hrule
    · obtain ⟨r, -, rfl⟩ := Option.map_eq_some_iff.mp hrule
      exact r.ruleId_ne

omit [PyRuntime] in
theorem presenceStatus_cases (exemption : Option String) (status : LocalizationStatus) :
    presenceStatus exemption status = status ∨ presenceStatus exemption status = .exemptLocaleVariation := by
  unfold presenceStatus
  split_ifs
  · exact Or.inr rfl
  · exact Or.inl rfl

omit [PyRuntime] in
/-- A presence finding has its own status when no rule permits it, and is exempt otherwise. -/
theorem presenceStatus_eq {operation : OperationType} {tree : CanonicalTree} {ref : NodeRef} {status : LocalizationStatus} :
    presenceStatus (exemptionAt locale policy operation tree ref) status =
      if exemptionAt locale policy operation tree ref = none then status else .exemptLocaleVariation := by
  unfold presenceStatus
  rw [truthy_exemptionAt]
  cases exemptionAt locale policy operation tree ref with
  | none => rfl
  | some rule => rfl

omit [PyRuntime] in
/-- A presence finding that is not exempt is one no rule permits. -/
theorem presenceStatus_own (operation : OperationType) (tree : CanonicalTree) (ref : NodeRef) (status : LocalizationStatus) :
    (presenceStatus (exemptionAt locale policy operation tree ref) status = status ∧
        exemptionAt locale policy operation tree ref = none) ∨
      presenceStatus (exemptionAt locale policy operation tree ref) status = .exemptLocaleVariation := by
  rw [presenceStatus_eq]
  by_cases hnone : exemptionAt locale policy operation tree ref = none
  · exact Or.inl ⟨if_pos hnone, hnone⟩
  · exact Or.inr (if_neg hnone)

variable (result sourceTree localeTree locale policy)

theorem interpret_ids : ((interpret result sourceTree localeTree locale policy).map LocalizationIssue.issueId).Nodup := by
  have hnumbered : ((number (drafts result sourceTree localeTree locale policy)).map LocalizationIssue.issueId).Nodup := by
    rw [number_ids fun draft hd => (steady_drafts draft hd).numbered]
    exact numbered_nodup "issue-" _
  exact hnumbered.sublist (List.filter_sublist.map _)

/-- No two issues share an id. -/
theorem issueIds_nodup :
    ((validate result sourceTree localeTree locale authoritativeSide policy).issues.map LocalizationIssue.issueId).Nodup := by
  show (((interpret result sourceTree localeTree locale policy).map _).map LocalizationIssue.issueId).Nodup
  rw [List.map_map, show LocalizationIssue.issueId ∘ attach _ = LocalizationIssue.issueId from
    funext fun issue => (attach_finding _ issue).2]
  exact interpret_ids result sourceTree localeTree locale policy

/-- The status counts add up to the number of issues. -/
theorem statusCounts_sum :
    (validate result sourceTree localeTree locale authoritativeSide policy).summary.statusCounts.values.sum =
      (validate result sourceTree localeTree locale authoritativeSide policy).issues.length := by
  show (Dict.tally _).values.sum = _
  rw [Dict.sum_tally, List.length_map]
  rfl

end Findings

/-! ## Recommendations -/

theorem repairOf_eq_some {issue : LocalizationIssue} {repair : Repair} : repairOf issue = some repair ↔
    statusOperation issue.localizationStatus = some repair.val ∧ issue.policyExemption = none := by
  unfold repairOf
  split
  · rename_i h
    simp [h]
  · rename_i operation h
    by_cases ha : issue.localizationStatus = .ambiguousMatch
    · rw [ha] at h
      cases h
    · by_cases he : issue.policyExemption = none
      · simp [ha, he, h, Subtype.ext_iff]
      · simp [ha, he]

/-- The recommendations are the repairs of the issues that have one. -/
theorem mem_recommend {issues : List LocalizationIssue} {side : AuthoritativeSide}
    {index : Dict String StructuralOperation} {r : RepairRecommendation} (h : r ∈ recommend issues side index) :
    ∃ issue ∈ issues, ∃ repair counter, repairOf issue = some repair ∧ r = recommendation side index counter issue repair := by
  obtain ⟨i, hi, rfl⟩ := List.mem_mapIdx.mp h
  obtain ⟨issue, hissue, he⟩ := List.mem_filterMap.mp (List.getElem_mem hi)
  obtain ⟨repair, hrepair, he⟩ := Option.map_eq_some_iff.mp he
  exact ⟨issue, hissue, repair, i + 1, hrepair, by rw [← he]⟩

theorem exists_recommend {issues : List LocalizationIssue} (side : AuthoritativeSide)
    (index : Dict String StructuralOperation) {issue : LocalizationIssue} {repair : Repair} (hissue : issue ∈ issues)
    (hrepair : repairOf issue = some repair) : ∃ counter, recommendation side index counter issue repair ∈
      recommend issues side index := by
  have hmem : (issue, repair) ∈ issues.filterMap fun issue => (repairOf issue).map fun repair => (issue, repair) :=
    List.mem_filterMap.mpr ⟨issue, hissue, by rw [hrepair]; rfl⟩
  obtain ⟨i, hi, he⟩ := List.mem_iff_getElem.mp hmem
  exact ⟨i + 1, List.mem_mapIdx.mpr ⟨i, hi, by rw [he]⟩⟩

/-- The status that calls for each repair. -/
theorem statusOperation_eq {status : LocalizationStatus} {operation : RepairOperation}
    (h : statusOperation status = some operation) : (status = .wrongParent ∧ operation = .moveNode) ∨
      (status = .wrongOrder ∧ operation = .reorderNodes) ∨ (status = .missingInLocale ∧ operation = .addNode) ∨
      (status = .extraInLocale ∧ operation = .removeNode) := by
  cases status <;> cases h <;> simp

/-- The recommendation repairs what the finding says. -/
structure Repairs (index : Dict String StructuralOperation) (f : Finding) (r : RepairRecommendation) : Prop where
  operation : statusOperation f.status = some r.operation
  not_exempt : f.exemption = none
  target : r.targetNodeRef = (truthy f.locale).or f.source
  destination : r.destinationParentRef = f.operationIds.findSome? fun id => (index.get? id).bind (·.val.fromParentRef)

/-- A finding with a locale node is repaired there. -/
theorem Repairs.target_locale {index : Dict String StructuralOperation} {f : Finding} {r : RepairRecommendation}
    (h : Repairs index f r) {t : NodeRef} (hlocale : f.locale = some t) (hne : t ≠ "") : r.targetNodeRef = some t := by
  have htruthy : truthy (some t) = some t := Option.filter_some_pos (decide_eq_true hne)
  rw [h.target, hlocale, htruthy, Option.some_or]

/-- A finding without a locale node is repaired at its source node. -/
theorem Repairs.target_source {index : Dict String StructuralOperation} {f : Finding} {r : RepairRecommendation}
    (h : Repairs index f r) (hlocale : f.locale = none) : r.targetNodeRef = f.source := by
  rw [h.target, hlocale]
  rfl

/-- The parent recorded for the only operation of a finding is the destination of its repair. -/
theorem Repairs.destination_single {index : Dict String StructuralOperation} {f : Finding} {r : RepairRecommendation}
    (h : Repairs index f r) {id : String} (hids : f.operationIds = [id]) :
    r.destinationParentRef = (index.get? id).bind (·.val.fromParentRef) := by
  rw [h.destination, hids]
  exact List.findSome?_singleton

theorem repairs_recommendation {side : AuthoritativeSide} {index : Dict String StructuralOperation} {counter : Nat}
    {issue : LocalizationIssue} {repair : Repair} (h : repairOf issue = some repair) :
    Repairs index issue.finding (recommendation side index counter issue repair) where
  operation := (repairOf_eq_some.mp h).1
  not_exempt := (repairOf_eq_some.mp h).2
  target := rfl
  destination := rfl

section Recommended
variable [PyRuntime] {result : ReconciliationResult} {sourceTree localeTree : CanonicalTree} {locale : String}
  {side : AuthoritativeSide} {policy : Option LocaleVariationPolicy}

/-- Every recommendation repairs the finding of an issue. -/
theorem recommended {r : RepairRecommendation}
    (h : r ∈ (validate result sourceTree localeTree locale side policy).recommendations) :
    r.targetSide = targetSide side ∧ ∃ issue ∈ (validate result sourceTree localeTree locale side policy).issues,
      issue.issueId = r.issueId ∧ Repairs (operationsById result) issue.finding r := by
  obtain ⟨issue, hissue, repair, counter, hrepair, rfl⟩ := mem_recommend h
  refine ⟨rfl, _, List.mem_map.mpr ⟨issue, hissue, rfl⟩, (attach_finding _ issue).2, ?_⟩
  rw [(attach_finding _ issue).1]
  exact repairs_recommendation hrepair

/-- The issue a recommendation names is the one it repairs. -/
theorem repairs_of_issueId {r : RepairRecommendation} {issue : LocalizationIssue}
    (hr : r ∈ (validate result sourceTree localeTree locale side policy).recommendations)
    (hissue : issue ∈ (validate result sourceTree localeTree locale side policy).issues)
    (hid : issue.issueId = r.issueId) : Repairs (operationsById result) issue.finding r := by
  obtain ⟨-, issue', hissue', hid', hrepairs⟩ := recommended hr
  rwa [List.inj_on_of_nodup_map (issueIds_nodup _ _ _ _ _ _) hissue hissue' (hid.trans hid'.symm)]

/-- A finding with a repair is repaired, unless it is exempt. -/
theorem exists_recommended {issue : LocalizationIssue} {operation : RepairOperation}
    (h : issue ∈ (validate result sourceTree localeTree locale side policy).issues)
    (hop : statusOperation issue.finding.status = some operation) (hexempt : issue.finding.exemption = none) :
    ∃ r ∈ (validate result sourceTree localeTree locale side policy).recommendations,
      r.issueId = issue.issueId ∧ Repairs (operationsById result) issue.finding r := by
  obtain ⟨issue, hissue, rfl⟩ := List.mem_map.mp h
  have hfinding := (attach_finding (attachments (recommend (interpret result sourceTree localeTree locale policy) side
    (operationsById result))) issue).1
  rw [hfinding] at hop hexempt
  have hrepair : repairOf issue = some ⟨operation, statusOperation_listed hop⟩ := repairOf_eq_some.mpr ⟨hop, hexempt⟩
  obtain ⟨counter, hr⟩ := exists_recommend side (operationsById result) hissue hrepair
  refine ⟨_, hr, (attach_finding _ issue).2.symm, ?_⟩
  rw [hfinding]
  exact repairs_recommendation hrepair

end Recommended

end Reconciliation.Localization
