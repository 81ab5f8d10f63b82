/-
  Reconciliation.Reports.Repairs — when the repairs of a complete result can be carried out
  on the tree they are for.

  The plan is written for an authoritative source: a missing node is to be added and an extra
  one removed whichever side is authoritative, and the parent of a move is a node of the
  locale tree. So the repairs point the right way exactly when the exceptions of each side do
  not occur (`directed_iff`): no matched node is to be added or removed, and a reorder names
  a node the locale tree has as well; or, for an authoritative locale, nothing is to be added
  or removed, and a move names nodes the source tree has as well.
-/
import Reconciliation.Reports.Statuses

namespace Reconciliation.Reports

open Reconciliation.Base Reconciliation.Contracts Reconciliation.Evidence Reconciliation.Matching
  Reconciliation.Alignment Reconciliation.Classification Reconciliation.Engine Reconciliation.Builders
  Reconciliation.Localization

/-! ## Repairs that point the right way -/

def treeOf (command : ReconcileTreesCommand) : AuthoritativeSide → CanonicalTree
  | .source => command.sourceTree
  | .locale => command.targetTree

/-- The node of the issue on a side. -/
def refOn (issue : LocalizationIssue) : AuthoritativeSide → Option NodeRef
  | .source => issue.sourceNodeRef
  | .locale => issue.localeNodeRef

/-- A node of the side's tree that is matched with none of the other. -/
def OnlyOn (command : ReconcileTreesCommand) (result : ReconciliationResult) (side : AuthoritativeSide) (ref : NodeRef) : Prop :=
  ref ∈ (treeOf command side).nodes.keys ∧
    match side with
    | .source => ∀ t, ¬ result.matchGraph.Confirmed ref t
    | .locale => ∀ s, ¬ result.matchGraph.Confirmed s ref

/-- What is added is only on the authoritative side, what is removed only on the other, and what is
    moved, reordered or removed, and where a node is moved to, are nodes of the other tree. -/
structure Directed (command : ReconcileTreesCommand) (result : ReconciliationResult)
    (localized : LocalizationValidationResult) : Prop where
  added : ∀ r ∈ localized.recommendations, r.operation = .addNode → ∀ issue ∈ localized.issues,
    issue.issueId = r.issueId → ∃ ref, refOn issue localized.authoritativeSide = some ref ∧
      OnlyOn command result localized.authoritativeSide ref
  removed : ∀ r ∈ localized.recommendations, r.operation = .removeNode → ∀ issue ∈ localized.issues,
    issue.issueId = r.issueId → ∃ ref, refOn issue r.targetSide = some ref ∧ OnlyOn command result r.targetSide ref
  target : ∀ r ∈ localized.recommendations, r.operation ∈ [.moveNode, .reorderNodes, .removeNode] →
    ∃ ref, r.targetNodeRef = some ref ∧ ref ∈ (treeOf command r.targetSide).nodes.keys
  destination : ∀ r ∈ localized.recommendations, ∀ q, r.destinationParentRef = some q →
    q ∈ (treeOf command r.targetSide).nodes.keys

/-- The parent the result records for a move, by the id of its operation. -/
def recordedParent (result : ReconciliationResult) (operationId : String) : Option NodeRef :=
  ((operationsById result).get? operationId).bind (·.val.fromParentRef)

section Conditions
variable {command : ReconcileTreesCommand} (h : Admitted command) (evidence : EvidenceIndex) (result : ReconciliationResult)
  (locale : String) (policy : Option LocaleVariationPolicy)

/-- The absence of the source node is reported as missing. -/
def ReportsMissing (s : NodeRef) : Prop := .delete ∈ command.operationProfile.enabledOperations ∧
  Absent (h.comparison evidence) (certainty evidence command.matchingProfile) command.operationProfile s ∧
  ¬ (h.comparison evidence).Open s ∧ exemptionAt locale policy .delete command.sourceTree s = none

/-- The absence of the target node is reported as extra. -/
def ReportsExtra (t : NodeRef) : Prop := .insert ∈ command.operationProfile.enabledOperations ∧
  Absent (h.comparison evidence).swap (fun b a => certainty evidence command.matchingProfile a b) command.operationProfile t ∧
  ¬ (h.comparison evidence).swap.Open t ∧ exemptionAt locale policy .insert command.targetTree t = none

/-- For an authoritative source: no pair is detached where that is reported and not permitted, and a
    reorder starts with a child whose reference the locale tree has as well. -/
structure SourceLeads : Prop where
  missing : .delete ∈ command.operationProfile.enabledOperations → ∀ s t,
    exemptionAt locale policy .delete command.sourceTree s = none →
      ¬ Detached (h.comparison evidence) (certainty evidence command.matchingProfile) command.operationProfile s t
  extra : .insert ∈ command.operationProfile.enabledOperations → ∀ s t,
    exemptionAt locale policy .insert command.targetTree t = none →
      ¬ Detached (h.comparison evidence).swap (fun b a => certainty evidence command.matchingProfile a b)
        command.operationProfile t s
  reordered : .reorder ∈ command.operationProfile.enabledOperations → ∀ p q, (h.comparison evidence).Paired p q →
    Shuffled (context command result) command.alignmentProfile p q →
      ∀ s, (reorderOf (context command result) p q).sourceNodeRefs.head? = some s → s ∈ command.targetTree.nodes.keys

/-- For an authoritative locale: no node is reported on one side only, and a move is of a node, and to
    a parent, whose references the source tree has as well. -/
structure LocaleLeads : Prop where
  missing : ∀ s, ¬ ReportsMissing h evidence locale policy s
  extra : ∀ t, ¬ ReportsExtra h evidence locale policy t
  moved : .move ∈ command.operationProfile.enabledOperations → ∀ s t,
    Moved (h.comparison evidence) (certainty evidence command.matchingProfile) command.operationProfile s t →
      t ∈ command.sourceTree.nodes.keys ∧
        ∀ q, recordedParent result (moveOf (context command result) s t).operationId = some q →
          q ∈ command.sourceTree.nodes.keys

def Leads : AuthoritativeSide → Prop
  | .source => SourceLeads h evidence result locale policy
  | .locale => LocaleLeads h evidence result locale policy

end Conditions

section Directions
variable [PyRuntime] {command : ReconcileTreesCommand} {evidence : EvidenceIndex} {result : ReconciliationResult}
  {locale : String} {policy : Option LocaleVariationPolicy} {side : AuthoritativeSide} (h : Admitted command)
  (hs : Stages command evidence result)

include h hs

/-- The operation an id is looked up as has the type of every operation with the id. -/
theorem looked_up {op op' : StructuralOperation} (hop : op ∈ result.operations.operations)
    (hget : (operationsById result).get? op.val.operationId = some op') :
    op' ∈ result.operations.operations ∧ op'.val.type = op.val.type := by
  obtain ⟨x, hx, he⟩ := List.mem_map.mp (Dict.mem_of_get?_ofPairs hget)
  obtain ⟨hid, rfl⟩ := Prod.mk.inj he
  exact ⟨hx, ((hs.reported h x).mp hx).type_eq ((hs.reported h op).mp hop) hid⟩

/-- No parent is recorded for an operation that is no move. -/
theorem recordedParent_none {op : StructuralOperation} (hop : op ∈ result.operations.operations)
    (htype : op.val.type ≠ .move) : recordedParent result op.val.operationId = none := by
  unfold recordedParent
  cases hget : (operationsById result).get? op.val.operationId with
  | none => rfl
  | some op' =>
    obtain ⟨hop', htype'⟩ := looked_up h hs hop hget
    have hreported := (hs.reported h op').mp hop'
    rw [← htype'] at htype
    show op'.val.fromParentRef = none
    generalize op'.val = x at hreported htype
    cases hreported with
    | moved hm hen => exact absurd rfl htype
    | _ => rfl

/-- The parent recorded for an operation is a node of the locale tree. -/
theorem recordedParent_known {id : String} {q : NodeRef} (hq : recordedParent result id = some q) :
    q ∈ command.targetTree.nodes.keys := by
  obtain ⟨op, hget, hfrom⟩ := Option.bind_eq_some_iff.mp hq
  obtain ⟨x, hx, he⟩ := List.mem_map.mp (Dict.mem_of_get?_ofPairs hget)
  obtain ⟨-, rfl⟩ := Prod.mk.inj he
  have hreported := (hs.reported h x).mp hx
  generalize x.val = y at hreported hfrom
  cases hreported with
  | moved hm hen =>
    obtain ⟨p, -, hp⟩ := Option.bind_eq_some_iff.mp hfrom
    exact (correspondents_known h hs (((hs.agrees h).matched_iff p q).mp (MatchGraph.confirmedTargetFor_eq_some.mp hp))).2
  | _ => cases hfrom

/-- What a recommendation and its issue are about: a move, a reorder, a missing or an extra node. -/
theorem repair_cases {r : RepairRecommendation} {issue : LocalizationIssue}
    (hr : r ∈ (localize command result locale side policy).recommendations)
    (hissue : issue ∈ (localize command result locale side policy).issues) (hid : issue.issueId = r.issueId) :
    (∃ s t, r.operation = .moveNode ∧ Moved (h.comparison evidence) (certainty evidence command.matchingProfile)
        command.operationProfile s t ∧ .move ∈ command.operationProfile.enabledOperations ∧ r.targetNodeRef = some t ∧
        r.destinationParentRef = recordedParent result (moveOf (context command result) s t).operationId) ∨
      (∃ p q s, r.operation = .reorderNodes ∧ (h.comparison evidence).Paired p q ∧
        Shuffled (context command result) command.alignmentProfile p q ∧
        .reorder ∈ command.operationProfile.enabledOperations ∧
        (reorderOf (context command result) p q).sourceNodeRefs.head? = some s ∧ r.targetNodeRef = some s ∧
        r.destinationParentRef = none) ∨
      (∃ s, r.operation = .addNode ∧ issue.sourceNodeRef = some s ∧ issue.localeNodeRef = none ∧
        MissingIn (localize command result locale side policy) s ∧ r.destinationParentRef = none) ∨
      (∃ t, r.operation = .removeNode ∧ issue.sourceNodeRef = none ∧ issue.localeNodeRef = some t ∧
        ExtraIn (localize command result locale side policy) t ∧ r.targetNodeRef = some t ∧
        r.destinationParentRef = none) := by
  have hrepairs := repairs_of_issueId hr hissue hid
  obtain ⟨hf, -⟩ := exists_issue_iff.mp ⟨issue, hissue, rfl⟩
  rcases statusOperation_eq hrepairs.operation with ⟨hstatus, hop⟩ | ⟨hstatus, hop⟩ | ⟨hstatus, hop⟩ | ⟨hstatus, hop⟩
  · obtain ⟨s, t, hm, hen, -, ht, hids⟩ := wrongParent_issue h hs hissue hstatus
    exact Or.inl ⟨s, t, hop, hm, hen, hrepairs.target_locale ht (CanonicalTree.ref_ne_empty (correspondents_known h hs hm.1.1).2),
      hrepairs.destination_single hids⟩
  · obtain ⟨p, q, hpq, hsh, hen, hsource, hlocale, hids⟩ := wrongOrder_issue h hs hissue hstatus
    obtain ⟨op, hmem, hval⟩ := hs.exists_op h (Reported.reordered hpq hsh hen)
    have hnone := recordedParent_none h hs hmem (by rw [hval]; simp)
    rw [hval] at hnone
    obtain ⟨s, hhead⟩ : ∃ s, (reorderOf (context command result) p q).sourceNodeRefs.head? = some s := by
      have htwo : 2 ≤ (reorderOf (context command result) p q).sourceNodeRefs.length := by
        simpa [reorderOf] using two_le_of_orderChanged hsh.2
      rw [← Option.isSome_iff_exists, List.isSome_head?]
      exact List.length_pos_iff.mp (by omega)
    refine Or.inr (Or.inl ⟨p, q, s, hop, hpq, hsh, hen, hhead, ?_, (hrepairs.destination_single hids).trans hnone⟩)
    rw [hrepairs.target_source hlocale, finding_source, hsource, hhead]
  · obtain ⟨op, hmem, s, u, hval, heq, -⟩ := missing_finding h hs hf hstatus
    have hsource : issue.sourceNodeRef = some s := congrArg Finding.source heq
    refine Or.inr (Or.inr (Or.inl ⟨s, hop, hsource, congrArg Finding.locale heq, ⟨issue, hissue, hstatus, hsource⟩, ?_⟩))
    exact (hrepairs.destination_single (congrArg Finding.operationIds heq)).trans (recordedParent_none h hs hmem (by rw [hval]; simp))
  · obtain ⟨op, hmem, t, u, hval, heq, -⟩ := extra_finding h hs hf hstatus
    have hlocale : issue.localeNodeRef = some t := congrArg Finding.locale heq
    have hextra : ExtraIn (localize command result locale side policy) t := ⟨issue, hissue, hstatus, hlocale⟩
    obtain ⟨-, ⟨q, p, halone, -⟩, -⟩ := (extra_iff h hs).mp hextra
    have hkey := (h.target_node evidence t).mp (Hierarchy.node_of_parent halone.2.1)
    refine Or.inr (Or.inr (Or.inr ⟨t, hop, congrArg Finding.source heq, hlocale, hextra,
      hrepairs.target_locale hlocale (CanonicalTree.ref_ne_empty hkey), ?_⟩))
    exact (hrepairs.destination_single (congrArg Finding.operationIds heq)).trans (recordedParent_none h hs hmem (by rw [hval]; simp))

/-- A reported move is to be carried out. -/
theorem exists_moveNode {s t : NodeRef}
    (hm : Moved (h.comparison evidence) (certainty evidence command.matchingProfile) command.operationProfile s t)
    (hen : .move ∈ command.operationProfile.enabledOperations) :
    ∃ r ∈ (localize command result locale side policy).recommendations, r.operation = .moveNode ∧
      r.targetNodeRef = some t ∧
      r.destinationParentRef = recordedParent result (moveOf (context command result) s t).operationId := by
  have hmoved : ∃ issue ∈ (localize command result locale side policy).issues, issue.finding =
      ⟨.wrongParent, some s, some t, [(moveOf (context command result) s t).operationId], none⟩ :=
    exists_wrongParent_issue h hs hm hen
  obtain ⟨issue, hissue, hf⟩ := hmoved
  have hoperation : statusOperation issue.finding.status = some .moveNode := by rw [hf]; rfl
  obtain ⟨r, hr, hid, hrepairs⟩ := exists_recommended hissue hoperation (by rw [hf])
  rw [hf] at hrepairs
  refine ⟨r, hr, (Option.some.inj hrepairs.operation).symm, ?_, hrepairs.destination_single rfl⟩
  exact hrepairs.target_locale rfl (CanonicalTree.ref_ne_empty (correspondents_known h hs hm.1.1).2)

/-- A reported reorder is to be carried out, from its first child on. -/
theorem exists_reorderNodes {p q : NodeRef} (hpq : (h.comparison evidence).Paired p q)
    (hsh : Shuffled (context command result) command.alignmentProfile p q)
    (hen : .reorder ∈ command.operationProfile.enabledOperations) :
    ∃ r ∈ (localize command result locale side policy).recommendations, r.operation = .reorderNodes ∧
      r.targetNodeRef = (reorderOf (context command result) p q).sourceNodeRefs.head? := by
  have hreordered : ∃ issue ∈ (localize command result locale side policy).issues, issue.finding =
      ⟨.wrongOrder, (reorderOf (context command result) p q).sourceNodeRefs.head?, none,
        [(reorderOf (context command result) p q).operationId], none⟩ :=
    exists_wrongOrder_issue h hs hpq hsh hen
  obtain ⟨issue, hissue, hf⟩ := hreordered
  have hoperation : statusOperation issue.finding.status = some .reorderNodes := by rw [hf]; rfl
  obtain ⟨r, hr, hid, hrepairs⟩ := exists_recommended hissue hoperation (by rw [hf])
  rw [hf] at hrepairs
  exact ⟨r, hr, (Option.some.inj hrepairs.operation).symm, hrepairs.target_source rfl⟩

omit h hs in
/-- The issue of a recommendation. -/
theorem exists_issue_of {r : RepairRecommendation} (hr : r ∈ (localize command result locale side policy).recommendations) :
    r.targetSide = targetSide side ∧
      ∃ issue ∈ (localize command result locale side policy).issues, issue.issueId = r.issueId := by
  obtain ⟨hside, issue, hissue, hid, -⟩ := recommended hr
  exact ⟨hside, issue, hissue, hid⟩

/-! ## An authoritative source -/

theorem sourceLeads_of_directed (hd : Directed command result (localize command result locale .source policy)) :
    SourceLeads h evidence result locale policy := by
  constructor
  · intro hen s t hexempt hdetached
    have hm := hdetached.1
    have hmissing : MissingIn (localize command result locale .source policy) s := (missing_iff h hs).mpr
      ⟨hen, (absent_matched_iff hm).mpr hdetached, fun ho => ho.not_matched hm, hexempt⟩
    obtain ⟨r, hr, hop, issue, hissue, hid, hsource⟩ := exists_addNode hmissing h hs
    obtain ⟨ref, href, -, hno⟩ := hd.added r hr hop issue hissue hid
    obtain rfl : s = ref := Option.some.inj (hsource.symm.trans href)
    exact hno t (((hs.agrees h).matched_iff s t).mpr hm)
  · intro hen s t hexempt hdetached
    have hm := hdetached.1
    have hextra : ExtraIn (localize command result locale .source policy) t := (extra_iff h hs).mpr
      ⟨hen, (absent_matched_iff hm).mpr hdetached, fun ho => ho.not_matched hm, hexempt⟩
    obtain ⟨r, hr, hop, issue, hissue, hid, hlocale⟩ := exists_removeNode hextra h hs
    obtain ⟨ref, href, -, hno⟩ := hd.removed r hr hop issue hissue hid
    rw [(exists_issue_of hr).1] at href hno
    obtain rfl : t = ref := Option.some.inj (hlocale.symm.trans href)
    exact hno s (((hs.agrees h).matched_iff s t).mpr hm)
  · intro hen p q hpq hsh s hhead
    have hrepair : ∃ r ∈ (localize command result locale .source policy).recommendations, r.operation = .reorderNodes ∧
        r.targetNodeRef = (reorderOf (context command result) p q).sourceNodeRefs.head? :=
      exists_reorderNodes h hs hpq hsh hen
    obtain ⟨r, hr, hop, htarget⟩ := hrepair
    obtain ⟨ref, href, hkey⟩ := hd.target r hr (by simp [hop])
    rw [(exists_issue_of hr).1] at hkey
    obtain rfl : s = ref := Option.some.inj (hhead.symm.trans (htarget.symm.trans href))
    exact hkey

theorem directed_of_sourceLeads (hl : SourceLeads h evidence result locale policy) :
    Directed command result (localize command result locale .source policy) := by
  constructor
  · intro r hr hop issue hissue hid
    rcases repair_cases h hs hr hissue hid with ⟨_, _, hop', _⟩ | ⟨_, _, _, hop', _⟩ | ⟨s, -, hsource, -, hmissing, -⟩ | ⟨_, hop', _⟩
    · exact absurd (hop.symm.trans hop') (by simp)
    · exact absurd (hop.symm.trans hop') (by simp)
    · obtain ⟨hen, habsent, -, hexempt⟩ := (missing_iff h hs).mp hmissing
      refine ⟨s, hsource, ?_, fun t hconfirmed => ?_⟩
      · obtain ⟨p, q, halone, -⟩ := habsent
        exact (h.source_node evidence s).mp (Hierarchy.node_of_parent halone.2.1)
      · have hm := ((hs.agrees h).matched_iff s t).mp hconfirmed
        exact hl.missing hen s t hexempt ((absent_matched_iff hm).mp habsent)
    · exact absurd (hop.symm.trans hop') (by simp)
  · intro r hr hop issue hissue hid
    rw [(exists_issue_of hr).1]
    rcases repair_cases h hs hr hissue hid with ⟨_, _, hop', _⟩ | ⟨_, _, _, hop', _⟩ | ⟨_, hop', _⟩ | ⟨t, -, -, hlocale, hextra, -⟩
    · exact absurd (hop.symm.trans hop') (by simp)
    · exact absurd (hop.symm.trans hop') (by simp)
    · exact absurd (hop.symm.trans hop') (by simp)
    · obtain ⟨hen, habsent, -, hexempt⟩ := (extra_iff h hs).mp hextra
      refine ⟨t, hlocale, ?_, fun s hconfirmed => ?_⟩
      · obtain ⟨q, p, halone, -⟩ := habsent
        exact (h.target_node evidence t).mp (Hierarchy.node_of_parent halone.2.1)
      · have hm := ((hs.agrees h).matched_iff s t).mp hconfirmed
        exact hl.extra hen s t hexempt ((absent_matched_iff (D := (h.comparison evidence).swap) hm).mp habsent)
  · intro r hr hop
    obtain ⟨hside, issue, hissue, hid⟩ := exists_issue_of hr
    rw [hside]
    rcases repair_cases h hs hr hissue hid with ⟨s, t, -, hm, -, htarget, -⟩ | ⟨p, q, s, -, hpq, hsh, hen, hhead, htarget, -⟩ |
      ⟨_, hop', _⟩ | ⟨t, -, -, -, hextra, htarget, -⟩
    · exact ⟨t, htarget, (correspondents_known h hs hm.1.1).2⟩
    · exact ⟨s, htarget, hl.reordered hen p q hpq hsh s hhead⟩
    · simp [hop'] at hop
    · obtain ⟨-, ⟨q, p, halone, -⟩, -⟩ := (extra_iff h hs).mp hextra
      exact ⟨t, htarget, (h.target_node evidence t).mp (Hierarchy.node_of_parent halone.2.1)⟩
  · intro r hr q hq
    obtain ⟨hside, issue, hissue, hid⟩ := exists_issue_of hr
    rw [hside]
    rcases repair_cases h hs hr hissue hid with ⟨s, t, -, -, -, -, hdest⟩ | ⟨_, _, _, _, _, _, _, _, _, hdest⟩ |
      ⟨_, _, _, _, _, hdest⟩ | ⟨_, _, _, _, _, _, hdest⟩
    · exact recordedParent_known h hs (hdest.symm.trans hq)
    · exact absurd (hdest.symm.trans hq) (by simp)
    · exact absurd (hdest.symm.trans hq) (by simp)
    · exact absurd (hdest.symm.trans hq) (by simp)

/-! ## An authoritative locale -/

theorem localeLeads_of_directed (hd : Directed command result (localize command result locale .locale policy)) :
    LocaleLeads h evidence result locale policy := by
  constructor
  · intro s hreports
    have hmissing : MissingIn (localize command result locale .locale policy) s := (missing_iff h hs).mpr hreports
    obtain ⟨r, hr, hop, issue, hissue, hid, hsource⟩ := exists_addNode hmissing h hs
    obtain ⟨ref, href, -⟩ := hd.added r hr hop issue hissue hid
    rcases repair_cases h hs hr hissue hid with ⟨_, _, hop', _⟩ | ⟨_, _, _, hop', _⟩ | ⟨_, -, -, hnone, -⟩ | ⟨_, hop', _⟩
    · exact absurd (hop.symm.trans hop') (by simp)
    · exact absurd (hop.symm.trans hop') (by simp)
    · exact absurd (hnone.symm.trans href) (by simp)
    · exact absurd (hop.symm.trans hop') (by simp)
  · intro t hreports
    have hextra : ExtraIn (localize command result locale .locale policy) t := (extra_iff h hs).mpr hreports
    obtain ⟨r, hr, hop, issue, hissue, hid, hlocale⟩ := exists_removeNode hextra h hs
    obtain ⟨ref, href, -⟩ := hd.removed r hr hop issue hissue hid
    rw [(exists_issue_of hr).1] at href
    rcases repair_cases h hs hr hissue hid with ⟨_, _, hop', _⟩ | ⟨_, _, _, hop', _⟩ | ⟨_, hop', _⟩ | ⟨_, -, hnone, -⟩
    · exact absurd (hop.symm.trans hop') (by simp)
    · exact absurd (hop.symm.trans hop') (by simp)
    · exact absurd (hop.symm.trans hop') (by simp)
    · exact absurd (hnone.symm.trans href) (by simp)
  · intro hen s t hm
    have hrepair : ∃ r ∈ (localize command result locale .locale policy).recommendations, r.operation = .moveNode ∧
        r.targetNodeRef = some t ∧
        r.destinationParentRef = recordedParent result (moveOf (context command result) s t).operationId :=
      exists_moveNode h hs hm hen
    obtain ⟨r, hr, hop, htarget, hdest⟩ := hrepair
    have hside := (exists_issue_of hr).1
    obtain ⟨ref, href, hkey⟩ := hd.target r hr (by simp [hop])
    rw [hside] at hkey
    obtain rfl : t = ref := Option.some.inj (htarget.symm.trans href)
    refine ⟨hkey, fun q hq => ?_⟩
    have hkey' := hd.destination r hr q (hdest.trans hq)
    rwa [hside] at hkey'

theorem directed_of_localeLeads (hl : LocaleLeads h evidence result locale policy) :
    Directed command result (localize command result locale .locale policy) := by
  have hmissing : ∀ s, ¬ MissingIn (localize command result locale .locale policy) s :=
    fun s hmissing => hl.missing s ((missing_iff h hs).mp hmissing)
  have hextra : ∀ t, ¬ ExtraIn (localize command result locale .locale policy) t :=
    fun t hextra => hl.extra t ((extra_iff h hs).mp hextra)
  constructor
  · intro r hr hop issue hissue hid
    rcases repair_cases h hs hr hissue hid with ⟨_, _, hop', _⟩ | ⟨_, _, _, hop', _⟩ | ⟨s, -, -, -, hm, -⟩ | ⟨_, hop', _⟩
    · exact absurd (hop.symm.trans hop') (by simp)
    · exact absurd (hop.symm.trans hop') (by simp)
    · exact absurd hm (hmissing s)
    · exact absurd (hop.symm.trans hop') (by simp)
  · intro r hr hop issue hissue hid
    rcases repair_cases h hs hr hissue hid with ⟨_, _, hop', _⟩ | ⟨_, _, _, hop', _⟩ | ⟨_, hop', _⟩ | ⟨t, -, -, -, he, -⟩
    · exact absurd (hop.symm.trans hop') (by simp)
    · exact absurd (hop.symm.trans hop') (by simp)
    · exact absurd (hop.symm.trans hop') (by simp)
    · exact absurd he (hextra t)
  · intro r hr hop
    obtain ⟨hside, issue, hissue, hid⟩ := exists_issue_of hr
    rw [hside]
    rcases repair_cases h hs hr hissue hid with ⟨s, t, -, hm, hen, htarget, -⟩ | ⟨p, q, s, -, -, -, -, hhead, htarget, -⟩ |
      ⟨_, hop', _⟩ | ⟨t, -, -, -, he, -⟩
    · exact ⟨t, htarget, (hl.moved hen s t hm).1⟩
    · obtain ⟨t, hm⟩ := matched_of_reordered h hs (List.mem_of_mem_head? hhead)
      exact ⟨s, htarget, (correspondents_known h hs hm).1⟩
    · simp [hop'] at hop
    · exact absurd he (hextra t)
  · intro r hr q hq
    obtain ⟨hside, issue, hissue, hid⟩ := exists_issue_of hr
    rw [hside]
    rcases repair_cases h hs hr hissue hid with ⟨s, t, -, hm, hen, -, hdest⟩ | ⟨_, _, _, _, _, _, _, _, _, hdest⟩ |
      ⟨_, _, _, _, _, hdest⟩ | ⟨_, _, _, _, _, _, hdest⟩
    · exact (hl.moved hen s t hm).2 q (hdest.symm.trans hq)
    · exact absurd (hdest.symm.trans hq) (by simp)
    · exact absurd (hdest.symm.trans hq) (by simp)
    · exact absurd (hdest.symm.trans hq) (by simp)

end Directions

/-- The repairs point the right way exactly when the exceptions of the authoritative side do not occur. -/
theorem directed_iff [PyRuntime] {command : ReconcileTreesCommand} {evidence : EvidenceIndex} {result : ReconciliationResult}
    (hc : Completes command result) (h : Admitted command)
    (he : extract (normalizedSource command) (normalizedTarget command) = .ok evidence) (locale : String)
    (policy : Option LocaleVariationPolicy) (side : AuthoritativeSide) :
    Directed command result (localize command result locale side policy) ↔ Leads h evidence result locale policy side := by
  have hs := stages_of_complete hc.1 hc.2 he
  cases side with
  | source => exact ⟨sourceLeads_of_directed h hs, directed_of_sourceLeads h hs⟩
  | locale => exact ⟨localeLeads_of_directed h hs, directed_of_localeLeads h hs⟩

theorem revisedBook_directed_iff : ∃ result evidence, ∃ h : Admitted revisedBook, @Completes asciiRuntime revisedBook result ∧
    (Directed revisedBook result (@localize asciiRuntime revisedBook result "fr" .source none) ↔
      Leads h evidence result "fr" none .source) := by
  have hrun : Outcome.Returns (@reconcile asciiRuntime revisedBook) fun result => result.complete = true ∧ True := by
    decide +kernel
  obtain ⟨result, evidence, h, hc, -, he⟩ := @exists_completes asciiRuntime _ _ hrun
  exact ⟨result, evidence, h, hc, @directed_iff asciiRuntime _ _ _ hc h he "fr" none .source⟩

/-- With an authoritative locale the topic that only the source has is to be added, to the source. -/
theorem revisedBook_misdirected : ∃ result, @Completes asciiRuntime revisedBook result ∧
    ¬ Directed revisedBook result (@localize asciiRuntime revisedBook result "fr" .locale none) := by
  have hrun : Outcome.Returns (@reconcile asciiRuntime revisedBook) fun result => result.complete = true ∧
      ∃ r ∈ (@localize asciiRuntime revisedBook result "fr" .locale none).recommendations, r.operation = .addNode ∧
        ∃ issue ∈ (@localize asciiRuntime revisedBook result "fr" .locale none).issues,
          issue.issueId = r.issueId ∧ issue.localeNodeRef = none := by
    decide +kernel
  obtain ⟨result, -, -, hc, ⟨r, hr, hop, issue, hissue, hid, hnone⟩, -⟩ := @exists_completes asciiRuntime _ _ hrun
  refine ⟨result, hc, fun hd => ?_⟩
  obtain ⟨ref, href, -⟩ := hd.added r hr hop issue hissue hid
  exact absurd (hnone.symm.trans href) (by simp)

end Reconciliation.Reports
