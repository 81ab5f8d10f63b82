/-
  Reconciliation.Reports.Statuses — when the localization statuses of a complete result agree
  with each other, and when no repair is planned for a pair that is not sure.

  - The statuses agree exactly when no confirmed pair below the source root is detached,
    with the presence operation enabled and not permitted by the locale policy
    (`statuses_agree_iff`). A chapter that is recognised under another part with little
    confidence breaks it: it is matched, missing and extra at once
    (`driftingTopic_contradicts`).
  - The repairs are cautious exactly when no confirmed pair that crosses with less
    confidence than a move takes is in a reported region (`repairs_cautious_iff`). The same
    chapter is to be added and to be removed (`driftingTopic_repaired`).
-/
import Reconciliation.Reports.Findings

namespace Reconciliation.Reports

open Reconciliation.Base Reconciliation.Contracts Reconciliation.Evidence Reconciliation.Matching
  Reconciliation.Classification Reconciliation.Engine Reconciliation.Builders Reconciliation.Localization

/-! ## Statuses that agree -/

/-- No source node is matched or ambiguous and missing as well, no locale node matched and extra. -/
structure StatusesAgree (localized : LocalizationValidationResult) : Prop where
  source : ∀ issue ∈ localized.issues, ∀ other ∈ localized.issues, ∀ s, issue.sourceNodeRef = some s →
    other.sourceNodeRef = some s → issue.localizationStatus ∈ .ambiguousMatch :: matchStatuses →
      other.localizationStatus ≠ .missingInLocale
  locale : ∀ issue ∈ localized.issues, ∀ other ∈ localized.issues, ∀ t, issue.localeNodeRef = some t →
    other.localeNodeRef = some t → issue.localizationStatus ∈ matchStatuses → other.localizationStatus ≠ .extraInLocale

/-- A confirmed pair below the source root is detached on neither side where that is reported and not permitted. -/
structure Attached {command : ReconcileTreesCommand} (h : Admitted command) (evidence : EvidenceIndex) (locale : String)
    (policy : Option LocaleVariationPolicy) : Prop where
  source : .delete ∈ command.operationProfile.enabledOperations → ∀ s t,
    exemptionAt locale policy .delete command.sourceTree s = none →
      ¬ Detached (h.comparison evidence) (certainty evidence command.matchingProfile) command.operationProfile s t
  locale : .insert ∈ command.operationProfile.enabledOperations → ∀ s t, s ≠ command.sourceTree.rootNodeRef →
    exemptionAt locale policy .insert command.targetTree t = none →
      ¬ Detached (h.comparison evidence).swap (fun b a => certainty evidence command.matchingProfile a b)
        command.operationProfile t s

section Agreement
variable [PyRuntime] {command : ReconcileTreesCommand} {evidence : EvidenceIndex} {result : ReconciliationResult}
  {locale : String} {policy : Option LocaleVariationPolicy} {side : AuthoritativeSide}

/-- The source node of an ambiguous issue is open. -/
theorem open_of_ambiguous_issue (h : Admitted command) (hs : Stages command evidence result) {issue : LocalizationIssue}
    (hissue : issue ∈ (localize command result locale side policy).issues) {s : NodeRef}
    (hsource : issue.sourceNodeRef = some s) (hstatus : issue.localizationStatus = .ambiguousMatch) :
    (h.comparison evidence).Open s := by
  obtain ⟨hf, -⟩ := exists_issue_iff.mp ⟨issue, hissue, rfl⟩
  obtain ⟨c, hc, heq⟩ := ambiguous_finding h hs hf hstatus
  obtain rfl : s = c.val.sourceNodeRef := Option.some.inj (hsource.symm.trans (congrArg Finding.source heq))
  obtain ⟨hmem, hstate⟩ := MatchGraph.mem_ambiguous.mp hc
  exact ⟨_, ((hs.agrees h).unsettled_iff _ _).mp ⟨c, hmem, hstate, rfl, rfl⟩⟩

/-- An issue with a match status is about a pair. -/
theorem matchedIn_of_issue (h : Admitted command) (hs : Stages command evidence result) {issue : LocalizationIssue}
    (hissue : issue ∈ (localize command result locale side policy).issues)
    (hstatus : issue.localizationStatus ∈ matchStatuses) : ∃ s t, issue.sourceNodeRef = some s ∧
      issue.localeNodeRef = some t ∧ MatchedIn (localize command result locale side policy) s t := by
  obtain ⟨hf, -⟩ := exists_issue_iff.mp ⟨issue, hissue, rfl⟩
  obtain ⟨c, -, -, heq⟩ := match_finding h hs hf hstatus
  have hsource : issue.sourceNodeRef = some c.val.sourceNodeRef := congrArg Finding.source heq
  have hlocale : issue.localeNodeRef = some c.val.targetNodeRef := congrArg Finding.locale heq
  exact ⟨_, _, hsource, hlocale, issue, hissue, hstatus, hsource, hlocale⟩

/-- The statuses agree exactly when no confirmed pair below the source root is detached where that is
    reported and not permitted. -/
theorem statuses_agree_iff (hc : Completes command result) (h : Admitted command)
    (he : extract (normalizedSource command) (normalizedTarget command) = .ok evidence) :
    StatusesAgree (localize command result locale side policy) ↔ Attached h evidence locale policy := by
  have hs := stages_of_complete hc.1 hc.2 he
  constructor
  · intro hagree
    constructor
    · intro hen s t hexempt hdetached
      have habsent := (absent_matched_iff hdetached.1).mpr hdetached
      obtain ⟨hm, -, p, -, hp, -⟩ := hdetached
      have hmatched : MatchedIn (localize command result locale side policy) s t := (matchedIn_iff h hs).mpr ⟨hm, p, hp⟩
      have hmissing : MissingIn (localize command result locale side policy) s := (missing_iff h hs).mpr
        ⟨hen, habsent, fun ho => ho.not_matched hm, hexempt⟩
      obtain ⟨issue, hissue, hstatus, hsource, -⟩ := hmatched
      obtain ⟨other, hother, hmissing, hsource'⟩ := hmissing
      exact hagree.source issue hissue other hother s hsource hsource' (List.mem_cons_of_mem _ hstatus) hmissing
    · intro hen s t hroot hexempt hdetached
      have hm := hdetached.1
      obtain ⟨p, hp⟩ := ((h.source_node evidence s).mpr (correspondents_known h hs hm).1).parent_of_ne_root hroot
      have hmatched : MatchedIn (localize command result locale side policy) s t := (matchedIn_iff h hs).mpr ⟨hm, p, hp⟩
      have hextra : ExtraIn (localize command result locale side policy) t := (extra_iff h hs).mpr
        ⟨hen, (absent_matched_iff hm).mpr hdetached, fun ho => ho.not_matched hm, hexempt⟩
      obtain ⟨issue, hissue, hstatus, -, hlocale⟩ := hmatched
      obtain ⟨other, hother, hextra, hlocale'⟩ := hextra
      exact hagree.locale issue hissue other hother t hlocale hlocale' hstatus hextra
  · intro hattached
    constructor
    · intro issue hissue other hother s hsource hsource' hstatus hmissing
      obtain ⟨hen, habsent, ho, hexempt⟩ := (missing_iff h hs).mp ⟨other, hother, hmissing, hsource'⟩
      rcases List.mem_cons.mp hstatus with hambiguous | hmatch
      · exact ho (open_of_ambiguous_issue h hs hissue hsource hambiguous)
      · obtain ⟨s', t, hs', -, hmatched⟩ := matchedIn_of_issue h hs hissue hmatch
        obtain rfl := Option.some.inj (hsource.symm.trans hs')
        have hm := ((matchedIn_iff h hs).mp hmatched).1
        exact hattached.source hen s t hexempt ((absent_matched_iff hm).mp habsent)
    · intro issue hissue other hother t hlocale hlocale' hstatus hextra
      obtain ⟨hen, habsent, -, hexempt⟩ := (extra_iff h hs).mp ⟨other, hother, hextra, hlocale'⟩
      obtain ⟨s, t', -, ht', hmatched⟩ := matchedIn_of_issue h hs hissue hstatus
      obtain rfl := Option.some.inj (hlocale.symm.trans ht')
      obtain ⟨hm, p, hp⟩ := (matchedIn_iff h hs).mp hmatched
      have hroot : s ≠ command.sourceTree.rootNodeRef := Hierarchy.ne_root_of_parent hp
      exact hattached.locale hen s t hroot hexempt
        ((absent_matched_iff (D := (h.comparison evidence).swap) hm).mp habsent)

end Agreement

theorem revisedBook_statuses : ∃ result evidence, ∃ h : Admitted revisedBook, @Completes asciiRuntime revisedBook result ∧
    (StatusesAgree (@localize asciiRuntime revisedBook result "fr" .source none) ↔ Attached h evidence "fr" none) := by
  have hrun : Outcome.Returns (@reconcile asciiRuntime revisedBook) fun result => result.complete = true ∧ True := by
    decide +kernel
  obtain ⟨result, evidence, h, hc, -, he⟩ := @exists_completes asciiRuntime _ _ hrun
  exact ⟨result, evidence, h, hc, @statuses_agree_iff asciiRuntime _ _ _ _ _ _ hc h he⟩

/-- A topic is recognised by its title alone, and not below its part. -/
def driftingTopic : ReconcileTreesCommand :=
  defaultCommand
    (buildTree "book" [⟨"book", "map", none, [], []⟩, ⟨"part", "part", some "book", [("id", .str "p")], []⟩,
      ⟨"setup", "topic", some "part", [("id", .str "s")], [("title", .str "Setup")]⟩])
    (buildTree "livre" [⟨"livre", "map", none, [], []⟩, ⟨"partie", "part", some "livre", [("id", .str "p")], []⟩,
      ⟨"installation", "topic", some "livre", [], [("title", .str "Setup")]⟩])

/-- The topic is a probable match, missing in the locale, and extra there. -/
theorem driftingTopic_contradicts : ∃ result, @Completes asciiRuntime driftingTopic result ∧
    driftingTopic.operationProfile.unresolvedPresencePolicy ≠ .emitAll ∧
    ¬ StatusesAgree (@localize asciiRuntime driftingTopic result "fr" .source none) := by
  have hrun : Outcome.Returns (@reconcile asciiRuntime driftingTopic) fun result => result.complete = true ∧
      ∃ issue ∈ (@localize asciiRuntime driftingTopic result "fr" .source none).issues,
        ∃ other ∈ (@localize asciiRuntime driftingTopic result "fr" .source none).issues,
          issue.localizationStatus = .probableMatch ∧ issue.sourceNodeRef = some "setup" ∧
            other.localizationStatus = .missingInLocale ∧ other.sourceNodeRef = some "setup" := by
    decide +kernel
  obtain ⟨result, -, -, hc, ⟨issue, hissue, other, hother, hmatch, hsource, hmissing, hsource'⟩, -⟩ :=
    @exists_completes asciiRuntime _ _ hrun
  refine ⟨result, hc, by decide, fun hagree => ?_⟩
  refine hagree.source issue hissue other hother "setup" hsource hsource' ?_ hmissing
  rw [hmatch]
  decide

/-! ## Repairs that are sure -/

/-- The recommendation repairs an issue about the source node. -/
def AddressesSource (localized : LocalizationValidationResult) (r : RepairRecommendation) (s : NodeRef) : Prop :=
  ∃ issue ∈ localized.issues, issue.issueId = r.issueId ∧ issue.sourceNodeRef = some s

/-- The recommendation repairs an issue about the locale node. -/
def AddressesLocale (localized : LocalizationValidationResult) (r : RepairRecommendation) (t : NodeRef) : Prop :=
  ∃ issue ∈ localized.issues, issue.issueId = r.issueId ∧ issue.localeNodeRef = some t

/-- No recommendation adds, removes or moves a node of a confirmed pair that crosses with less
    confidence than a move takes, and none addresses an ambiguous node without a match. -/
structure Cautious (command : ReconcileTreesCommand) (result : ReconciliationResult)
    (localized : LocalizationValidationResult) : Prop where
  low : ∀ c ∈ result.matchGraph.confirmed,
    (context command result).isCrossParent c.val.sourceNodeRef c.val.targetNodeRef = .ok true ∧
      c.val.confidence.value < command.operationProfile.moveConfidenceThreshold →
    ∀ r ∈ localized.recommendations, r.operation ∈ [.addNode, .removeNode, .moveNode] →
      ¬ AddressesSource localized r c.val.sourceNodeRef ∧ ¬ AddressesLocale localized r c.val.targetNodeRef
  ambiguous_source : ∀ c ∈ result.matchGraph.ambiguous, (∀ t, ¬ result.matchGraph.Confirmed c.val.sourceNodeRef t) →
    ∀ r ∈ localized.recommendations, ¬ AddressesSource localized r c.val.sourceNodeRef
  ambiguous_locale : ∀ c ∈ result.matchGraph.ambiguous, (∀ s, ¬ result.matchGraph.Confirmed s c.val.targetNodeRef) →
    ∀ r ∈ localized.recommendations, ¬ AddressesLocale localized r c.val.targetNodeRef

/-- The absence of a pair that crosses with less certainty than a move takes is not reported on
    either side, or it is permitted. -/
structure Restrained {command : ReconcileTreesCommand} (h : Admitted command) (evidence : EvidenceIndex) (locale : String)
    (policy : Option LocaleVariationPolicy) : Prop where
  source : .delete ∈ command.operationProfile.enabledOperations → ∀ s t, (h.comparison evidence).Crosses s t →
    certainty evidence command.matchingProfile s t < command.operationProfile.moveConfidenceThreshold →
      exemptionAt locale policy .delete command.sourceTree s = none →
        ¬ Reportable (h.comparison evidence) command.operationProfile s
  locale : .insert ∈ command.operationProfile.enabledOperations → ∀ s t, (h.comparison evidence).Crosses s t →
    certainty evidence command.matchingProfile s t < command.operationProfile.moveConfidenceThreshold →
      exemptionAt locale policy .insert command.targetTree t = none →
        ¬ Reportable (h.comparison evidence).swap command.operationProfile t

section Repairing
variable [PyRuntime] {command : ReconcileTreesCommand} {evidence : EvidenceIndex} {result : ReconciliationResult}
  {locale : String} {policy : Option LocaleVariationPolicy} {side : AuthoritativeSide}
  {r : RepairRecommendation}

/-- A missing node is to be added. -/
theorem exists_addNode {s : NodeRef} (h : MissingIn (localize command result locale side policy) s)
    (hadmitted : Admitted command) (hs : Stages command evidence result) :
    ∃ r ∈ (localize command result locale side policy).recommendations, r.operation = .addNode ∧
      AddressesSource (localize command result locale side policy) r s := by
  obtain ⟨issue, hissue, hstatus, hsource⟩ := h
  obtain ⟨hf, -⟩ := exists_issue_iff.mp ⟨issue, hissue, rfl⟩
  obtain ⟨op, hop, s', u, hval, heq, hexempt⟩ := missing_finding hadmitted hs hf hstatus
  have hnone : issue.finding.exemption = none := by
    rw [heq]
    show exemptionAt locale policy op.val.type command.sourceTree s' = none
    rw [hval]
    exact hexempt
  have hoperation : statusOperation issue.finding.status = some .addNode := by
    rw [finding_status, hstatus]
    rfl
  obtain ⟨r, hr, hid, hrepairs⟩ := exists_recommended hissue hoperation hnone
  refine ⟨r, hr, Option.some.inj (hrepairs.operation.symm.trans hoperation), issue, hissue, hid.symm, hsource⟩

/-- An extra node is to be removed. -/
theorem exists_removeNode {t : NodeRef} (h : ExtraIn (localize command result locale side policy) t)
    (hadmitted : Admitted command) (hs : Stages command evidence result) :
    ∃ r ∈ (localize command result locale side policy).recommendations, r.operation = .removeNode ∧
      AddressesLocale (localize command result locale side policy) r t := by
  obtain ⟨issue, hissue, hstatus, hlocale⟩ := h
  obtain ⟨hf, -⟩ := exists_issue_iff.mp ⟨issue, hissue, rfl⟩
  obtain ⟨op, hop, t', u, hval, heq, hexempt⟩ := extra_finding hadmitted hs hf hstatus
  have hnone : issue.finding.exemption = none := by
    rw [heq]
    show exemptionAt locale policy op.val.type command.targetTree t' = none
    rw [hval]
    exact hexempt
  have hoperation : statusOperation issue.finding.status = some .removeNode := by
    rw [finding_status, hstatus]
    rfl
  obtain ⟨r, hr, hid, hrepairs⟩ := exists_recommended hissue hoperation hnone
  refine ⟨r, hr, Option.some.inj (hrepairs.operation.symm.trans hoperation), issue, hissue, hid.symm, hlocale⟩

/-- What a recommendation that addresses a source node is about: a move of the node, a reorder it
    comes first in, or its absence. -/
theorem addressesSource_cases (h : Admitted command) (hs : Stages command evidence result)
    (hr : r ∈ (localize command result locale side policy).recommendations) {s : NodeRef}
    (hin : AddressesSource (localize command result locale side policy) r s) :
    (r.operation = .moveNode ∧ ∃ t, Moved (h.comparison evidence) (certainty evidence command.matchingProfile)
        command.operationProfile s t) ∨
      (r.operation = .reorderNodes ∧ ∃ t, (h.comparison evidence).Matched s t) ∨
      (r.operation = .addNode ∧ MissingIn (localize command result locale side policy) s) := by
  obtain ⟨issue, hissue, hid, hsource⟩ := hin
  have hrepairs := repairs_of_issueId hr hissue hid
  rcases statusOperation_eq hrepairs.operation with ⟨hstatus, hop⟩ | ⟨hstatus, hop⟩ | ⟨hstatus, hop⟩ | ⟨hstatus, hop⟩
  · obtain ⟨s', t, hm, -, hs', -⟩ := wrongParent_issue h hs hissue hstatus
    obtain rfl := Option.some.inj (hsource.symm.trans hs')
    exact Or.inl ⟨hop, t, hm⟩
  · obtain ⟨p, q, -, -, -, hs', -⟩ := wrongOrder_issue h hs hissue hstatus
    have hhead : s ∈ (reorderOf (context command result) p q).sourceNodeRefs :=
      List.mem_of_mem_head? (hs'.symm.trans hsource)
    exact Or.inr (Or.inl ⟨hop, matched_of_reordered h hs hhead⟩)
  · exact Or.inr (Or.inr ⟨hop, issue, hissue, hstatus, hsource⟩)
  · obtain ⟨hf, -⟩ := exists_issue_iff.mp ⟨issue, hissue, rfl⟩
    obtain ⟨op, -, t, u, -, heq, -⟩ := extra_finding h hs hf hstatus
    exact absurd ((congrArg Finding.source heq).symm.trans hsource) (by simp [extraFinding])

/-- What a recommendation that addresses a locale node is about: a move of the node, or its absence. -/
theorem addressesLocale_cases (h : Admitted command) (hs : Stages command evidence result)
    (hr : r ∈ (localize command result locale side policy).recommendations) {t : NodeRef}
    (hin : AddressesLocale (localize command result locale side policy) r t) :
    (r.operation = .moveNode ∧ ∃ s, Moved (h.comparison evidence) (certainty evidence command.matchingProfile)
        command.operationProfile s t) ∨
      (r.operation = .removeNode ∧ ExtraIn (localize command result locale side policy) t) := by
  obtain ⟨issue, hissue, hid, hlocale⟩ := hin
  have hrepairs := repairs_of_issueId hr hissue hid
  rcases statusOperation_eq hrepairs.operation with ⟨hstatus, hop⟩ | ⟨hstatus, hop⟩ | ⟨hstatus, hop⟩ | ⟨hstatus, hop⟩
  · obtain ⟨s, t', hm, -, -, ht', -⟩ := wrongParent_issue h hs hissue hstatus
    obtain rfl := Option.some.inj (hlocale.symm.trans ht')
    exact Or.inl ⟨hop, s, hm⟩
  · obtain ⟨p, q, -, -, -, -, hnone, -⟩ := wrongOrder_issue h hs hissue hstatus
    exact absurd (hlocale.symm.trans hnone) (by simp)
  · obtain ⟨hf, -⟩ := exists_issue_iff.mp ⟨issue, hissue, rfl⟩
    obtain ⟨op, -, s, u, -, heq, -⟩ := missing_finding h hs hf hstatus
    exact absurd ((congrArg Finding.locale heq).symm.trans hlocale) (by simp [missingFinding])
  · exact Or.inr ⟨hop, issue, hissue, hstatus, hlocale⟩

/-- Repairs are cautious exactly when no pair that crosses with less confidence than a move takes is
    in a reported region on a side where presence is reported and not permitted. -/
theorem repairs_cautious_iff (hc : Completes command result) (h : Admitted command)
    (he : extract (normalizedSource command) (normalizedTarget command) = .ok evidence) :
    Cautious command result (localize command result locale side policy) ↔ Restrained h evidence locale policy := by
  have hs := stages_of_complete hc.1 hc.2 he
  constructor
  · intro hcautious
    constructor
    · intro hen s t hcross hlow hexempt hrep
      obtain ⟨c, hmem, hstate, rfl, rfl⟩ := ((hs.agrees h).matched_iff s t).mpr hcross.1
      have hconfirmed := MatchGraph.mem_confirmed.mpr ⟨hmem, hstate⟩
      have hmissing : MissingIn (localize command result locale side policy) c.val.sourceNodeRef := (missing_iff h hs).mpr
        ⟨hen, (absent_crossing_iff hcross hlow).mpr hrep, fun ho => ho.not_matched hcross.1, hexempt⟩
      obtain ⟨r, hr, hop, hin⟩ := exists_addNode hmissing h hs
      exact (hcautious.low c hconfirmed ((low_iff h hs hconfirmed).mpr ⟨hcross, hlow⟩) r hr (by simp [hop])).1 hin
    · intro hen s t hcross hlow hexempt hrep
      obtain ⟨c, hmem, hstate, rfl, rfl⟩ := ((hs.agrees h).matched_iff s t).mpr hcross.1
      have hconfirmed := MatchGraph.mem_confirmed.mpr ⟨hmem, hstate⟩
      have hextra : ExtraIn (localize command result locale side policy) c.val.targetNodeRef := (extra_iff h hs).mpr
        ⟨hen, (absent_crossing_swap_iff hcross hlow).mpr hrep, fun ho => ho.not_matched hcross.1, hexempt⟩
      obtain ⟨r, hr, hop, hin⟩ := exists_removeNode hextra h hs
      exact (hcautious.low c hconfirmed ((low_iff h hs hconfirmed).mpr ⟨hcross, hlow⟩) r hr (by simp [hop])).2 hin
  · intro hrestrained
    constructor
    · intro c hconfirmed hlow r hr hoperation
      obtain ⟨hcross, hlow⟩ := (low_iff h hs hconfirmed).mp hlow
      constructor
      · intro hin
        rcases addressesSource_cases h hs hr hin with ⟨-, t, hm⟩ | ⟨hop, -⟩ | ⟨-, hmissing⟩
        · rw [(h.comparison evidence).target_unique hcross.1 hm.1.1] at hlow
          exact absurd hm.2 (not_le.mpr hlow)
        · simp [hop] at hoperation
        · obtain ⟨hen, habsent, -, hexempt⟩ := (missing_iff h hs).mp hmissing
          exact hrestrained.source hen _ _ hcross hlow hexempt ((absent_crossing_iff hcross hlow).mp habsent)
      · intro hin
        rcases addressesLocale_cases h hs hr hin with ⟨-, s, hm⟩ | ⟨-, hextra⟩
        · rw [(h.comparison evidence).source_unique hcross.1 hm.1.1] at hlow
          exact absurd hm.2 (not_le.mpr hlow)
        · obtain ⟨hen, habsent, -, hexempt⟩ := (extra_iff h hs).mp hextra
          exact hrestrained.locale hen _ _ hcross hlow hexempt ((absent_crossing_swap_iff hcross hlow).mp habsent)
    · intro c hc hno r hr hin
      obtain ⟨hmem, hstate⟩ := MatchGraph.mem_ambiguous.mp hc
      have hedge := ((hs.agrees h).unsettled_iff _ _).mp ⟨c, hmem, hstate, rfl, rfl⟩
      rcases addressesSource_cases h hs hr hin with ⟨-, t, hm⟩ | ⟨-, t, hm⟩ | ⟨-, hmissing⟩
      · exact hno t (((hs.agrees h).matched_iff _ _).mpr hm.1.1)
      · exact hno t (((hs.agrees h).matched_iff _ _).mpr hm)
      · exact ((missing_iff h hs).mp hmissing).2.2.1 ⟨_, hedge⟩
    · intro c hc hno r hr hin
      obtain ⟨hmem, hstate⟩ := MatchGraph.mem_ambiguous.mp hc
      have hedge := ((hs.agrees h).unsettled_iff _ _).mp ⟨c, hmem, hstate, rfl, rfl⟩
      rcases addressesLocale_cases h hs hr hin with ⟨-, s, hm⟩ | ⟨-, hextra⟩
      · exact hno s (((hs.agrees h).matched_iff _ _).mpr hm.1.1)
      · exact ((extra_iff h hs).mp hextra).2.2.1 ⟨_, hedge⟩

end Repairing

theorem revisedBook_cautious : ∃ result evidence, ∃ h : Admitted revisedBook, @Completes asciiRuntime revisedBook result ∧
    (Cautious revisedBook result (@localize asciiRuntime revisedBook result "fr" .locale none) ↔
      Restrained h evidence "fr" none) := by
  have hrun : Outcome.Returns (@reconcile asciiRuntime revisedBook) fun result => result.complete = true ∧ True := by
    decide +kernel
  obtain ⟨result, evidence, h, hc, -, he⟩ := @exists_completes asciiRuntime _ _ hrun
  exact ⟨result, evidence, h, hc, @repairs_cautious_iff asciiRuntime _ _ _ _ _ _ hc h he⟩

/-- The topic that is a confirmed match of low confidence is to be added. -/
theorem driftingTopic_repaired : ∃ result, @Completes asciiRuntime driftingTopic result ∧
    ¬ Cautious driftingTopic result (@localize asciiRuntime driftingTopic result "fr" .source none) := by
  have hrun : Outcome.Returns (@reconcile asciiRuntime driftingTopic) fun result => result.complete = true ∧
      (∃ c ∈ result.matchGraph.confirmed, c.val.sourceNodeRef = "setup" ∧
        (context driftingTopic result).isCrossParent c.val.sourceNodeRef c.val.targetNodeRef = .ok true ∧
          c.val.confidence.value < driftingTopic.operationProfile.moveConfidenceThreshold) ∧
      ∃ r ∈ (@localize asciiRuntime driftingTopic result "fr" .source none).recommendations, r.operation = .addNode ∧
        ∃ issue ∈ (@localize asciiRuntime driftingTopic result "fr" .source none).issues,
          issue.issueId = r.issueId ∧ issue.sourceNodeRef = some "setup" := by
    decide +kernel
  obtain ⟨result, -, -, hcompletes, ⟨⟨c, hc, hsource, hlow⟩, r, hr, hop, issue, hissue, hid, hs⟩, -⟩ :=
    @exists_completes asciiRuntime _ _ hrun
  refine ⟨result, hcompletes, fun hcautious => ?_⟩
  have hin : AddressesSource (@localize asciiRuntime driftingTopic result "fr" .source none) r c.val.sourceNodeRef :=
    ⟨issue, hissue, hid, by rw [hs, hsource]⟩
  exact (hcautious.low c hc hlow r hr (by rw [hop]; decide)).1 hin

end Reconciliation.Reports
