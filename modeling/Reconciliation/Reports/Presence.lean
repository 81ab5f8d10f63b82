/-
  Reconciliation.Reports.Presence — what a complete result says about each node.

  - No node is lost, unless whole regions are withheld (`every_node_accounted`).
  - Verdicts are exclusive exactly when, in every reported region, the match of a child has
    a parent, and that parent is the region's if the two are paired (`exclusive_iff`). A root
    matched with a node that is no root breaks it (`nestedBook_not_exclusive`).
  - Reported absence is sound exactly when the absent nodes lose, or are ignored, fairly
    (`absence_sound_iff`). A source that loses its pick and is never offered its second
    choice breaks it (`copiedStep_absence_unsound`).
-/
import Reconciliation.Builders
import Reconciliation.Reports.Occurrences

namespace Reconciliation.Reports

open Reconciliation.Base Reconciliation.Base.ClearChoice.Table Reconciliation.Contracts Reconciliation.Evidence
  Reconciliation.Matching Reconciliation.Classification Reconciliation.Engine Reconciliation.Builders

/-! ## No node is lost -/

/-- The node's parent is no root and has no confirmed counterpart. -/
def ParentUnmatched (tree : CanonicalTree) (matched : NodeRef → Prop) (ref : NodeRef) : Prop :=
  ∃ p, tree.parentOf ref = some p ∧ p ≠ tree.rootNodeRef ∧ ¬ matched p

/-- Every node below the root is in an operation, ambiguous, or below an unmatched parent. -/
structure Accounted (command : ReconcileTreesCommand) (result : ReconciliationResult) : Prop where
  source : ∀ s ∈ command.sourceTree.nodes.keys, s ≠ command.sourceTree.rootNodeRef →
    SourceIn result [.match_, .update, .move, .delete] s ∨ (∃ t, result.matchGraph.Ambiguous s t) ∨
      ParentUnmatched command.sourceTree (fun p => ∃ q, result.matchGraph.Confirmed p q) s
  target : ∀ t ∈ command.targetTree.nodes.keys, t ≠ command.targetTree.rootNodeRef →
    TargetIn result [.match_, .update, .move, .insert] t ∨ (∃ s, result.matchGraph.Ambiguous s t) ∨
      ParentUnmatched command.targetTree (fun q => ∃ p, result.matchGraph.Confirmed p q) t

section Lost
variable [PyRuntime] {command : ReconcileTreesCommand} {result : ReconciliationResult}

theorem every_node_accounted (hc : Completes command result) (hall : AllEnabled command.operationProfile)
    (hpolicy : command.operationProfile.unresolvedPresencePolicy ≠ .suppressUnresolvedRegions) :
    Accounted command result := by
  obtain ⟨h, evidence, hs⟩ := hc.exists_stages
  constructor
  · intro s hmem hroot
    obtain ⟨p, hp⟩ := ((h.source_node evidence s).mpr hmem).parent_of_ne_root hroot
    rw [show [OperationType.match_, .update, .move, .delete] = [.match_, .update] ++ ([.move] ++ [.delete]) from rfl,
      sourceIn_append, sourceIn_append, kept_source_iff h hs hall, moved_source_iff h hs hall, deleted_iff h hs]
    rcases accounted (certainty evidence command.matchingProfile) hpolicy hp with
      ha | hm | habsent | hopen | ⟨hne, hno⟩
    · exact Or.inl (Or.inl ha)
    · exact Or.inl (Or.inr (Or.inl hm))
    · exact Or.inl (Or.inr (Or.inr ⟨hall _ (by decide), habsent⟩))
    · obtain ⟨t, hedge⟩ := hopen
      exact Or.inr (Or.inl ⟨t, (ambiguous_iff hs.matched).mpr hedge⟩)
    · refine Or.inr (Or.inr ⟨p, by rw [← h.source_parent evidence]; exact hp, hne, ?_⟩)
      intro hx
      obtain ⟨q, hq⟩ := hx
      exact hno q ((confirmed_iff hs.matched).mp hq)
  · intro t hmem hroot
    obtain ⟨q, hq⟩ := ((h.target_node evidence t).mpr hmem).parent_of_ne_root hroot
    rw [show [OperationType.match_, .update, .move, .insert] = [.match_, .update] ++ ([.move] ++ [.insert]) from rfl,
      targetIn_append, targetIn_append, kept_target_iff h hs hall, moved_target_iff h hs hall, inserted_iff h hs]
    have hparent : (h.comparison evidence).swap.source.parent t = some q := hq
    rcases accounted (fun b a => certainty evidence command.matchingProfile a b) hpolicy hparent with
      ⟨s, ha⟩ | ⟨s, hm⟩ | habsent | hopen | ⟨hne, hno⟩
    · exact Or.inl (Or.inl ⟨s, Comparison.aligned_swap.mp ha⟩)
    · exact Or.inl (Or.inr (Or.inl ⟨s, moved_swap.mp hm⟩))
    · exact Or.inl (Or.inr (Or.inr ⟨hall _ (by decide), habsent⟩))
    · obtain ⟨s, hedge⟩ := hopen
      exact Or.inr (Or.inl ⟨s, (ambiguous_iff hs.matched).mpr hedge⟩)
    · refine Or.inr (Or.inr ⟨q, by rw [← h.target_parent evidence]; exact hq, hne, ?_⟩)
      intro hx
      obtain ⟨p, hp⟩ := hx
      exact hno p ((confirmed_iff hs.matched).mp hp)

end Lost

/-- A chapter is renamed, another one moves into a new part, and a third one is gone. -/
def revisedBook : ReconcileTreesCommand :=
  defaultCommand
    (buildTree "book" [⟨"book", "map", none, [], []⟩, ⟨"intro", "topic", some "book", [("id", .str "i")], [("title", .str "Intro")]⟩,
      ⟨"setup", "topic", some "book", [("id", .str "s")], []⟩, ⟨"errata", "topic", some "book", [("id", .str "e")], []⟩])
    (buildTree "book" [⟨"book", "map", none, [], []⟩, ⟨"intro", "topic", some "book", [("id", .str "i")], [("title", .str "Preface")]⟩,
      ⟨"part", "part", some "book", [], []⟩, ⟨"setup", "topic", some "part", [("id", .str "s")], []⟩])

theorem revisedBook_accounted : ∃ result, @Completes asciiRuntime revisedBook result ∧ Accounted revisedBook result := by
  have hrun : Outcome.Returns (@reconcile asciiRuntime revisedBook) fun result => result.complete = true ∧
      SourceIn result [.update] "intro" ∧ SourceIn result [.move] "setup" ∧ SourceIn result [.delete] "errata" := by
    decide +kernel
  obtain ⟨result, -, -, hc, -⟩ := @exists_completes asciiRuntime _ _ hrun
  exact ⟨result, hc, @every_node_accounted asciiRuntime _ _ hc (by decide) (by decide)⟩

/-! ## Verdicts are exclusive -/

/-- No node is kept or moved and absent as well, and a confirmed node is absent only when the
    pair crosses with less confidence than a move takes. -/
structure Exclusive (command : ReconcileTreesCommand) (result : ReconciliationResult) : Prop where
  source : ∀ s, SourceIn result [.match_, .update, .move] s → ¬ SourceIn result [.delete] s
  target : ∀ t, TargetIn result [.match_, .update, .move] t → ¬ TargetIn result [.insert] t
  deleted_low : ∀ c ∈ result.matchGraph.confirmed, SourceIn result [.delete] c.val.sourceNodeRef →
    (context command result).isCrossParent c.val.sourceNodeRef c.val.targetNodeRef = .ok true ∧
      c.val.confidence.value < command.operationProfile.moveConfidenceThreshold
  inserted_low : ∀ c ∈ result.matchGraph.confirmed, TargetIn result [.insert] c.val.targetNodeRef →
    (context command result).isCrossParent c.val.sourceNodeRef c.val.targetNodeRef = .ok true ∧
      c.val.confidence.value < command.operationProfile.moveConfidenceThreshold

section Exclusion
variable [PyRuntime] {command : ReconcileTreesCommand} {evidence : EvidenceIndex} {result : ReconciliationResult}

/-- A confirmed candidate crosses with less confidence than a move takes, in the terms of the comparison. -/
theorem low_iff (h : Admitted command) (hs : Stages command evidence result) {c : MatchCandidate}
    (hc : c ∈ result.matchGraph.confirmed) :
    ((context command result).isCrossParent c.val.sourceNodeRef c.val.targetNodeRef = .ok true ∧
      c.val.confidence.value < command.operationProfile.moveConfidenceThreshold) ↔
    (h.comparison evidence).Crosses c.val.sourceNodeRef c.val.targetNodeRef ∧
      certainty evidence command.matchingProfile c.val.sourceNodeRef c.val.targetNodeRef <
        command.operationProfile.moveConfidenceThreshold := by
  obtain ⟨hc, hstate⟩ := MatchGraph.mem_confirmed.mp hc
  have hm := ((hs.agrees h).matched_iff _ _).mp ⟨c, hc, hstate, rfl, rfl⟩
  obtain ⟨cross, hrun, hcross⟩ := (hs.agrees h).isCrossParent_run hm
  rw [hrun, (hs.agrees h).certain c hc hstate, ← hcross, Except.ok.injEq]

/-- Verdicts are exclusive exactly when the match of every child lies in a single region, on both sides. -/
theorem exclusive_iff (hc : Completes command result) (hall : AllEnabled command.operationProfile)
    (h : Admitted command) (he : extract (normalizedSource command) (normalizedTarget command) = .ok evidence) :
    Exclusive command result ↔ SingleRegion (h.comparison evidence) command.operationProfile ∧
      SingleRegion (h.comparison evidence).swap command.operationProfile := by
  have hs := stages_of_complete hc.1 hc.2 he
  rw [← absent_iff_low (certainty evidence command.matchingProfile),
    ← absent_iff_low (fun b a => certainty evidence command.matchingProfile a b)]
  constructor
  · intro hex
    constructor
    · intro s t hm habsent
      obtain ⟨c, hc, hstate, rfl, rfl⟩ := ((hs.agrees h).matched_iff s t).mpr hm
      have hconfirmed := MatchGraph.mem_confirmed.mpr ⟨hc, hstate⟩
      exact (low_iff h hs hconfirmed).mp (hex.deleted_low c hconfirmed ((deleted_iff h hs).mpr ⟨hall _ (by decide), habsent⟩))
    · intro t s hm habsent
      obtain ⟨c, hc, hstate, rfl, rfl⟩ := ((hs.agrees h).matched_iff s t).mpr hm
      have hconfirmed := MatchGraph.mem_confirmed.mpr ⟨hc, hstate⟩
      have hlow := (low_iff h hs hconfirmed).mp
        (hex.inserted_low c hconfirmed ((inserted_iff h hs).mpr ⟨hall _ (by decide), habsent⟩))
      exact ⟨Comparison.crosses_swap.mpr hlow.1, hlow.2⟩
  · intro hlow
    obtain ⟨hsource, htarget⟩ := hlow
    constructor
    · intro s hkept hdeleted
      obtain ⟨-, habsent⟩ := (deleted_iff h hs).mp hdeleted
      rw [show [OperationType.match_, .update, .move] = [.match_, .update] ++ [.move] from rfl, sourceIn_append,
        kept_source_iff h hs hall, moved_source_iff h hs hall] at hkept
      rcases hkept with ⟨t, ha⟩ | ⟨t, hm⟩
      · exact ha.not_crosses (hsource s t ha.1 habsent).1
      · obtain ⟨-, -, -, -, hno⟩ := habsent
        exact hno t hm
    · intro t hkept hinserted
      obtain ⟨-, habsent⟩ := (inserted_iff h hs).mp hinserted
      rw [show [OperationType.match_, .update, .move] = [.match_, .update] ++ [.move] from rfl, targetIn_append,
        kept_target_iff h hs hall, moved_target_iff h hs hall] at hkept
      rcases hkept with ⟨s, ha⟩ | ⟨s, hm⟩
      · exact ha.not_crosses (Comparison.crosses_swap.mp (htarget t s ha.1 habsent).1)
      · obtain ⟨-, -, -, -, hno⟩ := habsent
        exact hno s (moved_swap.mpr hm)
    · intro c hc hdeleted
      obtain ⟨hmem, hstate⟩ := MatchGraph.mem_confirmed.mp hc
      have hm := ((hs.agrees h).matched_iff _ _).mp ⟨c, hmem, hstate, rfl, rfl⟩
      exact (low_iff h hs hc).mpr (hsource _ _ hm ((deleted_iff h hs).mp hdeleted).2)
    · intro c hc hinserted
      obtain ⟨hmem, hstate⟩ := MatchGraph.mem_confirmed.mp hc
      have hm := ((hs.agrees h).matched_iff _ _).mp ⟨c, hmem, hstate, rfl, rfl⟩
      obtain ⟨hcross, hlt⟩ := htarget _ _ hm ((inserted_iff h hs).mp hinserted).2
      exact (low_iff h hs hc).mpr ⟨Comparison.crosses_swap.mp hcross, hlt⟩

end Exclusion

theorem revisedBook_exclusive_iff : ∃ result evidence, ∃ h : Admitted revisedBook,
    @Completes asciiRuntime revisedBook result ∧ (Exclusive revisedBook result ↔
      SingleRegion (h.comparison evidence) revisedBook.operationProfile ∧
        SingleRegion (h.comparison evidence).swap revisedBook.operationProfile) := by
  have hrun : Outcome.Returns (@reconcile asciiRuntime revisedBook) fun result => result.complete = true ∧ True := by
    decide +kernel
  obtain ⟨result, evidence, h, hc, -, he⟩ := @exists_completes asciiRuntime _ _ hrun
  exact ⟨result, evidence, h, hc, @exclusive_iff asciiRuntime _ _ _ hc (by decide) h he⟩

/-- The source root is a chapter of the target, and its own chapter lies beside it there. -/
def nestedBook : ReconcileTreesCommand :=
  defaultCommand
    (buildTree "book" [⟨"book", "topic", none, [("id", .str "b")], []⟩, ⟨"setup", "topic", some "book", [("id", .str "s")], []⟩])
    (buildTree "shelf" [⟨"shelf", "topic", none, [], []⟩, ⟨"book", "topic", some "shelf", [("id", .str "b")], []⟩,
      ⟨"setup", "topic", some "shelf", [("id", .str "s")], []⟩])

/-- A source root matched with a node that is no root: its child is kept and deleted at once. -/
theorem nestedBook_not_exclusive : Outcome.Returns (@reconcile asciiRuntime nestedBook) fun result =>
    result.complete = true ∧ AllEnabled nestedBook.operationProfile ∧
      SourceIn result [.match_, .update, .move] "setup" ∧ SourceIn result [.delete] "setup" := by
  decide +kernel

/-! ## Absence is sound -/

/-- No hard constraint stands against the pair, and its score is good enough for a match. -/
def Viable (evidence : EvidenceIndex) (profile : MatchingProfile) (s t : NodeRef) : Prop :=
  ∃ source ∈ evidence.source.val.get? s, ∃ target ∈ evidence.target.val.get? t,
    Compatible source target profile ∧ profile.matchThreshold ≤ (scorePair source target profile).value

instance (evidence : EvidenceIndex) (profile : MatchingProfile) (s t : NodeRef) : Decidable (Viable evidence profile s t) :=
  inferInstanceAs (Decidable (∃ _ ∈ _, ∃ _ ∈ _, _ ∧ _))

/-- No unconfirmed node is reported absent that is viable with an unconfirmed node of the other tree. -/
structure AbsenceSound (command : ReconcileTreesCommand) (evidence : EvidenceIndex) (result : ReconciliationResult) : Prop where
  deleted : ∀ s, SourceIn result [.delete] s → (∀ t, ¬ result.matchGraph.Confirmed s t) →
    ∀ t, (∀ s', ¬ result.matchGraph.Confirmed s' t) → ¬ Viable evidence command.matchingProfile s t
  inserted : ∀ t, TargetIn result [.insert] t → (∀ s, ¬ result.matchGraph.Confirmed s t) →
    ∀ s, (∀ t', ¬ result.matchGraph.Confirmed s t') → ¬ Viable evidence command.matchingProfile s t

/-- Every free node that is reportable and in no edge loses, or is ignored, fairly. -/
structure FairlyAbsent {command : ReconcileTreesCommand} (h : Admitted command) (evidence : EvidenceIndex) : Prop where
  source : .delete ∈ command.operationProfile.enabledOperations → ∀ s ∈ freeSources evidence command.matchingProfile,
    Reportable (h.comparison evidence) command.operationProfile s →
    (∀ t, ¬ (table evidence command.matchingProfile).Edge s t) → (table evidence command.matchingProfile).LosesFairly s
  target : .insert ∈ command.operationProfile.enabledOperations → ∀ t ∈ freeTargets evidence command.matchingProfile,
    Reportable (h.comparison evidence).swap command.operationProfile t →
    (∀ s, ¬ (table evidence command.matchingProfile).Edge s t) → (table evidence command.matchingProfile).IgnoredFairly t

section Absence
variable [PyRuntime] {command : ReconcileTreesCommand} {evidence : EvidenceIndex} {result : ReconciliationResult}

omit [PyRuntime] in
/-- Between free nodes, a viable pair is one that is admissible with a score good enough. -/
theorem viable_iff {profile : MatchingProfile} {s t : NodeRef} (hs : ∀ t, ¬ Corresponding evidence profile s t)
    (ht : ∀ s, ¬ Corresponding evidence profile s t) :
    Viable evidence profile s t ↔ ∃ v, (table evidence profile).Admits s t v ∧ profile.matchThreshold ≤ v := by
  simp only [admits_iff, mem_freeSources, mem_freeTargets, Dict.mem_keys]
  constructor
  · intro hv
    obtain ⟨source, hsource, target, htarget, hcomp, hscore⟩ := hv
    exact ⟨_, ⟨⟨⟨source, hsource⟩, fun t' ha => hs t' (Or.inl ha)⟩, ⟨⟨target, htarget⟩, fun s' ha => ht s' (Or.inl ha)⟩,
      source, target, hsource, htarget, hcomp, rfl, profile.probable_le_match.trans hscore⟩, hscore⟩
  · intro hv
    obtain ⟨v, ⟨-, -, source, target, hsource, htarget, hcomp, rfl, -⟩, hthr⟩ := hv
    exact ⟨source, hsource, target, htarget, hcomp, hthr⟩

/-- Reported absence is sound exactly when the nodes reported absent lose, or are ignored, fairly. -/
theorem absence_sound_iff (hc : Completes command result)
    (hpolicy : command.operationProfile.unresolvedPresencePolicy ≠ .emitAll) (h : Admitted command)
    (he : extract (normalizedSource command) (normalizedTarget command) = .ok evidence) :
    AbsenceSound command evidence result ↔ FairlyAbsent h evidence := by
  have hs := stages_of_complete hc.1 hc.2 he
  have hconf : ∀ s t, result.matchGraph.Confirmed s t ↔ Corresponding evidence command.matchingProfile s t :=
    fun s t => confirmed_iff hs.matched
  constructor
  · intro hsound
    constructor
    · intro hen s hfree hrep hno
      rw [losesFairly_iff]
      intro hns t v hv hthr
      by_contra hnone
      have hsno := unmatched_source hfree hns
      have htno := unmatched_target hv.2.1 (not_exists.mp hnone)
      have hdeleted : SourceIn result [.delete] s :=
        (deleted_iff h hs).mpr ⟨hen, (absent_unmatched_iff hpolicy hsno).mpr ⟨hrep, not_exists.mpr hno⟩⟩
      exact hsound.deleted s hdeleted (fun t' hm => hsno t' ((hconf s t').mp hm)) t
        (fun s' hm => htno s' ((hconf s' t).mp hm)) ((viable_iff hsno htno).mpr ⟨v, hv, hthr⟩)
    · intro hen t hfree hrep hno
      rw [ignoredFairly_iff hno]
      intro hns s v hv hthr
      by_contra hnone
      have htno := unmatched_target hfree hns
      have hsno := unmatched_source hv.1 (not_exists.mp hnone)
      have hinserted : TargetIn result [.insert] t := (inserted_iff h hs).mpr
        ⟨hen, (absent_unmatched_iff (D := (h.comparison evidence).swap) hpolicy htno).mpr ⟨hrep, not_exists.mpr hno⟩⟩
      exact hsound.inserted t hinserted (fun s' hm => htno s' ((hconf s' t).mp hm)) s
        (fun t' hm => hsno t' ((hconf s t').mp hm)) ((viable_iff hsno htno).mpr ⟨v, hv, hthr⟩)
  · intro hfair
    constructor
    · intro s hdeleted hsno t htno hviable
      simp only [hconf] at hsno htno
      obtain ⟨v, hv, hthr⟩ := (viable_iff hsno htno).mp hviable
      obtain ⟨hen, habsent⟩ := (deleted_iff h hs).mp hdeleted
      obtain ⟨hrep, hopen⟩ := (absent_unmatched_iff hpolicy hsno).mp habsent
      have hloses := losesFairly_iff.mp (hfair.source hen s hv.1 hrep (not_exists.mp hopen))
      obtain ⟨s', hsettles⟩ := hloses (fun t' hm => hsno t' (Or.inr hm)) t v hv hthr
      exact htno s' (Or.inr hsettles)
    · intro t hinserted htno s hsno hviable
      simp only [hconf] at hsno htno
      obtain ⟨v, hv, hthr⟩ := (viable_iff hsno htno).mp hviable
      obtain ⟨hen, habsent⟩ := (inserted_iff h hs).mp hinserted
      obtain ⟨hrep, hopen⟩ := (absent_unmatched_iff (D := (h.comparison evidence).swap) hpolicy htno).mp habsent
      have hno := not_exists.mp hopen
      have hignored := (ignoredFairly_iff hno).mp (hfair.target hen t hv.2.1 hrep hno)
      obtain ⟨t', hsettles⟩ := hignored (fun s' hm => htno s' (Or.inr hm)) s v hv hthr
      exact hsno t' (Or.inr hsettles)

end Absence

theorem revisedBook_absence_iff : ∃ result evidence, ∃ h : Admitted revisedBook,
    @Completes asciiRuntime revisedBook result ∧
      (AbsenceSound revisedBook evidence result ↔ FairlyAbsent h evidence) := by
  have hrun : Outcome.Returns (@reconcile asciiRuntime revisedBook) fun result => result.complete = true ∧ True := by
    decide +kernel
  obtain ⟨result, evidence, h, hc, -, he⟩ := @exists_completes asciiRuntime _ _ hrun
  exact ⟨result, evidence, h, hc, @absence_sound_iff asciiRuntime _ _ _ hc (by decide) h he⟩

/-- Two steps share their id by mistake; the target kept one of them, and the other without its id. -/
def copiedStep : ReconcileTreesCommand :=
  defaultCommand
    (buildTree "task" [⟨"task", "task", none, [], []⟩,
      ⟨"step1", "step", some "task", [("id", .str "s")], [("title", .str "Install")]⟩, ⟨"note1", "note", some "step1", [], []⟩,
      ⟨"step2", "step", some "task", [("id", .str "s")], [("title", .str "Install")]⟩])
    (buildTree "task" [⟨"task", "task", none, [], []⟩,
      ⟨"first", "step", some "task", [("id", .str "s")], [("title", .str "Install")]⟩, ⟨"note", "note", some "first", [], []⟩,
      ⟨"second", "step", some "task", [], [("title", .str "Install")]⟩])

/-- `step2` loses `first` to `step1` and is reported absent, though `second` is good enough and free. -/
theorem copiedStep_absence_unsound : ∃ result evidence, @Completes asciiRuntime copiedStep result ∧
    copiedStep.operationProfile.unresolvedPresencePolicy ≠ .emitAll ∧
    @extract asciiRuntime (normalizedSource copiedStep) (normalizedTarget copiedStep) = .ok evidence ∧
    ¬ AbsenceSound copiedStep evidence result := by
  have hrun : Outcome.Returns (@reconcile asciiRuntime copiedStep) fun result => result.complete = true ∧
      SourceIn result [.delete] "step2" ∧ result.matchGraph.confirmedTargetFor "step2" = none ∧
        "second" ∉ result.matchGraph.confirmed.map (·.val.targetNodeRef) := by
    decide +kernel
  have hviable : Outcome.Returns (@extract asciiRuntime (normalizedSource copiedStep) (normalizedTarget copiedStep))
      fun evidence => Viable evidence copiedStep.matchingProfile "step2" "second" := by
    decide +kernel
  obtain ⟨result, -, -, hc, ⟨hdeleted, hsource, htarget⟩, -⟩ := @exists_completes asciiRuntime _ _ hrun
  obtain ⟨evidence, he, hviable⟩ := hviable
  refine ⟨result, evidence, hc, by decide, he, fun hsound => ?_⟩
  refine hsound.deleted "step2" hdeleted (MatchGraph.confirmedTargetFor_eq_none.mp hsource) "second" ?_ hviable
  intro s hx
  obtain ⟨c, hmem, hstate, -, ht⟩ := hx
  exact htarget (List.mem_map.mpr ⟨c, MatchGraph.mem_confirmed.mpr ⟨hmem, hstate⟩, ht⟩)

end Reconciliation.Reports
