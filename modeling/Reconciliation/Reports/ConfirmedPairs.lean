/-
  Reconciliation.Reports.ConfirmedPairs — how a complete result represents the confirmed pairs.

  A pair of two nodes that are no roots is kept (a match or an update) when its parents
  correspond, moved when they do not and it is sure enough, and neither otherwise; each
  operation comes once (`each_pair_represented`). A changed pair is an update when its
  parents correspond (`changed_pair_updated`); one that moved is not
  (`movedEdit_not_updated`). A move between parents that may correspond is reported exactly
  when a sure pair has its parents on an edge (`moves_resolved_iff`, `twinParts_not_resolved`).
-/
import Reconciliation.Builders
import Reconciliation.Reports.Occurrences

namespace Reconciliation.Reports

open Reconciliation.Base Reconciliation.Contracts Reconciliation.Normalization Reconciliation.Evidence
  Reconciliation.Matching Reconciliation.Classification Reconciliation.Engine Reconciliation.Builders

/-! ## One representation -/

/-- The operations of one of the types with exactly these two nodes. -/
def pairOps (result : ReconciliationResult) (types : List OperationType) (s t : NodeRef) : List StructuralOperation :=
  result.operations.operations.filter fun op =>
    op.val.type ∈ types ∧ op.val.sourceNodeRefs = [s] ∧ op.val.targetNodeRefs = [t]

/-- The parents of the two nodes are the roots or a confirmed pair. -/
def ParentsCorrespond (command : ReconcileTreesCommand) (result : ReconciliationResult) (s t : NodeRef) : Prop :=
  ∃ p q, command.sourceTree.parentOf s = some p ∧ command.targetTree.parentOf t = some q ∧
    ((p = command.sourceTree.rootNodeRef ∧ q = command.targetTree.rootNodeRef) ∨ result.matchGraph.Confirmed p q)

/-- A confirmed pair is kept once, moved once, or neither; its parents and its confidence decide. -/
inductive Represented (command : ReconcileTreesCommand) (result : ReconciliationResult) (c : MatchCandidateFields) : Prop
  | kept (hparents : ParentsCorrespond command result c.sourceNodeRef c.targetNodeRef)
    (hkept : (pairOps result [.match_, .update] c.sourceNodeRef c.targetNodeRef).length = 1)
    (hmoved : pairOps result [.move] c.sourceNodeRef c.targetNodeRef = [])
  | moved (hparents : ¬ ParentsCorrespond command result c.sourceNodeRef c.targetNodeRef)
    (hsure : command.operationProfile.moveConfidenceThreshold ≤ c.confidence.value)
    (hmoved : (pairOps result [.move] c.sourceNodeRef c.targetNodeRef).length = 1)
    (hkept : pairOps result [.match_, .update] c.sourceNodeRef c.targetNodeRef = [])
  | low (hparents : ¬ ParentsCorrespond command result c.sourceNodeRef c.targetNodeRef)
    (hlow : c.confidence.value < command.operationProfile.moveConfidenceThreshold)
    (hsource : ¬ SourceIn result [.match_, .update, .move] c.sourceNodeRef)
    (htarget : ¬ TargetIn result [.match_, .update, .move] c.targetNodeRef)

/-- Every confirmed pair below the roots is represented, and nothing else is matched, updated or moved. -/
structure EachRepresented (command : ReconcileTreesCommand) (result : ReconciliationResult) : Prop where
  pairs : ∀ c ∈ result.matchGraph.confirmed, c.val.sourceNodeRef ≠ command.sourceTree.rootNodeRef →
    c.val.targetNodeRef ≠ command.targetTree.rootNodeRef → Represented command result c.val
  confirmed : ∀ op ∈ result.operations.operations, op.val.type ∈ [.match_, .update, .move] →
    ∃ s t, op.val.sourceNodeRefs = [s] ∧ op.val.targetNodeRefs = [t] ∧ result.matchGraph.Confirmed s t

section Runs
variable [PyRuntime] {command : ReconcileTreesCommand} {evidence : EvidenceIndex} {result : ReconciliationResult}
  (h : Admitted command) (hs : Stages command evidence result) {s t : NodeRef}

include h hs

/-- Parents correspond when they are paired in the comparison. -/
theorem parentsCorrespond_iff : ParentsCorrespond command result s t ↔ ∃ p q,
    (h.comparison evidence).source.parent s = some p ∧ (h.comparison evidence).target.parent t = some q ∧
      (h.comparison evidence).Paired p q := by
  unfold ParentsCorrespond Comparison.Paired
  simp only [h.source_parent, h.target_parent, confirmed_iff hs.matched]
  rfl

theorem aligned_iff : (h.comparison evidence).Aligned s t ↔ result.matchGraph.Confirmed s t ∧ ParentsCorrespond command result s t := by
  rw [parentsCorrespond_iff h hs, confirmed_iff hs.matched]
  rfl

theorem mem_pairOps {types : List OperationType} {op : StructuralOperation} : op ∈ pairOps result types s t ↔
    (Reported (context command result) command.alignmentProfile (h.comparison evidence)
      (certainty evidence command.matchingProfile) op.val ∧ op.val.type ∈ types) ∧
      op.val.sourceNodeRefs = [s] ∧ op.val.targetNodeRefs = [t] := by
  unfold pairOps
  rw [List.mem_filter, hs.reported h, decide_eq_true_eq, and_assoc]

/-- The operations that keep a pair: one if it is aligned and its operation enabled. -/
theorem mem_pairOps_kept {op : StructuralOperation} : op ∈ pairOps result [.match_, .update] s t ↔
    (h.comparison evidence).Aligned s t ∧ op.val.type ∈ command.operationProfile.enabledOperations ∧
      op.val = matchOf (context command result) s t := by
  rw [mem_pairOps h hs, reported_kept_iff]
  constructor
  · intro hx
    obtain ⟨⟨a, b, ha, hen, hval⟩, hsource, htarget⟩ := hx
    rw [hval] at hsource htarget
    cases hsource
    cases htarget
    exact ⟨ha, hen, hval⟩
  · intro hx
    obtain ⟨ha, hen, hval⟩ := hx
    exact ⟨⟨s, t, ha, hen, hval⟩, by rw [hval]; rfl, by rw [hval]; rfl⟩

theorem mem_pairOps_moved {op : StructuralOperation} : op ∈ pairOps result [.move] s t ↔
    Moved (h.comparison evidence) (certainty evidence command.matchingProfile) command.operationProfile s t ∧
      .move ∈ command.operationProfile.enabledOperations ∧ op.val = moveOf (context command result) s t := by
  rw [mem_pairOps h hs, reported_moved_iff]
  constructor
  · intro hx
    obtain ⟨⟨a, b, hm, hen, hval⟩, hsource, htarget⟩ := hx
    rw [hval] at hsource htarget
    cases hsource
    cases htarget
    exact ⟨hm, hen, hval⟩
  · intro hx
    obtain ⟨hm, hen, hval⟩ := hx
    exact ⟨⟨s, t, hm, hen, hval⟩, by rw [hval]; rfl, by rw [hval]; rfl⟩

/-- An operation on a pair that is not a delete or an insert comes once. -/
theorem pairOps_once {types : List OperationType} (htypes : .delete ∉ types ∧ .insert ∉ types)
    {op : StructuralOperation} (hop : op ∈ pairOps result types s t)
    (hunique : ∀ op' ∈ pairOps result types s t, op'.val = op.val) : (pairOps result types s t).length = 1 := by
  have hnodup : (pairOps result types s t).Nodup := by
    refine (hs.nodup h).sublist (List.monotone_filter_right _ fun x hx => ?_)
    simp only [decide_eq_true_eq] at hx ⊢
    exact ⟨fun hd => htypes.1 (hd ▸ hx.1), fun hi => htypes.2 (hi ▸ hx.1)⟩
  have hperm : (pairOps result types s t).Perm [op] := by
    refine (List.perm_ext_iff_of_nodup hnodup (List.nodup_singleton op)).mpr fun op' => ?_
    rw [List.mem_singleton]
    exact ⟨fun hin => Checked.ext_val (hunique op' hin), fun he => he ▸ hop⟩
  simpa using hperm.length_eq

theorem kept_once (hall : AllEnabled command.operationProfile) (ha : (h.comparison evidence).Aligned s t) :
    (pairOps result [.match_, .update] s t).length = 1 := by
  obtain ⟨op, -, hval⟩ := hs.exists_op h (.aligned ha (enabled_kept hall s t))
  have hin := (mem_pairOps_kept h hs).mpr ⟨ha, hval ▸ enabled_kept hall s t, hval⟩
  exact pairOps_once h hs (by decide) hin fun op' hop' => ((mem_pairOps_kept h hs).mp hop').2.2.trans hval.symm

theorem moved_once (hall : AllEnabled command.operationProfile) (hm : Moved (h.comparison evidence)
    (certainty evidence command.matchingProfile) command.operationProfile s t) : (pairOps result [.move] s t).length = 1 := by
  have hen : .move ∈ command.operationProfile.enabledOperations := hall _ (by decide)
  obtain ⟨op, -, hval⟩ := hs.exists_op h (.moved hm hen)
  have hin := (mem_pairOps_moved h hs).mpr ⟨hm, hen, hval⟩
  exact pairOps_once h hs (by decide) hin fun op' hop' => ((mem_pairOps_moved h hs).mp hop').2.2.trans hval.symm

end Runs

section Pairs
variable [PyRuntime] {command : ReconcileTreesCommand} {result : ReconciliationResult}

/-- Every confirmed pair gets exactly one representation. -/
theorem each_pair_represented (hc : Completes command result) (hall : AllEnabled command.operationProfile) :
    EachRepresented command result := by
  obtain ⟨h, evidence, hs⟩ := hc.exists_stages
  have hagrees := hs.agrees h
  constructor
  · intro c hconfirmed hsource htarget
    obtain ⟨hmem, hstate⟩ := MatchGraph.mem_confirmed.mp hconfirmed
    have hm := (hagrees.matched_iff _ _).mp ⟨c, hmem, hstate, rfl, rfl⟩
    have hsure := hagrees.certain c hmem hstate
    obtain ⟨hs', ht'⟩ := hagrees.known _ _ hm
    obtain ⟨p, hp⟩ := (h.source_rooted.root_or_parent hs').resolve_left hsource
    obtain ⟨q, hq⟩ := (h.target_rooted.root_or_parent ht').resolve_left htarget
    rcases Comparison.aligned_or_crosses hm hp hq with ha | hcross
    · refine .kept ((aligned_iff h hs).mp ha).2 (kept_once h hs hall ha) ?_
      refine List.eq_nil_iff_forall_not_mem.mpr fun op hop => ?_
      exact ha.not_crosses ((mem_pairOps_moved h hs).mp hop).1.1
    · have hparents : ¬ ParentsCorrespond command result c.val.sourceNodeRef c.val.targetNodeRef := fun hcorr =>
        ((aligned_iff h hs).mpr ⟨(hagrees.matched_iff _ _).mpr hm, hcorr⟩).not_crosses hcross
      by_cases hle : command.operationProfile.moveConfidenceThreshold ≤ c.val.confidence.value
      · refine .moved hparents hle (moved_once h hs hall ⟨hcross, hsure ▸ hle⟩) ?_
        refine List.eq_nil_iff_forall_not_mem.mpr fun op hop => ?_
        exact ((mem_pairOps_kept h hs).mp hop).1.not_crosses hcross
      · have hnot : ∀ s t, s = c.val.sourceNodeRef → t = c.val.targetNodeRef → ¬ Moved (h.comparison evidence)
            (certainty evidence command.matchingProfile) command.operationProfile s t := by
          rintro s t rfl rfl hmoved
          exact hle (hsure ▸ hmoved.2)
        refine .low hparents (not_le.mp hle) ?_ ?_
        · rw [show [OperationType.match_, .update, .move] = [.match_, .update] ++ [.move] from rfl, sourceIn_append,
            kept_source_iff h hs hall, moved_source_iff h hs hall]
          rintro (⟨t, ha⟩ | ⟨t, hmoved⟩)
          · obtain rfl := (h.comparison evidence).target_unique hm ha.1
            exact ha.not_crosses hcross
          · exact hnot _ _ rfl ((h.comparison evidence).target_unique hmoved.1.1 hm) hmoved
        · rw [show [OperationType.match_, .update, .move] = [.match_, .update] ++ [.move] from rfl, targetIn_append,
            kept_target_iff h hs hall, moved_target_iff h hs hall]
          rintro (⟨s, ha⟩ | ⟨s, hmoved⟩)
          · obtain rfl := (h.comparison evidence).source_unique hm ha.1
            exact ha.not_crosses hcross
          · exact hnot _ _ ((h.comparison evidence).source_unique hmoved.1.1 hm) rfl hmoved
  · intro op hop htype
    have hreported := (hs.reported h op).mp hop
    rcases List.mem_append.mp (show op.val.type ∈ [OperationType.match_, .update] ++ [.move] from htype) with ht | ht
    · obtain ⟨s, t, ha, -, hval⟩ := reported_kept_iff.mp ⟨hreported, ht⟩
      exact ⟨s, t, by rw [hval]; rfl, by rw [hval]; rfl, (hagrees.matched_iff s t).mpr ha.1⟩
    · obtain ⟨s, t, hm, -, hval⟩ := reported_moved_iff.mp ⟨hreported, ht⟩
      exact ⟨s, t, by rw [hval]; rfl, by rw [hval]; rfl, (hagrees.matched_iff s t).mpr hm.1.1⟩

end Pairs

/-- A chapter moves into a new part and is edited there. -/
def movedEdit : ReconcileTreesCommand :=
  defaultCommand
    (buildTree "book" [⟨"book", "map", none, [], []⟩, ⟨"intro", "topic", some "book", [("id", .str "i")], []⟩,
      ⟨"setup", "topic", some "book", [("id", .str "s")], [("title", .str "Setup")]⟩])
    (buildTree "book" [⟨"book", "map", none, [], []⟩, ⟨"intro", "topic", some "book", [("id", .str "i")], []⟩,
      ⟨"part", "part", some "book", [], []⟩, ⟨"setup", "topic", some "part", [("id", .str "s")], [("title", .str "Set up")]⟩])

theorem movedEdit_represented :
    ∃ result, @Completes asciiRuntime movedEdit result ∧ EachRepresented movedEdit result := by
  have hrun : Outcome.Returns (@reconcile asciiRuntime movedEdit) fun result => result.complete = true ∧ True := by
    decide +kernel
  obtain ⟨result, -, -, hc, -⟩ := @exists_completes asciiRuntime _ _ hrun
  exact ⟨result, hc, @each_pair_represented asciiRuntime _ _ hc (by decide)⟩

/-! ## Changed pairs -/

/-- The pair is confirmed, and its normalized content differs. -/
def ChangedPair (command : ReconcileTreesCommand) (result : ReconciliationResult) (s t : NodeRef) : Prop :=
  result.matchGraph.Confirmed s t ∧ ∃ a ∈ (normalizedSource command).nodes.get? s,
    ∃ b ∈ (normalizedTarget command).nodes.get? t, a.contentProperties.pyEq b.contentProperties = false

instance (command : ReconcileTreesCommand) (result : ReconciliationResult) (s t : NodeRef) :
    Decidable (ChangedPair command result s t) := inferInstanceAs (Decidable (_ ∧ ∃ _ ∈ _, ∃ _ ∈ _, _))

theorem changed_pair_updated [PyRuntime] {command : ReconcileTreesCommand} {result : ReconciliationResult} {s t : NodeRef}
    (hc : Completes command result) (hen : .update ∈ command.operationProfile.enabledOperations)
    (hchanged : ChangedPair command result s t) (hparents : ParentsCorrespond command result s t) :
    ∃ op ∈ result.operations.operations, op.val.type = .update ∧ op.val.sourceNodeRefs = [s] ∧ op.val.targetNodeRefs = [t] := by
  obtain ⟨h, evidence, hs⟩ := hc.exists_stages
  obtain ⟨hconfirmed, a, ha, b, hb, hdiffer⟩ := hchanged
  have halign := (aligned_iff h hs).mpr ⟨hconfirmed, hparents⟩
  have hupdate : (matchOf (context command result) s t).type = .update := by
    have hchanged : contentChanged (normalizedSource command) (normalizedTarget command) s t = true := by
      unfold contentChanged
      rw [show (normalizedSource command).nodes.get? s = some a from ha,
        show (normalizedTarget command).nodes.get? t = some b from hb]
      simp only [hdiffer, Bool.not_false]
    rw [matchOf_type]
    exact if_pos hchanged
  obtain ⟨op, hop, hval⟩ := hs.exists_op h (.aligned halign (by rw [hupdate]; exact hen))
  exact ⟨op, hop, by rw [hval, hupdate], by rw [hval]; rfl, by rw [hval]; rfl⟩

/-- A chapter that stays in place and is edited. -/
def editedInPlace : ReconcileTreesCommand :=
  defaultCommand
    (buildTree "book" [⟨"book", "map", none, [], []⟩,
      ⟨"setup", "topic", some "book", [("id", .str "s")], [("title", .str "Setup")]⟩])
    (buildTree "book" [⟨"book", "map", none, [], []⟩,
      ⟨"setup", "topic", some "book", [("id", .str "s")], [("title", .str "Set up")]⟩])

theorem editedInPlace_updated : ∃ result, @Completes asciiRuntime editedInPlace result ∧
    ChangedPair editedInPlace result "setup" "setup" ∧ ∃ op ∈ result.operations.operations,
      op.val.type = .update ∧ op.val.sourceNodeRefs = ["setup"] ∧ op.val.targetNodeRefs = ["setup"] := by
  have hrun : Outcome.Returns (@reconcile asciiRuntime editedInPlace) fun result => result.complete = true ∧
      ChangedPair editedInPlace result "setup" "setup" := by
    decide +kernel
  obtain ⟨result, -, -, hc, hchanged, -⟩ := @exists_completes asciiRuntime _ _ hrun
  refine ⟨result, hc, hchanged, @changed_pair_updated asciiRuntime _ _ _ _ hc (by decide) hchanged ?_⟩
  exact ⟨"book", "book", by decide +kernel, by decide +kernel, Or.inl ⟨rfl, rfl⟩⟩

/-- A changed pair that moved is reported as a move alone. -/
theorem movedEdit_not_updated : Outcome.Returns (@reconcile asciiRuntime movedEdit) fun result =>
    result.complete = true ∧ .update ∈ movedEdit.operationProfile.enabledOperations ∧
      ChangedPair movedEdit result "setup" "setup" ∧ ¬ ∃ op ∈ result.operations.operations,
        op.val.type = .update ∧ op.val.sourceNodeRefs = ["setup"] ∧ op.val.targetNodeRefs = ["setup"] := by
  decide +kernel

/-! ## Moves between ambiguous parents -/

/-- No node is reported as moved whose two parents are an ambiguous pair. -/
def MovesResolved (command : ReconcileTreesCommand) (result : ReconciliationResult) : Prop :=
  ∀ op ∈ result.operations.operations, op.val.type = .move → ∀ s ∈ op.val.sourceNodeRefs, ∀ t ∈ op.val.targetNodeRefs,
    ∀ p ∈ command.sourceTree.parentOf s, ∀ q ∈ command.targetTree.parentOf t, ¬ result.matchGraph.Ambiguous p q

instance (command : ReconcileTreesCommand) (result : ReconciliationResult) : Decidable (MovesResolved command result) :=
  inferInstanceAs (Decidable (∀ op ∈ result.operations.operations, op.val.type = .move → ∀ s ∈ op.val.sourceNodeRefs,
    ∀ t ∈ op.val.targetNodeRefs, ∀ p ∈ command.sourceTree.parentOf s, ∀ q ∈ command.targetTree.parentOf t,
      ¬ result.matchGraph.Ambiguous p q))

/-- Every correspondence whose parents are an edge of the score table, the two roots apart, is
    less certain than a move takes. -/
def ParentsSettled (command : ReconcileTreesCommand) (evidence : EvidenceIndex) : Prop :=
  .move ∈ command.operationProfile.enabledOperations → ∀ s t p q,
    Corresponding evidence command.matchingProfile s t → command.sourceTree.parentOf s = some p →
    command.targetTree.parentOf t = some q → (table evidence command.matchingProfile).Edge p q →
    ¬ (p = command.sourceTree.rootNodeRef ∧ q = command.targetTree.rootNodeRef) →
    certainty evidence command.matchingProfile s t < command.operationProfile.moveConfidenceThreshold

theorem moves_resolved_iff [PyRuntime] {command : ReconcileTreesCommand} {evidence : EvidenceIndex}
    {result : ReconciliationResult} (hc : Completes command result)
    (he : extract (normalizedSource command) (normalizedTarget command) = .ok evidence) :
    MovesResolved command result ↔ ParentsSettled command evidence := by
  have h := (complete_iff.mp hc).1
  have hs := stages_of_complete hc.1 hc.2 he
  constructor
  · intro hresolved hen s t p q hm hp hq hedge hroots
    by_contra hsure
    have hnot : ¬ (h.comparison evidence).Paired p q := by
      intro hpq
      rcases hpq with hpq | hpq
      · exact hroots hpq
      · exact (not_corresponding_of_edge hedge).1 q hpq
    have hmoved : Moved (h.comparison evidence) (certainty evidence command.matchingProfile) command.operationProfile s t :=
      ⟨⟨hm, p, q, (h.source_parent evidence s).trans hp, (h.target_parent evidence t).trans hq, hnot⟩, not_lt.mp hsure⟩
    obtain ⟨op, hop, hval⟩ := hs.exists_op h (.moved hmoved hen)
    refine hresolved op hop (by rw [hval]; rfl) s (by rw [hval]; exact List.mem_singleton.mpr rfl) t
      (by rw [hval]; exact List.mem_singleton.mpr rfl) p hp q hq ?_
    exact (ambiguous_iff hs.matched).mpr hedge
  · intro hsettled op hop htype s hsource t htarget p hp q hq hambiguous
    obtain ⟨a, b, hm, hen, hval⟩ := reported_moved_iff.mp ⟨(hs.reported h op).mp hop, List.mem_singleton.mpr htype⟩
    rw [hval] at hsource htarget
    obtain rfl := List.mem_singleton.mp hsource
    obtain rfl := List.mem_singleton.mp htarget
    obtain ⟨⟨hmatched, p', q', hp', hq', hpq⟩, hsure⟩ := hm
    obtain rfl := Option.some.inj (((h.source_parent evidence s).symm.trans hp').symm.trans hp)
    obtain rfl := Option.some.inj (((h.target_parent evidence t).symm.trans hq').symm.trans hq)
    refine absurd (hsettled hen s t p' q' hmatched hp hq ((ambiguous_iff hs.matched).mp hambiguous) ?_) (not_lt.mpr hsure)
    exact fun hroots => hpq (Or.inl hroots)

/-- Two parts that look the same, each with one chapter of its own. -/
def twinParts : ReconcileTreesCommand :=
  defaultCommand
    (buildTree "book" [⟨"book", "map", none, [], []⟩, ⟨"part1", "part", some "book", [], []⟩,
      ⟨"part2", "part", some "book", [], []⟩, ⟨"intro", "topic", some "part1", [("id", .str "i")], []⟩,
      ⟨"setup", "topic", some "part2", [("id", .str "s")], []⟩])
    (buildTree "book" [⟨"book", "map", none, [], []⟩, ⟨"part1", "part", some "book", [], []⟩,
      ⟨"part2", "part", some "book", [], []⟩, ⟨"intro", "topic", some "part1", [("id", .str "i")], []⟩,
      ⟨"setup", "topic", some "part2", [("id", .str "s")], []⟩])

theorem movedEdit_resolved_iff : ∃ result evidence, @Completes asciiRuntime movedEdit result ∧
    (MovesResolved movedEdit result ↔ ParentsSettled movedEdit evidence) := by
  have hrun : Outcome.Returns (@reconcile asciiRuntime movedEdit) fun result => result.complete = true ∧ True := by
    decide +kernel
  obtain ⟨result, evidence, -, hc, -, he⟩ := @exists_completes asciiRuntime _ _ hrun
  exact ⟨result, evidence, hc, @moves_resolved_iff asciiRuntime _ _ _ hc he⟩

/-- Nothing changed, but the chapters of the parts are reported as moved. -/
theorem twinParts_not_resolved : Outcome.Returns (@reconcile asciiRuntime twinParts) fun result =>
    result.complete = true ∧ ¬ MovesResolved twinParts result := by
  decide +kernel

end Reconciliation.Reports
