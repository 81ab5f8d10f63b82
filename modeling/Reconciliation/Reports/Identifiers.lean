/-
  Reconciliation.Reports.Identifiers — when the ids of a result are told apart.

  Region ids and effect ids always are. Match ids are when no two proposed pairs read the
  same, and operation ids when no node is reported absent, and no parent reordered, in two
  regions (`unique_ids_iff`). A root matched with a node that is no root has two regions: its
  dropped child is deleted twice under one id (`droppedChild_repeated`). References that
  hold arrows give a confirmed and a rejected pair one id (`rejectedArrow_repeated`).
-/
import Reconciliation.Builders
import Reconciliation.Classification.OperationIds
import Reconciliation.Matching.Guarantees
import Reconciliation.Reports.Occurrences

namespace Reconciliation.Reports

open Reconciliation.Base Reconciliation.Contracts Reconciliation.Evidence Reconciliation.Matching
  Reconciliation.Normalization Reconciliation.Classification Reconciliation.Alignment Reconciliation.Suppression
  Reconciliation.Validation Reconciliation.Engine Reconciliation.Builders

/-- No two candidates, regions, operations or effects of the result share an id. -/
structure UniqueIds (result : ReconciliationResult) : Prop where
  candidates : (result.matchGraph.candidates.map (·.val.matchId)).Nodup
  regions : (result.alignment.val.regions.map (·.val.regionId)).Nodup
  operations : (result.operations.operations.map (·.val.operationId)).Nodup
  effects : (result.suppression.suppressedEffects.map (·.val.effectId)).Nodup

/-- No two proposed pairs have one match id. -/
def MatchIdsApart (evidence : EvidenceIndex) (profile : MatchingProfile) : Prop :=
  ∀ s t s' t', Proposed evidence profile s t → Proposed evidence profile s' t' → matchId s t = matchId s' t' →
    s = s' ∧ t = t'

/-- Two corresponding pairs of children of `p` and `q` are inverted, and the order of `p` matters. -/
def OrderInverted (command : ReconcileTreesCommand) (evidence : EvidenceIndex) (p q : NodeRef) : Prop :=
  (∃ node, command.sourceTree.nodes.get? p = some node ∧
      command.alignmentProfile.orderSemanticsFor node.nodeType = .ordered) ∧
    ∃ a a' b b', [a, a'].Sublist (command.sourceTree.childrenOf p) ∧ [b', b].Sublist (command.targetTree.childrenOf q) ∧
      Corresponding evidence command.matchingProfile a b ∧ Corresponding evidence command.matchingProfile a' b'

section Runs
variable [PyRuntime] {command : ReconcileTreesCommand} {evidence : EvidenceIndex} {result : ReconciliationResult}

theorem shuffled_iff (hs : Stages command evidence result) {p q : NodeRef} :
    Shuffled (context command result) command.alignmentProfile p q ↔ OrderInverted command evidence p q := by
  have hnode : (∃ node, (normalizedSource command).nodes.get? p = some node ∧
      command.alignmentProfile.orderSemanticsFor node.nodeType = .ordered) ↔
        ∃ node, command.sourceTree.nodes.get? p = some node ∧
          command.alignmentProfile.orderSemanticsFor node.nodeType = .ordered := by
    unfold normalizedSource
    rw [get_normalize]
    simp only [Option.map_eq_some_iff]
    constructor
    · intro h
      obtain ⟨_, ⟨node, hn, rfl⟩, ho⟩ := h
      exact ⟨node, hn, ho⟩
    · intro h
      obtain ⟨node, hn, ho⟩ := h
      exact ⟨_, ⟨node, hn, rfl⟩, ho⟩
  have hsource : (normalizedSource command).childrenOf p = command.sourceTree.childrenOf p := childrenOf_normalize
  have htarget : (normalizedTarget command).childrenOf q = command.targetTree.childrenOf q := childrenOf_normalize
  unfold Shuffled OrderInverted
  rw [orderChanged_iff_inverted (Rooted.children_nodup _) (Rooted.children_nodup _)]
  simp only [context, hsource, htarget, confirmed_iff hs.matched]
  exact and_congr_left fun _ => hnode

/-- The match ids of a run are told apart exactly when those of the proposed pairs are. -/
theorem matchIds_iff (hs : Stages command evidence result) :
    (result.matchGraph.candidates.map (·.val.matchId)).Nodup ↔ MatchIdsApart evidence command.matchingProfile := by
  have hpairs := endpoints_nodup hs.matched
  have hids : result.matchGraph.candidates.map (·.val.matchId) =
      (result.matchGraph.candidates.map endpoints).map fun e => matchId e.1 e.2 := by
    rw [List.map_map]
    exact List.map_congr_left fun c hc => matchId_of_candidate hs.matched hc
  rw [hids, List.nodup_map_iff_inj_on hpairs]
  constructor
  · intro hinj s t s' t' hp hp' hid
    exact Prod.mk.inj (hinj _ ((proposed_iff hs.extracted hs.matched).mpr hp) _
      ((proposed_iff hs.extracted hs.matched).mpr hp') hid)
  · intro hapart e he e' he' hid
    obtain ⟨h1, h2⟩ := hapart _ _ _ _ ((proposed_iff hs.extracted hs.matched).mp he)
      ((proposed_iff hs.extracted hs.matched).mp he') hid
    exact Prod.ext h1 h2

theorem operationIds_iff (h : Admitted command) (hs : Stages command evidence result) :
    (result.operations.operations.map (·.val.operationId)).Nodup ↔ ReportedOnce (h.comparison evidence)
      (certainty evidence command.matchingProfile) command.operationProfile (OrderInverted command evidence) := by
  have hshuffled : Shuffled (context command result) command.alignmentProfile = OrderInverted command evidence :=
    funext fun p => funext fun q => propext (shuffled_iff hs)
  rw [(hs.agrees h).classify_ids hs.classified, hshuffled]
  rfl

/-- The ids of a run are told apart exactly when those of the proposed pairs are and no two regions
    report one node. -/
theorem uniqueIds_iff (h : Admitted command) (hs : Stages command evidence result) : UniqueIds result ↔
    MatchIdsApart evidence command.matchingProfile ∧ ReportedOnce (h.comparison evidence)
      (certainty evidence command.matchingProfile) command.operationProfile (OrderInverted command evidence) := by
  rw [← matchIds_iff hs, ← operationIds_iff h hs]
  constructor
  · intro hids
    exact ⟨hids.candidates, hids.operations⟩
  · intro hids
    exact ⟨hids.1, result.alignment.regionIds_nodup, hids.2, suppress_ids hs.suppressed⟩

/-- Every result has unique ids, exactly when an admitted command whose stages return proposes no two
    pairs with one match id and reports no node in two regions. -/
theorem unique_ids_iff (command : ReconcileTreesCommand) :
    (∀ result, reconcile command = .ok result → UniqueIds result) ↔
      ∀ (h : Admitted command) evidence, extract (normalizedSource command) (normalizedTarget command) = .ok evidence →
        Supported evidence command.matchingProfile → DistinctRegionIds (h.comparison evidence) →
        MatchIdsApart evidence command.matchingProfile ∧ ReportedOnce (h.comparison evidence)
          (certainty evidence command.matchingProfile) command.operationProfile (OrderInverted command evidence) := by
  constructor
  · intro hids h evidence he hsupported hdistinct
    obtain ⟨result, hrun⟩ := (runStages_total_iff h he).mpr ⟨hsupported, hdistinct⟩
    have hreturned : reconcile command = .ok result := (reconcile_admitted h).trans hrun
    exact (uniqueIds_iff h (stages_of_complete hreturned (runStages_complete hrun) he)).mp (hids result hreturned)
  · intro hcond result hrun
    by_cases h : Admitted command
    · rw [reconcile_admitted h] at hrun
      obtain ⟨evidence, hs⟩ := runStages_stages hrun
      obtain ⟨hsupported, hdistinct⟩ := (runStages_total_iff h hs.extracted).mp ⟨result, hrun⟩
      exact (uniqueIds_iff h hs).mpr (hcond h evidence hs.extracted hsupported hdistinct)
    · rcases not_admitted_outcome h with ⟨e, he⟩ | ⟨diagnostics, hincomplete⟩
      · cases he.symm.trans hrun
      · obtain rfl := Except.ok.inj (hincomplete.symm.trans hrun)
        exact ⟨List.nodup_nil, List.nodup_nil, List.nodup_nil, List.nodup_nil⟩

end Runs

/-- The source root is a chapter of the target, and lost its own chapter. -/
def droppedChild : ReconcileTreesCommand :=
  defaultCommand
    (buildTree "book" [⟨"book", "topic", none, [("id", .str "b")], []⟩, ⟨"old", "note", some "book", [], []⟩])
    (buildTree "shelf" [⟨"shelf", "map", none, [], []⟩, ⟨"book", "topic", some "shelf", [("id", .str "b")], []⟩])

/-- Two regions of the source root report the lost chapter, under one operation id. -/
theorem droppedChild_repeated : Outcome.Returns (@reconcile asciiRuntime droppedChild) fun result =>
    ¬ (result.operations.operations.map (·.val.operationId)).Nodup := by
  decide +kernel

/-- References that hold arrows; the second pair shares an id, and its types differ. -/
def rejectedArrow : ReconcileTreesCommand :=
  defaultCommand arrowMap
    (buildTree "map" [⟨"map", "map", none, [], []⟩, ⟨"b->c", "topic", some "map", [("id", .str "i")], []⟩,
      ⟨"c", "note", some "map", [("id", .str "j")], []⟩])

/-- The confirmed and the rejected pair have one match id. -/
theorem rejectedArrow_repeated : Outcome.Returns (@reconcile asciiRuntime rejectedArrow) fun result =>
    ¬ (result.matchGraph.candidates.map (·.val.matchId)).Nodup := by
  decide +kernel

end Reconciliation.Reports
