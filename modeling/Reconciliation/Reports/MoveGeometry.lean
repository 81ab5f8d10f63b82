/-
  Reconciliation.Reports.MoveGeometry — where a reported move says a node came from.

  A move names the parent it leads to, and the counterpart of the old parent, which is another
  node. The counterpart is looked up among the confirmed matches, while the roots correspond
  without one. So the geometry agrees exactly when no child of the source root moves, or the
  two roots are matched (`geometry_iff`); a topic that moves below roots of different types
  loses its destination (`movedTopic_lost`).
-/
import Reconciliation.Reports.Presence

namespace Reconciliation.Reports

open Reconciliation.Base Reconciliation.Contracts Reconciliation.Evidence Reconciliation.Matching
  Reconciliation.Alignment Reconciliation.Classification Reconciliation.Engine Reconciliation.Builders

/-- The target node a source parent corresponds to: the root for the root, else its confirmed target. -/
def parentCounterpart (command : ReconcileTreesCommand) (result : ReconciliationResult) (p : NodeRef) : Option NodeRef :=
  if p = command.sourceTree.rootNodeRef then some command.targetTree.rootNodeRef
  else result.matchGraph.confirmedTargetFor p

/-- The parents a move of `s` and `t` names. -/
structure Geometry (command : ReconcileTreesCommand) (result : ReconciliationResult) (op : StructuralOperationFields)
    (s t : NodeRef) : Prop where
  to_parent : ∃ q, command.targetTree.parentOf t = some q ∧ op.toParentRef = some q
  from_parent : ∃ p, command.sourceTree.parentOf s = some p ∧ op.fromParentRef = parentCounterpart command result p
  changed : op.fromParentRef ≠ op.toParentRef

/-- Every reported move names the right parents. -/
def GeometryAgrees (command : ReconcileTreesCommand) (result : ReconciliationResult) : Prop :=
  ∀ op ∈ result.operations.operations, op.val.type = .move → ∃ s t, op.val.sourceNodeRefs = [s] ∧
    op.val.targetNodeRefs = [t] ∧ Geometry command result op.val s t

section Moves
variable {command : ReconcileTreesCommand} {evidence : EvidenceIndex} {result : ReconciliationResult}

theorem confirmedTargetFor_roots [PyRuntime] (hs : Stages command evidence result) : result.matchGraph.confirmedTargetFor command.sourceTree.rootNodeRef =
    some command.targetTree.rootNodeRef ↔
      Corresponding evidence command.matchingProfile command.sourceTree.rootNodeRef command.targetTree.rootNodeRef :=
  MatchGraph.confirmedTargetFor_eq_some.trans (confirmed_iff hs.matched)

/-- The move of a moved pair: its destination is right, and it leaves the confirmed target of the old parent. -/
theorem moveOf_parents (h : Admitted command) {s t : NodeRef}
    (hm : Moved (h.comparison evidence) (certainty evidence command.matchingProfile) command.operationProfile s t) :
    (∃ q, command.targetTree.parentOf t = some q ∧ (moveOf (context command result) s t).toParentRef = some q) ∧
      ∃ p, command.sourceTree.parentOf s = some p ∧
        (moveOf (context command result) s t).fromParentRef = result.matchGraph.confirmedTargetFor p := by
  obtain ⟨⟨-, p, q, hp, hq, -⟩, -⟩ := hm
  have hsource : (normalizedSource command).parentOf s = some p := hp
  have htarget : (normalizedTarget command).parentOf t = some q := hq
  rw [h.source_parent] at hp
  rw [h.target_parent] at hq
  refine ⟨⟨q, hq, htarget⟩, p, hp, ?_⟩
  show ((normalizedSource command).parentOf s).bind result.matchGraph.confirmedTargetFor = _
  rw [hsource]
  rfl

end Moves

/-- The geometry agrees exactly when the roots are matched, or no child of the source root moves. -/
theorem geometry_iff [PyRuntime] {command : ReconcileTreesCommand} {evidence : EvidenceIndex} {result : ReconciliationResult}
    (hc : Completes command result) (h : Admitted command)
    (he : extract (normalizedSource command) (normalizedTarget command) = .ok evidence) :
    GeometryAgrees command result ↔
      (.move ∈ command.operationProfile.enabledOperations → ∀ s t,
        Moved (h.comparison evidence) (certainty evidence command.matchingProfile) command.operationProfile s t →
        command.sourceTree.parentOf s = some command.sourceTree.rootNodeRef →
        Corresponding evidence command.matchingProfile command.sourceTree.rootNodeRef command.targetTree.rootNodeRef) := by
  have hs := stages_of_complete hc.1 hc.2 he
  constructor
  · intro hg hen s t hm hroot
    obtain ⟨op, hop, hval⟩ := hs.exists_op h (.moved hm hen)
    obtain ⟨s', t', hsource, -, hgeometry⟩ := hg op hop (by rw [hval]; rfl)
    obtain rfl : s = s' := by
      rw [hval] at hsource
      exact List.singleton_inj.mp hsource
    obtain ⟨p, hp, hfrom⟩ := hgeometry.from_parent
    obtain ⟨-, p', hp', hmove⟩ := moveOf_parents h hm
    obtain rfl := Option.some.inj (hroot.symm.trans hp)
    obtain rfl := Option.some.inj (hroot.symm.trans hp')
    rw [hval, hmove, parentCounterpart, if_pos rfl] at hfrom
    exact (confirmedTargetFor_roots hs).mp hfrom
  · intro hroots op hop htype
    have hreported := (hs.reported h op).mp hop
    have hchanged := ((StructuralOperation.check_ok.mp op.accepted).2.2.1 htype).1
    generalize op.val = x at hreported htype hchanged
    cases hreported with
    | @moved s t hm hen =>
      obtain ⟨hto, p, hp, hfrom⟩ := moveOf_parents h hm
      refine ⟨s, t, rfl, rfl, hto, ⟨p, hp, ?_⟩, hchanged⟩
      unfold parentCounterpart
      split
      · rename_i hpr
        subst hpr
        rw [hfrom, (confirmedTargetFor_roots hs).mpr (hroots hen s t hm hp)]
      · exact hfrom
    | @aligned s t ha hen =>
      rcases matchOf_kept (context command result) s t with hk | hk <;> rw [hk] at htype <;> cases htype
    | deleted ha hu hen => cases htype
    | inserted ha hu hen => cases htype
    | reordered hpq hsh hen => cases htype

theorem revisedBook_geometry_iff : ∃ result evidence, ∃ h : Admitted revisedBook, @Completes asciiRuntime revisedBook result ∧
    (∃ op ∈ result.operations.operations, op.val.type = .move) ∧ (GeometryAgrees revisedBook result ↔
      (.move ∈ revisedBook.operationProfile.enabledOperations → ∀ s t,
        Moved (h.comparison evidence) (certainty evidence revisedBook.matchingProfile) revisedBook.operationProfile s t →
        revisedBook.sourceTree.parentOf s = some revisedBook.sourceTree.rootNodeRef →
        Corresponding evidence revisedBook.matchingProfile revisedBook.sourceTree.rootNodeRef
          revisedBook.targetTree.rootNodeRef)) := by
  have hrun : Outcome.Returns (@reconcile asciiRuntime revisedBook) fun result => result.complete = true ∧
      ∃ op ∈ result.operations.operations, op.val.type = .move := by
    decide +kernel
  obtain ⟨result, evidence, h, hc, hmove, he⟩ := @exists_completes asciiRuntime _ _ hrun
  exact ⟨result, evidence, h, hc, hmove, @geometry_iff asciiRuntime _ _ _ hc h he⟩

/-- The roots are of different types, and the topic of the source root moves into a part. -/
def movedTopic : ReconcileTreesCommand :=
  defaultCommand
    (buildTree "book" [⟨"book", "map", none, [], []⟩, ⟨"setup", "topic", some "book", [("id", .str "s")], []⟩])
    (buildTree "guide" [⟨"guide", "bookmap", none, [], []⟩, ⟨"part", "part", some "guide", [], []⟩,
      ⟨"setup", "topic", some "part", [("id", .str "s")], []⟩])

/-- The old parent is the source root, which corresponds to the target root, and the move names none. -/
theorem movedTopic_lost : Outcome.Returns (@reconcile asciiRuntime movedTopic) fun result => result.complete = true ∧
    (∃ op ∈ result.operations.operations, op.val.type = .move ∧ op.val.sourceNodeRefs = ["setup"] ∧
      op.val.fromParentRef = none ∧
      (context movedTopic result).parentsCorrespond movedTopic.sourceTree.rootNodeRef movedTopic.targetTree.rootNodeRef = true) ∧
    ¬ GeometryAgrees movedTopic result := by
  have hrun : Outcome.Returns (@reconcile asciiRuntime movedTopic) fun result => result.complete = true ∧
      ∃ op ∈ result.operations.operations, op.val.type = .move ∧ op.val.sourceNodeRefs = ["setup"] ∧
        op.val.fromParentRef = none ∧
        (context movedTopic result).parentsCorrespond movedTopic.sourceTree.rootNodeRef
          movedTopic.targetTree.rootNodeRef = true := by
    decide +kernel
  obtain ⟨result, hrun, hcomplete, hlost⟩ := hrun
  refine ⟨result, hrun, hcomplete, hlost, fun hg => ?_⟩
  obtain ⟨op, hop, htype, hsource, hfrom, -⟩ := hlost
  obtain ⟨s, t, hs, -, hgeometry⟩ := hg op hop htype
  obtain ⟨p, hp, hp'⟩ := hgeometry.from_parent
  obtain rfl : s = "setup" := List.singleton_inj.mp (hs.symm.trans hsource)
  have hbook : movedTopic.sourceTree.parentOf "setup" = some movedTopic.sourceTree.rootNodeRef := by decide +kernel
  obtain rfl := Option.some.inj (hbook.symm.trans hp)
  rw [hfrom, parentCounterpart, if_pos rfl] at hp'
  cases hp'

end Reconciliation.Reports
