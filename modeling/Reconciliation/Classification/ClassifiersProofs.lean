/-
  Reconciliation.Classification.ClassifiersProofs — what the classifiers report.

  A context `Agrees` with a comparison when its trees are rooted, its graph confirms the
  matches and keeps the unsettled pairs ambiguous, and its alignment is the aligner's. Then
  every classifier returns, no validator fires, and the operations are exactly the
  `Reported` ones (`classify_run`): a match or an update for every aligned pair, a delete or
  an insert for every absent node, a move for every moved pair, a reorder for every ordered
  region whose matched children changed order.
-/
import Reconciliation.Alignment.AlignerProofs
import Reconciliation.Classification.Classifiers
import Reconciliation.Classification.Verdicts

namespace Reconciliation.Classification

open Reconciliation.Base Reconciliation.Contracts Reconciliation.Alignment Reconciliation.Matching
  Reconciliation.Validation

/-- The trees, the graph and the alignment of a context say what the comparison says. -/
structure Agrees (ctx : ClassificationContext) (alignmentProfile : AlignmentProfile)
    (D : Comparison NodeRef NodeRef) (certainty : NodeRef → NodeRef → ℚ) : Prop where
  source_rooted : Rooted ctx.source
  target_rooted : Rooted ctx.target
  source_eq : D.source = source_rooted.hierarchy
  target_eq : D.target = target_rooted.hierarchy
  matched_iff : ∀ s t, ctx.graph.Confirmed s t ↔ D.Matched s t
  unsettled_iff : ∀ s t, ctx.graph.Ambiguous s t ↔ D.Unsettled s t
  known : ∀ s t, D.Matched s t → s ∈ ctx.source.nodes.keys ∧ t ∈ ctx.target.nodes.keys
  certain : ∀ c ∈ ctx.graph.candidates, c.val.state = .confirmed →
    c.val.confidence.value = certainty c.val.sourceNodeRef c.val.targetNodeRef
  aligned : align ctx.source ctx.target ctx.graph alignmentProfile = .ok ctx.alignment

namespace Agrees
variable {ctx : ClassificationContext} {ap : AlignmentProfile} {D : Comparison NodeRef NodeRef}
  {certainty : NodeRef → NodeRef → ℚ} (h : Agrees ctx ap D certainty) {p q s t : NodeRef}

include h

/-! ## Parents and children -/

theorem source_parent : D.source.parent = ctx.source.parentOf := by
  rw [h.source_eq]
  rfl

theorem target_parent : D.target.parent = ctx.target.parentOf := by
  rw [h.target_eq]
  rfl

theorem paired_iff : Paired ctx.source ctx.target ctx.graph p q ↔ D.Paired p q := by
  unfold Paired Comparison.Paired
  rw [h.matched_iff, h.source_eq, h.target_eq]
  rfl

theorem paired_known (hpq : D.Paired p q) : p ∈ ctx.source.nodes.keys ∧ q ∈ ctx.target.nodes.keys := by
  rcases h.paired_iff.mpr hpq with ⟨rfl, rfl⟩ | hc
  · exact ⟨ctx.source.root_mem, ctx.target.root_mem⟩
  · exact h.known p q ((h.matched_iff p q).mp hc)

theorem mem_source_children (hpq : D.Paired p q) : s ∈ ctx.source.childrenOf p ↔ D.source.parent s = some p := by
  rw [h.source_parent, h.source_rooted.mem_children_iff (h.paired_known hpq).1]

theorem mem_target_children (hpq : D.Paired p q) : t ∈ ctx.target.childrenOf q ↔ D.target.parent t = some q := by
  rw [h.target_parent, h.target_rooted.mem_children_iff (h.paired_known hpq).2]

theorem openSource_iff : OpenSource ctx.graph s ↔ D.Open s := by
  unfold OpenSource Comparison.Open
  simp only [h.matched_iff, h.unsettled_iff]
  exact and_iff_left_of_imp fun ho t => Comparison.Open.not_matched ho

theorem openTarget_iff : OpenTarget ctx.graph t ↔ D.swap.Open t := by
  unfold OpenTarget
  simp only [h.matched_iff, h.unsettled_iff]
  exact and_iff_left_of_imp fun ho s => (show D.swap.Open t from ho).not_matched

end Agrees

/-! ## Positions -/

/-- The position the aligner gives a source child without a match in its region. -/
def sourceSlot (graph : MatchGraph) (s : NodeRef) : AlignedPairFields :=
  sourcePosition (ambiguousIndex graph (·.sourceNodeRef) (graph.confirmed.map (·.val.sourceNodeRef))) s

def targetSlot (graph : MatchGraph) (t : NodeRef) : AlignedPairFields :=
  targetPosition (ambiguousIndex graph (·.targetNodeRef) (graph.confirmed.map (·.val.targetNodeRef))) t

/-- The position of a source child that is alone. -/
def SourceSide (D : Comparison NodeRef NodeRef) (s : NodeRef) (x : AlignedPairFields) : Prop :=
  (¬ D.Open s ∧ x = ⟨.sourceOnly, some s, none, none, []⟩) ∨
    (D.Open s ∧ ∃ ids, x = ⟨.unresolvedSource, some s, none, none, ids⟩)

/-- The position of a target child that is alone. -/
def TargetSide (D : Comparison NodeRef NodeRef) (t : NodeRef) (x : AlignedPairFields) : Prop :=
  (¬ D.swap.Open t ∧ x = ⟨.targetOnly, none, some t, none, []⟩) ∨
    (D.swap.Open t ∧ ∃ ids, x = ⟨.unresolvedTarget, none, some t, none, ids⟩)

section Positions
variable {D : Comparison NodeRef NodeRef} {s t : NodeRef} {x : AlignedPairFields}

theorem SourceSide.unresolved (hx : SourceSide D s x) : x.isUnresolved = true ↔ D.Open s := by
  rcases hx with ⟨ho, rfl⟩ | ⟨ho, ids, rfl⟩
  · simp [AlignedPairFields.isUnresolved, unresolvedEdgeKinds, ho]
  · simp [AlignedPairFields.isUnresolved, unresolvedEdgeKinds, ho]

theorem TargetSide.unresolved (hx : TargetSide D t x) : x.isUnresolved = true ↔ D.swap.Open t := by
  rcases hx with ⟨ho, rfl⟩ | ⟨ho, ids, rfl⟩
  · simp [AlignedPairFields.isUnresolved, unresolvedEdgeKinds, ho]
  · simp [AlignedPairFields.isUnresolved, unresolvedEdgeKinds, ho]

end Positions

namespace Agrees
variable {ctx : ClassificationContext} {ap : AlignmentProfile} {D : Comparison NodeRef NodeRef}
  {certainty : NodeRef → NodeRef → ℚ} (h : Agrees ctx ap D certainty) {p q s t : NodeRef} {r : AlignedRegion}

include h

theorem sourceSlot_side : SourceSide D s (sourceSlot ctx.graph s) := by
  rcases sourcePosition_kind ctx.graph s with ⟨he, ho⟩ | ⟨⟨ids, he⟩, ho⟩
  · exact Or.inl ⟨fun hopen => ho (h.openSource_iff.mpr hopen), he⟩
  · exact Or.inr ⟨h.openSource_iff.mp ho, ids, he⟩

theorem targetSlot_side : TargetSide D t (targetSlot ctx.graph t) := by
  rcases targetPosition_kind ctx.graph t with ⟨he, ho⟩ | ⟨⟨ids, he⟩, ho⟩
  · exact Or.inl ⟨fun hopen => ho (h.openTarget_iff.mpr hopen), he⟩
  · exact Or.inr ⟨h.openTarget_iff.mp ho, ids, he⟩

/-- The positions of a region: its aligned pairs, and the children alone on either side. -/
theorem mem_pairs (hr : IsRegion ctx.source ctx.target ctx.graph ap p q r) (hpq : D.Paired p q) {x : AlignedPairFields} :
    x ∈ r.val.pairs.map Checked.val ↔
      (∃ s t, D.source.parent s = some p ∧ D.target.parent t = some q ∧ D.Matched s t ∧ x = alignedPosition (s, t)) ∨
      (∃ s, D.Alone p q s ∧ x = sourceSlot ctx.graph s) ∨ ∃ t, D.swap.Alone q p t ∧ x = targetSlot ctx.graph t := by
  rw [hr.pairs_eq, regionPositions, mem_positions]
  simp only [h.mem_source_children hpq, h.mem_target_children hpq, h.matched_iff]
  refine or_congr ?_ (or_congr ?_ ?_)
  · constructor
    · intro hx
      obtain ⟨s, hs, t, ht, hm, hx⟩ := hx
      exact ⟨s, t, hs, ht, hm, hx⟩
    · intro hx
      obtain ⟨s, t, hs, ht, hm, hx⟩ := hx
      exact ⟨s, hs, t, ht, hm, hx⟩
  · constructor
    · intro hx
      obtain ⟨s, hs, hno, hx⟩ := hx
      exact ⟨s, ⟨hpq, hs, hno⟩, hx⟩
    · intro hx
      obtain ⟨s, ⟨-, hs, hno⟩, hx⟩ := hx
      exact ⟨s, hs, hno, hx⟩
  · constructor
    · intro hx
      obtain ⟨t, ht, hno, hx⟩ := hx
      exact ⟨t, ⟨Comparison.paired_swap.mpr hpq, ht, hno⟩, hx⟩
    · intro hx
      obtain ⟨t, ⟨-, ht, hno⟩, hx⟩ := hx
      exact ⟨t, ht, hno, hx⟩

/-- A region is marked unresolved when a child of either parent is open. -/
theorem unresolved_iff (hr : IsRegion ctx.source ctx.target ctx.graph ap p q r) (hpq : D.Paired p q) :
    r.val.unresolved = true ↔ D.Unresolved p q := by
  have hany : r.val.unresolved = true ↔ ∃ x ∈ r.val.pairs.map Checked.val, x.isUnresolved = true := by
    rw [hr.unresolved_eq, List.any_eq_true]
    simp only [List.mem_map, exists_exists_and_eq_and]
  rw [hany]
  constructor
  · intro hx
    obtain ⟨x, hx, hu⟩ := hx
    rcases (h.mem_pairs hr hpq).mp hx with ⟨s, t, -, -, -, rfl⟩ | ⟨s, ⟨-, hs, -⟩, rfl⟩ | ⟨t, ⟨-, ht, -⟩, rfl⟩
    · simp [alignedPosition, AlignedPairFields.isUnresolved, unresolvedEdgeKinds] at hu
    · exact Or.inl ⟨s, hs, h.sourceSlot_side.unresolved.mp hu⟩
    · exact Or.inr ⟨t, ht, h.targetSlot_side.unresolved.mp hu⟩
  · intro hu
    rcases hu with ⟨s, hs, ho⟩ | ⟨t, ht, ho⟩
    · refine ⟨_, (h.mem_pairs hr hpq).mpr (Or.inr (Or.inl ⟨s, ⟨hpq, hs, fun t _ => ho.not_matched⟩, rfl⟩)), ?_⟩
      exact h.sourceSlot_side.unresolved.mpr ho
    · have hpq' : D.swap.Paired q p := Comparison.paired_swap.mpr hpq
      refine ⟨_, (h.mem_pairs hr hpq).mpr (Or.inr (Or.inr ⟨t, ⟨hpq', ht, fun s _ => ho.not_matched⟩, rfl⟩)), ?_⟩
      exact h.targetSlot_side.unresolved.mpr ho

/-! ## Pairs and moves -/

theorem parentsCorrespond_iff : ctx.parentsCorrespond p q = true ↔ D.Paired p q := by
  rw [← h.paired_iff]
  unfold ClassificationContext.parentsCorrespond Paired
  simp only [Bool.or_eq_true, decide_eq_true_eq, MatchGraph.confirmedTargetFor_eq_some]

theorem confirmedConfidence_eq (hm : D.Matched s t) : (ctx.confirmedConfidence s t).value = certainty s t := by
  obtain ⟨c, hc, hstate, hs, ht⟩ := (h.matched_iff s t).mpr hm
  unfold ClassificationContext.confirmedConfidence
  split
  · rename_i d hd
    have hp := List.find?_some hd
    simp only [decide_eq_true_eq] at hp
    have hd' := h.certain d (List.mem_of_find?_eq_some hd) hp.1
    rwa [hp.2.1, hp.2.2] at hd'
  · rename_i hnone
    exact absurd (List.find?_eq_none.mp hnone c hc) (by simp [hstate, hs, ht])

theorem mem_confirmedPairs : (s, t) ∈ ctx.confirmedPairs ↔ D.Matched s t :=
  ctx.mem_confirmedPairs.trans (h.matched_iff s t)

omit h in
theorem confirmedPairs_nodup (ctx : ClassificationContext) : ctx.confirmedPairs.Nodup := by
  have hnodup : (ctx.graph.confirmed.map fun c => (c.val.sourceNodeRef, c.val.targetNodeRef)).Nodup := by
    refine List.Nodup.of_map Prod.fst ?_
    rw [List.map_map]
    exact (MatchGraph.oneToOne_ok.mp ctx.graph.accepted).1
  exact (((sortedBy_perm _ _).map _).nodup_iff).mpr hnodup

/-- Whether a matched pair crosses is decided. -/
theorem isCrossParent_run (hm : D.Matched s t) :
    ∃ cross, ctx.isCrossParent s t = .ok cross ∧ (cross = true ↔ D.Crosses s t) := by
  obtain ⟨hs, ht⟩ := h.known s t hm
  obtain ⟨sourceNode, hs⟩ := (Dict.mem_keys _).mp hs
  obtain ⟨targetNode, ht⟩ := (Dict.mem_keys _).mp ht
  unfold ClassificationContext.isCrossParent Comparison.Crosses
  simp only [CanonicalTree.node_ok.mpr hs, CanonicalTree.node_ok.mpr ht, bind, Except.bind, pure, Except.pure,
    h.source_parent, h.target_parent, CanonicalTree.parentOf_eq hs, CanonicalTree.parentOf_eq ht]
  split
  · rename_i p q hp hq
    refine ⟨_, rfl, ?_⟩
    rw [Bool.not_eq_true', ← Bool.not_eq_true, h.parentsCorrespond_iff, hp, hq]
    simp [hm]
  · rename_i hno
    refine ⟨false, rfl, ⟨fun hf => absurd hf (by simp), fun hc => ?_⟩⟩
    obtain ⟨-, p, q, hp, hq, -⟩ := hc
    exact absurd hq (hno p q hp)

/-- Whether a matched pair moved is decided. -/
theorem movePair_run (hm : D.Matched s t) : ∃ found, ctx.movePair (s, t) = .ok found ∧
    ∀ x, found = some x ↔ x = (s, t) ∧ Moved D certainty ctx.profile s t := by
  obtain ⟨cross, hcross, hiff⟩ := h.isCrossParent_run hm
  refine ⟨_, by unfold ClassificationContext.movePair; rw [hcross]; rfl, fun x => ?_⟩
  rw [Moved, ← hiff, ← h.confirmedConfidence_eq hm]
  by_cases hc : cross = true ∧ ctx.profile.moveConfidenceThreshold ≤ (ctx.confirmedConfidence s t).value
  · simp only [hc, and_self, if_true, Option.some.injEq, and_true]
    exact eq_comm
  · simp only [hc, if_false, and_false, iff_false]
    exact fun he => absurd he (by simp)

/-- The move pairs are the moved pairs, each once. -/
theorem movePairs_run : ∃ moves, ctx.movePairs = .ok moves ∧ moves.Nodup ∧
    ∀ s t, (s, t) ∈ moves ↔ Moved D certainty ctx.profile s t := by
  obtain ⟨found, hfound⟩ := Outcome.mapM_total (f := ctx.movePair) (l := ctx.confirmedPairs) fun x hx => by
    obtain ⟨o, ho, -⟩ := h.movePair_run (h.mem_confirmedPairs.mp hx)
    exact ⟨o, ho⟩
  have hmem : ∀ s t, some (s, t) ∈ found ↔ Moved D certainty ctx.profile s t := by
    intro s t
    rw [Outcome.mapM_mem hfound]
    constructor
    · intro hx
      obtain ⟨⟨s', t'⟩, hx, hrun⟩ := hx
      obtain ⟨o, ho, hiff⟩ := h.movePair_run (h.mem_confirmedPairs.mp hx)
      rw [hrun] at ho
      cases ho
      obtain ⟨he, hmoved⟩ := (hiff (s, t)).mp rfl
      cases he
      exact hmoved
    · intro hmoved
      obtain ⟨o, ho, hiff⟩ := h.movePair_run hmoved.1.1
      refine ⟨(s, t), h.mem_confirmedPairs.mpr hmoved.1.1, ?_⟩
      rw [ho, (hiff (s, t)).mpr ⟨rfl, hmoved⟩]
  refine ⟨found.reduceOption, by unfold ClassificationContext.movePairs; rw [hfound]; rfl, ?_, fun s t => ?_⟩
  · refine (confirmedPairs_nodup ctx).sublist (Outcome.reduceOption_sublist ?_)
    refine (Outcome.mapM_ok.mp hfound).imp fun x o ho b hb => ?_
    unfold ClassificationContext.movePair at ho
    simp only [Outcome.bind_ok, Outcome.pure_ok] at ho
    obtain ⟨cross, -, rfl⟩ := ho
    split at hb
    · exact (Option.some.inj hb).symm
    · cases hb
  · rw [List.reduceOption_mem_iff]
    exact hmem s t

end Agrees

/-! ## Matches and updates -/

/-- The content properties of the two nodes differ. -/
def contentChanged (source target : CanonicalTree) (s t : NodeRef) : Bool :=
  match source.nodes.get? s, target.nodes.get? t with
  | some sourceNode, some targetNode => !sourceNode.contentProperties.pyEq targetNode.contentProperties
  | _, _ => false

/-- The match or the update of an aligned pair. -/
def matchOf (ctx : ClassificationContext) (s t : NodeRef) : StructuralOperationFields :=
  matchFields (contentChanged ctx.source ctx.target s t) (ctx.confirmedConfidence s t) s t

theorem matchOf_type (ctx : ClassificationContext) (s t : NodeRef) :
    (matchOf ctx s t).type = if contentChanged ctx.source ctx.target s t then .update else .match_ := rfl

theorem matchFields_check (changed : Bool) (confidence : Confidence) (s t : NodeRef) :
    (matchFields changed confidence s t).check = .ok () := by
  rw [StructuralOperation.check_ok]
  cases changed with
  | true => simp [matchFields]
  | false => simp [matchFields]

theorem SourceSide.kind {D : Comparison NodeRef NodeRef} {s : NodeRef} {x : AlignedPairFields} (hx : SourceSide D s x) :
    (x.kind = .sourceOnly ∨ x.kind = .unresolvedSource) ∧ x.sourceNodeRef = some s := by
  rcases hx with ⟨-, rfl⟩ | ⟨-, ids, rfl⟩
  · exact ⟨Or.inl rfl, rfl⟩
  · exact ⟨Or.inr rfl, rfl⟩

theorem TargetSide.kind {D : Comparison NodeRef NodeRef} {t : NodeRef} {x : AlignedPairFields} (hx : TargetSide D t x) :
    (x.kind = .targetOnly ∨ x.kind = .unresolvedTarget) ∧ x.targetNodeRef = some t := by
  rcases hx with ⟨-, rfl⟩ | ⟨-, ids, rfl⟩
  · exact ⟨Or.inl rfl, rfl⟩
  · exact ⟨Or.inr rfl, rfl⟩

theorem SourceSide.not_aligned {D : Comparison NodeRef NodeRef} {s : NodeRef} {x : AlignedPairFields}
    (hx : SourceSide D s x) : x.kind ≠ .aligned := by
  intro hk
  rcases hx.kind.1 with hk' | hk'
  · exact absurd (hk.symm.trans hk') (by simp)
  · exact absurd (hk.symm.trans hk') (by simp)

theorem TargetSide.not_aligned {D : Comparison NodeRef NodeRef} {t : NodeRef} {x : AlignedPairFields}
    (hx : TargetSide D t x) : x.kind ≠ .aligned := by
  intro hk
  rcases hx.kind.1 with hk' | hk'
  · exact absurd (hk.symm.trans hk') (by simp)
  · exact absurd (hk.symm.trans hk') (by simp)

namespace Agrees
variable {ctx : ClassificationContext} {ap : AlignmentProfile} {D : Comparison NodeRef NodeRef}
  {certainty : NodeRef → NodeRef → ℚ} (h : Agrees ctx ap D certainty) {p q : NodeRef} {r : AlignedRegion} {c : AlignedPair}

include h

/-- A position of a region: an aligned pair, or a child alone on one side. -/
theorem position_cases (hr : IsRegion ctx.source ctx.target ctx.graph ap p q r) (hpq : D.Paired p q)
    (hc : c ∈ r.val.pairs) :
    (∃ s t, D.Aligned s t ∧ c.val = alignedPosition (s, t)) ∨
      (∃ s, D.Alone p q s ∧ c.val = sourceSlot ctx.graph s ∧ SourceSide D s c.val) ∨
      ∃ t, D.swap.Alone q p t ∧ c.val = targetSlot ctx.graph t ∧ TargetSide D t c.val := by
  rcases (h.mem_pairs hr hpq).mp (List.mem_map.mpr ⟨c, hc, rfl⟩) with ⟨s, t, hs, ht, hm, hx⟩ | ⟨s, hs, hx⟩ | ⟨t, ht, hx⟩
  · exact Or.inl ⟨s, t, ⟨hm, p, q, hs, ht, hpq⟩, hx⟩
  · exact Or.inr (Or.inl ⟨s, hs, hx, hx ▸ h.sourceSlot_side⟩)
  · exact Or.inr (Or.inr ⟨t, ht, hx, hx ▸ h.targetSlot_side⟩)

/-- A matched position of a region is the aligned position of two matched children. -/
theorem matched_position (hr : IsRegion ctx.source ctx.target ctx.graph ap p q r) (hpq : D.Paired p q)
    (hc : c ∈ r.matched) : ∃ s t, D.source.parent s = some p ∧ D.target.parent t = some q ∧ D.Matched s t ∧
      c.val = alignedPosition (s, t) := by
  have hin : c.val ∈ r.matched.map Checked.val := List.mem_map.mpr ⟨c, hc, rfl⟩
  rw [matched_eq hr] at hin
  obtain ⟨⟨s, t⟩, hst, hx⟩ := List.mem_map.mp hin
  obtain ⟨hs, ht, hm⟩ := mem_matchedPairs.mp hst
  exact ⟨s, t, (h.mem_source_children hpq).mp hs, (h.mem_target_children hpq).mp ht, (h.matched_iff s t).mp hm, hx.symm⟩

theorem exists_matched (hr : IsRegion ctx.source ctx.target ctx.graph ap p q r) (hpq : D.Paired p q) {s t : NodeRef}
    (hs : D.source.parent s = some p) (ht : D.target.parent t = some q) (hm : D.Matched s t) :
    ∃ c ∈ r.matched, c.val = alignedPosition (s, t) := by
  have hin : alignedPosition (s, t) ∈ r.matched.map Checked.val := by
    rw [matched_eq hr]
    exact List.mem_map_of_mem (mem_matchedPairs.mpr
      ⟨(h.mem_source_children hpq).mpr hs, (h.mem_target_children hpq).mpr ht, (h.matched_iff s t).mpr hm⟩)
  exact List.mem_map.mp hin

omit h in
theorem matchOperation_other (hkind : c.val.kind ≠ .aligned) : Outcome.Emits (matchOperation ctx c) fun op =>
    ∃ s t, c.val = alignedPosition (s, t) ∧ op.val = matchOf ctx s t ∧ op.val.type ∈ ctx.profile.enabledOperations := by
  unfold matchOperation
  rw [if_pos hkind]
  refine Outcome.emits_nothing fun op hop => ?_
  obtain ⟨s, t, he, -⟩ := hop
  exact hkind (congrArg AlignedPairFields.kind he)

/-- An aligned position emits its match or update, unless that is disabled. -/
theorem matchOperation_run (hr : IsRegion ctx.source ctx.target ctx.graph ap p q r) (hpq : D.Paired p q)
    (hc : c ∈ r.val.pairs) : Outcome.Emits (matchOperation ctx c) fun op =>
      ∃ s t, c.val = alignedPosition (s, t) ∧ op.val = matchOf ctx s t ∧ op.val.type ∈ ctx.profile.enabledOperations := by
  rcases h.position_cases hr hpq hc with ⟨s, t, halign, hx⟩ | ⟨s, -, -, hx⟩ | ⟨t, -, -, hx⟩
  · obtain ⟨hs, ht⟩ := h.known s t halign.1
    obtain ⟨sourceNode, hs⟩ := (Dict.mem_keys _).mp hs
    obtain ⟨targetNode, ht⟩ := (Dict.mem_keys _).mp ht
    have hchanged : contentChanged ctx.source ctx.target s t =
        !sourceNode.contentProperties.pyEq targetNode.contentProperties := by
      unfold contentChanged
      rw [hs, ht]
    have hrun : matchOperation ctx c = if (matchOf ctx s t).type ∉ ctx.profile.enabledOperations then .ok [] else do
        let op ← Checked.build StructuralOperationFields.check (matchOf ctx s t)
        return [op] := by
      unfold matchOperation matchOf
      rw [hx, hchanged]
      simp only [alignedPosition, ne_eq, not_true, if_false, CanonicalTree.node_ok.mpr hs, CanonicalTree.node_ok.mpr ht,
        bind, Except.bind]
      rfl
    rw [hrun]
    refine (Checked.emits_build (matchFields_check _ _ s t)).unless.congr fun op => ?_
    constructor
    · intro hop
      obtain ⟨hen, hval⟩ := hop
      exact ⟨s, t, hx, hval, by rw [hval]; exact not_not.mp hen⟩
    · intro hop
      obtain ⟨s', t', he, hval, hen⟩ := hop
      rw [hx] at he
      cases he
      rw [hval] at hen
      exact ⟨not_not.mpr hen, hval⟩
  · exact matchOperation_other hx.not_aligned
  · exact matchOperation_other hx.not_aligned

/-- No aligned position comes twice: it tells the parents, and these their region. -/
theorem aligned_nodup :
    ((ctx.alignment.val.regions.flatMap (·.val.pairs)).filter fun c => c.val.kind = .aligned).Nodup := by
  rw [List.filter_flatMap, List.nodup_flatMap]
  constructor
  · intro r hr
    obtain ⟨p, q, -, hregion⟩ := region_parents h.aligned hr
    exact matched_nodup hregion
  · refine List.Pairwise.imp_of_mem ?_ (List.Nodup.of_map _ ctx.alignment.regionIds_nodup)
    intro r r' hr hr' hne c hc hc'
    obtain ⟨p, q, hpq, hregion⟩ := region_parents h.aligned hr
    obtain ⟨p', q', hpq', hregion'⟩ := region_parents h.aligned hr'
    obtain ⟨s, t, hs, ht, -, hx⟩ := h.matched_position hregion (h.paired_iff.mp hpq) hc
    obtain ⟨s', t', hs', ht', -, hx'⟩ := h.matched_position hregion' (h.paired_iff.mp hpq') hc'
    obtain ⟨rfl, rfl⟩ : s = s' ∧ t = t' := by
      rw [hx] at hx'
      cases hx'
      exact ⟨rfl, rfl⟩
    obtain rfl := Option.some.inj (hs.symm.trans hs')
    obtain rfl := Option.some.inj (ht.symm.trans ht')
    exact hne (List.inj_on_of_nodup_map ctx.alignment.regionIds_nodup hr hr' (hregion.id_eq.trans hregion'.id_eq.symm))

/-- A position names a source child of its region, or else a target child. -/
theorem position_child (hr : IsRegion ctx.source ctx.target ctx.graph ap p q r) (hpq : D.Paired p q)
    (hc : c ∈ r.val.pairs) : (∃ s, c.val.sourceNodeRef = some s ∧ D.source.parent s = some p) ∨
      (c.val.sourceNodeRef = none ∧ ∃ t, c.val.targetNodeRef = some t ∧ D.target.parent t = some q) := by
  rcases (h.mem_pairs hr hpq).mp (List.mem_map.mpr ⟨c, hc, rfl⟩) with
    ⟨s, t, hs, -, -, hx⟩ | ⟨s, ⟨-, hs, -⟩, hx⟩ | ⟨t, ⟨-, ht, -⟩, hx⟩
  · exact Or.inl ⟨s, by rw [hx]; rfl, hs⟩
  · exact Or.inl ⟨s, by rw [hx]; exact (sourcePosition_refs _ s).1, hs⟩
  · exact Or.inr ⟨by rw [hx]; exact (targetPosition_refs _ t).1, t, by rw [hx]; exact (targetPosition_refs _ t).2, ht⟩

/-- When parents are paired one to one, no position comes twice. -/
theorem positions_nodup (hunique : ∀ {p q p' q'}, D.Paired p q → D.Paired p' q' → p = p' ∨ q = q' → p = p' ∧ q = q') :
    (ctx.alignment.val.regions.flatMap (·.val.pairs)).Nodup := by
  rw [List.nodup_flatMap]
  constructor
  · intro r hr
    obtain ⟨p, q, -, hregion⟩ := region_parents h.aligned hr
    refine List.Nodup.of_map Checked.val ?_
    rw [hregion.pairs_eq]
    exact Alignment.positions_nodup (Rooted.children_nodup _) (Rooted.children_nodup _)
  · refine List.Pairwise.imp_of_mem ?_ (List.Nodup.of_map _ ctx.alignment.regionIds_nodup)
    intro r r' hr hr' hne c hc hc'
    obtain ⟨p, q, hpq, hregion⟩ := region_parents h.aligned hr
    obtain ⟨p', q', hpq', hregion'⟩ := region_parents h.aligned hr'
    replace hpq := h.paired_iff.mp hpq
    replace hpq' := h.paired_iff.mp hpq'
    have hparent : p = p' ∨ q = q' := by
      rcases h.position_child hregion hpq hc with ⟨s, hs, hp⟩ | ⟨hnone, t, ht, hq⟩
      · rcases h.position_child hregion' hpq' hc' with ⟨s', hs', hp'⟩ | ⟨hnone', -⟩
        · obtain rfl := Option.some.inj (hs.symm.trans hs')
          exact Or.inl (Option.some.inj (hp.symm.trans hp'))
        · exact absurd (hs.symm.trans hnone') (by simp)
      · rcases h.position_child hregion' hpq' hc' with ⟨s', hs', -⟩ | ⟨-, t', ht', hq'⟩
        · exact absurd (hnone.symm.trans hs') (by simp)
        · obtain rfl := Option.some.inj (ht.symm.trans ht')
          exact Or.inr (Option.some.inj (hq.symm.trans hq'))
    obtain ⟨rfl, rfl⟩ := hunique hpq hpq' hparent
    exact hne (List.inj_on_of_nodup_map ctx.alignment.regionIds_nodup hr hr' (hregion.id_eq.trans hregion'.id_eq.symm))

/-- The matches and updates are those of the aligned pairs, each once. -/
theorem matchUpdate_run : ∃ ops, matchUpdate ctx = .ok ops ∧ ops.Nodup ∧ ∀ op, op ∈ ops ↔
    ∃ s t, D.Aligned s t ∧ op.val = matchOf ctx s t ∧ op.val.type ∈ ctx.profile.enabledOperations := by
  have hregion : ∀ {c : AlignedPair}, c ∈ ctx.alignment.val.regions.flatMap (·.val.pairs) → ∃ p q r,
      IsRegion ctx.source ctx.target ctx.graph ap p q r ∧ D.Paired p q ∧ c ∈ r.val.pairs := by
    intro c hc
    obtain ⟨r, hr, hc⟩ := List.mem_flatMap.mp hc
    obtain ⟨p, q, hpq, hregion⟩ := region_parents h.aligned hr
    exact ⟨p, q, r, hregion, h.paired_iff.mp hpq, hc⟩
  obtain ⟨found, hfound, hmem, hnodup⟩ := Outcome.emits_flatten (f := matchOperation ctx)
    (l := ctx.alignment.val.regions.flatMap (·.val.pairs)) fun c hc => by
      obtain ⟨p, q, r, hr, hpq, hc⟩ := hregion hc
      exact h.matchOperation_run hr hpq hc
  refine ⟨found.flatten, by unfold matchUpdate; rw [hfound]; rfl, hnodup ?_, fun op => ?_⟩
  · refine (List.pairwise_filter.mp h.aligned_nodup).imp fun {c c'} hne op hop hop' => ?_
    obtain ⟨s, t, hx, hval, -⟩ := hop
    obtain ⟨s', t', hx', hval', -⟩ := hop'
    rw [hval] at hval'
    have hs : [s] = [s'] := congrArg StructuralOperationFields.sourceNodeRefs hval'
    have ht : [t] = [t'] := congrArg StructuralOperationFields.targetNodeRefs hval'
    cases hs
    cases ht
    refine hne (decide_eq_true ?_) (decide_eq_true ?_) (Checked.ext_val (hx.trans hx'.symm))
    · exact congrArg AlignedPairFields.kind hx
    · exact congrArg AlignedPairFields.kind hx'
  · rw [hmem]
    constructor
    · intro hop
      obtain ⟨c, hc, s, t, hx, hval, hen⟩ := hop
      obtain ⟨p, q, r, hr, hpq, hc⟩ := hregion hc
      rcases h.position_cases hr hpq hc with ⟨s', t', halign, he⟩ | ⟨s', -, -, he⟩ | ⟨t', -, -, he⟩
      · rw [hx] at he
        cases he
        exact ⟨s, t, halign, hval, hen⟩
      · exact absurd (congrArg AlignedPairFields.kind hx) he.not_aligned
      · exact absurd (congrArg AlignedPairFields.kind hx) he.not_aligned
    · intro hop
      obtain ⟨s, t, ⟨hm, p, q, hs, ht, hpq⟩, hval, hen⟩ := hop
      obtain ⟨r, hr, hregion⟩ := exists_region h.aligned (h.paired_iff.mpr hpq)
      obtain ⟨c, hc, hx⟩ := List.mem_map.mp ((h.mem_pairs hregion hpq).mpr (Or.inl ⟨s, t, hs, ht, hm, rfl⟩))
      exact ⟨c, List.mem_flatMap.mpr ⟨r, hr, hc⟩, s, t, hx, hval, hen⟩

end Agrees

/-! ## Inserts and deletes -/

theorem deleteFields_check (unresolved : Bool) (s : NodeRef) : (deleteFields unresolved s).check = .ok () := by
  rw [StructuralOperation.check_ok]
  simp [deleteFields]

theorem insertFields_check (unresolved : Bool) (t : NodeRef) : (insertFields unresolved t).check = .ok () := by
  rw [StructuralOperation.check_ok]
  simp [insertFields]

section Ambiguous
variable {ctx : ClassificationContext} {s t : NodeRef}

/-- The cached ambiguous sources are the endpoints of ambiguous candidates that no candidate confirms. -/
theorem mem_ambiguousSources : s ∈ ctx.ambiguousSourceRefs ↔ OpenSource ctx.graph s := by
  unfold ClassificationContext.ambiguousSourceRefs OpenSource
  rw [List.mem_map]
  simp only [List.mem_filter, MatchGraph.mem_ambiguous, mem_confirmedSources, decide_eq_true_eq]
  constructor
  · intro hs
    obtain ⟨c, ⟨⟨hc, hstate⟩, hno⟩, rfl⟩ := hs
    exact ⟨⟨_, c, hc, hstate, rfl, rfl⟩, not_exists.mp hno⟩
  · intro hs
    obtain ⟨⟨t, c, hc, hstate, rfl, -⟩, hno⟩ := hs
    exact ⟨c, ⟨⟨hc, hstate⟩, not_exists.mpr hno⟩, rfl⟩

theorem mem_ambiguousTargets : t ∈ ctx.ambiguousTargetRefs ↔ OpenTarget ctx.graph t := by
  unfold ClassificationContext.ambiguousTargetRefs OpenTarget
  rw [List.mem_map]
  simp only [List.mem_filter, MatchGraph.mem_ambiguous, mem_confirmedTargets, decide_eq_true_eq]
  constructor
  · intro ht
    obtain ⟨c, ⟨⟨hc, hstate⟩, hno⟩, rfl⟩ := ht
    exact ⟨⟨_, c, hc, hstate, rfl, rfl⟩, not_exists.mp hno⟩
  · intro ht
    obtain ⟨⟨s, c, hc, hstate, -, rfl⟩, hno⟩ := ht
    exact ⟨c, ⟨⟨hc, hstate⟩, not_exists.mpr hno⟩, rfl⟩

end Ambiguous

namespace Agrees
variable {ctx : ClassificationContext} {ap : AlignmentProfile} {D : Comparison NodeRef NodeRef}
  {certainty : NodeRef → NodeRef → ℚ} (h : Agrees ctx ap D certainty) {p q s t : NodeRef} {r : AlignedRegion}
  {c : AlignedPair}

include h

theorem mem_ambiguousSourceRefs : s ∈ ctx.ambiguousSourceRefs ↔ D.Open s :=
  mem_ambiguousSources.trans h.openSource_iff

theorem mem_ambiguousTargetRefs : t ∈ ctx.ambiguousTargetRefs ↔ D.swap.Open t :=
  mem_ambiguousTargets.trans h.openTarget_iff

theorem suppressedRegion_iff (hr : IsRegion ctx.source ctx.target ctx.graph ap p q r) (hpq : D.Paired p q) :
    ctx.presenceSuppressedRegion r = true ↔ RegionWithheld D ctx.profile p q := by
  unfold ClassificationContext.presenceSuppressedRegion RegionWithheld
  rw [Bool.and_eq_true, decide_eq_true_eq, h.unresolved_iff hr hpq]

/-- A source position is suppressed exactly when its node is open, unless everything is emitted. -/
theorem suppressedSource_iff (hx : SourceSide D s c.val) :
    ctx.presenceSuppressedPair c = true ↔ ctx.profile.unresolvedPresencePolicy ≠ .emitAll ∧ D.Open s := by
  unfold ClassificationContext.presenceSuppressedPair
  by_cases hpolicy : ctx.profile.unresolvedPresencePolicy = .emitAll
  · simp [hpolicy]
  · rcases hx with ⟨ho, hx⟩ | ⟨ho, ids, hx⟩
    · simp [AlignedPairFields.isUnresolved, unresolvedEdgeKinds, hx, hpolicy, h.mem_ambiguousSourceRefs, ho]
    · simp [AlignedPairFields.isUnresolved, unresolvedEdgeKinds, hx, hpolicy, ho]

theorem suppressedTarget_iff (hx : TargetSide D t c.val) :
    ctx.presenceSuppressedPair c = true ↔ ctx.profile.unresolvedPresencePolicy ≠ .emitAll ∧ D.swap.Open t := by
  unfold ClassificationContext.presenceSuppressedPair
  by_cases hpolicy : ctx.profile.unresolvedPresencePolicy = .emitAll
  · simp [hpolicy]
  · rcases hx with ⟨ho, hx⟩ | ⟨ho, ids, hx⟩
    · simp [AlignedPairFields.isUnresolved, unresolvedEdgeKinds, hx, hpolicy, h.mem_ambiguousTargetRefs, ho]
    · simp [AlignedPairFields.isUnresolved, unresolvedEdgeKinds, hx, hpolicy, ho]

/-- A source position emits the delete of its node, unless that is suppressed, moved or disabled. -/
theorem presence_source {moved movedTargets : List NodeRef} (hx : SourceSide D s c.val) :
    Outcome.Emits (presenceOperation ctx moved movedTargets c) fun op =>
      ¬ (ctx.profile.unresolvedPresencePolicy ≠ .emitAll ∧ D.Open s) ∧ s ∉ moved ∧
        .delete ∈ ctx.profile.enabledOperations ∧ op.val = deleteFields c.val.isUnresolved s := by
  obtain ⟨hkind, href⟩ := hx.kind
  unfold presenceOperation
  rw [if_neg hx.not_aligned, if_pos hkind, href]
  refine (Checked.emits_build (deleteFields_check _ s)).unless.unless.unless.congr fun op => ?_
  rw [h.suppressedSource_iff hx, not_not]

theorem presence_target {movedSources moved : List NodeRef} (hx : TargetSide D t c.val) :
    Outcome.Emits (presenceOperation ctx movedSources moved c) fun op =>
      ¬ (ctx.profile.unresolvedPresencePolicy ≠ .emitAll ∧ D.swap.Open t) ∧ t ∉ moved ∧
        .insert ∈ ctx.profile.enabledOperations ∧ op.val = insertFields c.val.isUnresolved t := by
  obtain ⟨hkind, href⟩ := hx.kind
  have hns : ¬ (c.val.kind = .sourceOnly ∨ c.val.kind = .unresolvedSource) := by
    rcases hkind with hk | hk
    · simp [hk]
    · simp [hk]
  unfold presenceOperation
  rw [if_neg hx.not_aligned, if_neg hns, href]
  refine (Checked.emits_build (insertFields_check _ t)).unless.unless.unless.congr fun op => ?_
  rw [h.suppressedTarget_iff hx, not_not]

end Agrees

/-- What a position emits as a presence operation, given the nodes that moved. -/
def Presence (ctx : ClassificationContext) (D : Comparison NodeRef NodeRef) (movedSources movedTargets : List NodeRef)
    (c : AlignedPair) (op : StructuralOperation) : Prop :=
  (∃ s, c.val = sourceSlot ctx.graph s ∧ SourceSide D s c.val ∧
      ¬ (ctx.profile.unresolvedPresencePolicy ≠ .emitAll ∧ D.Open s) ∧ s ∉ movedSources ∧
      .delete ∈ ctx.profile.enabledOperations ∧ op.val = deleteFields c.val.isUnresolved s) ∨
    ∃ t, c.val = targetSlot ctx.graph t ∧ TargetSide D t c.val ∧
      ¬ (ctx.profile.unresolvedPresencePolicy ≠ .emitAll ∧ D.swap.Open t) ∧ t ∉ movedTargets ∧
      .insert ∈ ctx.profile.enabledOperations ∧ op.val = insertFields c.val.isUnresolved t

theorem SourceSide.not_target {D : Comparison NodeRef NodeRef} {s t : NodeRef} {x : AlignedPairFields}
    (hs : SourceSide D s x) : ¬ TargetSide D t x := by
  intro ht
  rcases ht with ⟨-, rfl⟩ | ⟨-, ids, rfl⟩
  · exact absurd hs.kind.2 (by simp)
  · exact absurd hs.kind.2 (by simp)

theorem SourceSide.unique {D : Comparison NodeRef NodeRef} {s s' : NodeRef} {x : AlignedPairFields}
    (h : SourceSide D s x) (h' : SourceSide D s' x) : s = s' := Option.some.inj (h.kind.2.symm.trans h'.kind.2)

theorem TargetSide.unique {D : Comparison NodeRef NodeRef} {t t' : NodeRef} {x : AlignedPairFields}
    (h : TargetSide D t x) (h' : TargetSide D t' x) : t = t' := Option.some.inj (h.kind.2.symm.trans h'.kind.2)

/-- A presence operation tells the position it comes from. -/
theorem Presence.unique {ctx : ClassificationContext} {D : Comparison NodeRef NodeRef} {ms mt : List NodeRef}
    {c c' : AlignedPair} {op : StructuralOperation} (h : Presence ctx D ms mt c op) (h' : Presence ctx D ms mt c' op) :
    c = c' := by
  rcases h with ⟨s, hx, -, -, -, -, hval⟩ | ⟨t, hx, -, -, -, -, hval⟩
  · rcases h' with ⟨s', hx', -, -, -, -, hval'⟩ | ⟨t', -, -, -, -, -, hval'⟩
    · have hs : [s] = [s'] := congrArg StructuralOperationFields.sourceNodeRefs (hval.symm.trans hval')
      cases hs
      exact Checked.ext_val (hx.trans hx'.symm)
    · have hs : [s] = [] := congrArg StructuralOperationFields.sourceNodeRefs (hval.symm.trans hval')
      cases hs
  · rcases h' with ⟨s', -, -, -, -, -, hval'⟩ | ⟨t', hx', -, -, -, -, hval'⟩
    · have ht : [t] = [] := congrArg StructuralOperationFields.targetNodeRefs (hval.symm.trans hval')
      cases ht
    · have ht : [t] = [t'] := congrArg StructuralOperationFields.targetNodeRefs (hval.symm.trans hval')
      cases ht
      exact Checked.ext_val (hx.trans hx'.symm)

/-- What the region of `p` and `q` reports as present on one side only. -/
def PresenceIn (ctx : ClassificationContext) (D : Comparison NodeRef NodeRef) (certainty : NodeRef → NodeRef → ℚ)
    (p q : NodeRef) (op : StructuralOperation) : Prop :=
  (∃ s u, AbsentIn D certainty ctx.profile p q s ∧ (u = true ↔ D.Open s) ∧
      .delete ∈ ctx.profile.enabledOperations ∧ op.val = deleteFields u s) ∨
    ∃ t u, AbsentIn D.swap (fun b a => certainty a b) ctx.profile q p t ∧ (u = true ↔ D.swap.Open t) ∧
      .insert ∈ ctx.profile.enabledOperations ∧ op.val = insertFields u t

theorem PresenceIn.region {ctx : ClassificationContext} {D : Comparison NodeRef NodeRef}
    {certainty : NodeRef → NodeRef → ℚ} {p q : NodeRef} {op : StructuralOperation}
    (h : PresenceIn ctx D certainty p q op) : D.Paired p q ∧ ¬ RegionWithheld D ctx.profile p q := by
  rcases h with ⟨s, u, ⟨halone, hw, -⟩, -⟩ | ⟨t, u, ⟨halone, hw, -⟩, -⟩
  · exact ⟨halone.1, fun hr => hw (Or.inl hr)⟩
  · exact ⟨Comparison.paired_swap.mp halone.1, fun hr => hw (Or.inl (regionWithheld_swap.mpr hr))⟩

namespace Agrees
variable {ctx : ClassificationContext} {ap : AlignmentProfile} {D : Comparison NodeRef NodeRef}
  {certainty : NodeRef → NodeRef → ℚ} (h : Agrees ctx ap D certainty) {p q : NodeRef} {r : AlignedRegion}
  {c : AlignedPair}

include h

theorem presence_run {ms mt : List NodeRef} (hr : IsRegion ctx.source ctx.target ctx.graph ap p q r)
    (hpq : D.Paired p q) (hc : c ∈ r.val.pairs) :
    Outcome.Emits (presenceOperation ctx ms mt c) (Presence ctx D ms mt c) := by
  rcases h.position_cases hr hpq hc with ⟨s, t, -, hx⟩ | ⟨s, -, he, hx⟩ | ⟨t, -, he, hx⟩
  · have hkind : c.val.kind = .aligned := by rw [hx]; rfl
    unfold presenceOperation
    rw [if_pos hkind]
    refine Outcome.emits_nothing fun op hop => ?_
    rcases hop with ⟨s', -, hs, -⟩ | ⟨t', -, ht, -⟩
    · exact hs.not_aligned hkind
    · exact ht.not_aligned hkind
  · refine (h.presence_source hx).congr fun op => ⟨fun hop => Or.inl ⟨s, he, hx, hop⟩, fun hop => ?_⟩
    rcases hop with ⟨s', -, hs, hop⟩ | ⟨t', -, ht, -⟩
    · rwa [← hx.unique hs] at hop
    · exact absurd ht hx.not_target
  · refine (h.presence_target hx).congr fun op => ⟨fun hop => Or.inr ⟨t, he, hx, hop⟩, fun hop => ?_⟩
    rcases hop with ⟨s', -, hs, -⟩ | ⟨t', -, ht, hop⟩
    · exact absurd hx hs.not_target
    · rwa [← hx.unique ht] at hop

/-- The positions whose presence operations are looked at. -/
def presencePositions (ctx : ClassificationContext) : List AlignedPair :=
  (ctx.alignment.val.regions.filter fun region => !ctx.presenceSuppressedRegion region).flatMap (·.val.pairs)

theorem mem_presencePositions : c ∈ presencePositions ctx ↔ ∃ p q r, r ∈ ctx.alignment.val.regions ∧
    IsRegion ctx.source ctx.target ctx.graph ap p q r ∧ D.Paired p q ∧ ¬ RegionWithheld D ctx.profile p q ∧
      c ∈ r.val.pairs := by
  unfold presencePositions
  simp only [List.mem_flatMap, List.mem_filter, Bool.not_eq_true', ← Bool.not_eq_true]
  constructor
  · intro hc
    obtain ⟨r, ⟨hr, hs⟩, hc⟩ := hc
    obtain ⟨p, q, hpq, hregion⟩ := region_parents h.aligned hr
    replace hpq := h.paired_iff.mp hpq
    exact ⟨p, q, r, hr, hregion, hpq, fun hw => hs ((h.suppressedRegion_iff hregion hpq).mpr hw), hc⟩
  · intro hc
    obtain ⟨p, q, r, hr, hregion, hpq, hw, hc⟩ := hc
    exact ⟨r, ⟨hr, fun hs => hw ((h.suppressedRegion_iff hregion hpq).mp hs)⟩, hc⟩

/-- The loop over the positions ends, each of them emitting its presence operation. -/
theorem insertDelete_emits : ∃ ms mt found,
    (∀ s, s ∈ ms ↔ ∃ t, Moved D certainty ctx.profile s t) ∧
    (∀ t, t ∈ mt ↔ ∃ s, Moved D.swap (fun b a => certainty a b) ctx.profile t s) ∧
    (∀ c ∈ presencePositions ctx, Outcome.Emits (presenceOperation ctx ms mt c) (Presence ctx D ms mt c)) ∧
    (presencePositions ctx).mapM (presenceOperation ctx ms mt) = .ok found ∧ insertDelete ctx = .ok found.flatten := by
  obtain ⟨moves, hmoves, -, hmoved⟩ := h.movePairs_run
  have hemits : ∀ c ∈ presencePositions ctx,
      Outcome.Emits (presenceOperation ctx (moves.map Prod.fst) (moves.map Prod.snd) c)
        (Presence ctx D (moves.map Prod.fst) (moves.map Prod.snd) c) := by
    intro c hc
    obtain ⟨p, q, r, -, hr, hpq, -, hc⟩ := h.mem_presencePositions.mp hc
    exact h.presence_run hr hpq hc
  obtain ⟨found, hfound, -, -⟩ := Outcome.emits_flatten hemits
  refine ⟨moves.map Prod.fst, moves.map Prod.snd, found, fun s => ?_, fun t => ?_, hemits, hfound, ?_⟩
  · simp only [List.mem_map, Prod.exists, exists_and_right, exists_eq_right, hmoved]
  · simp only [List.mem_map, Prod.exists, exists_eq_right, hmoved, moved_swap]
  · unfold insertDelete
    unfold presencePositions at hfound
    simp only [hmoves, bind, Except.bind, hfound]
    rfl

section Regions
variable {ms mt : List NodeRef} (hms : ∀ s, s ∈ ms ↔ ∃ t, Moved D certainty ctx.profile s t)
  (hmt : ∀ t, t ∈ mt ↔ ∃ s, Moved D.swap (fun b a => certainty a b) ctx.profile t s)

include hms hmt

/-- The positions of a region emit the deletes and inserts of the nodes absent there. -/
theorem presence_region (hr : IsRegion ctx.source ctx.target ctx.graph ap p q r) (hpq : D.Paired p q)
    (hw : ¬ RegionWithheld D ctx.profile p q) {op : StructuralOperation} :
    (∃ c ∈ r.val.pairs, Presence ctx D ms mt c op) ↔ PresenceIn ctx D certainty p q op := by
  constructor
  · intro hop
    obtain ⟨c, hc, hop⟩ := hop
    rcases hop with ⟨s, -, hx, hopen, hs, hen, hval⟩ | ⟨t, -, hx, hopen, ht, hen, hval⟩
    · refine Or.inl ⟨s, c.val.isUnresolved, ⟨?_, ?_, fun b hb => hs ((hms s).mpr ⟨b, hb⟩)⟩, hx.unresolved, hen, hval⟩
      · rcases h.position_cases hr hpq hc with ⟨s', t', -, hx'⟩ | ⟨s', ha, -, hx'⟩ | ⟨t', -, -, hx'⟩
        · exact absurd (by rw [hx']; rfl) hx.not_aligned
        · exact hx.unique hx' ▸ ha
        · exact absurd hx' hx.not_target
      · exact fun hw' => hw'.elim hw hopen
    · refine Or.inr ⟨t, c.val.isUnresolved, ⟨?_, ?_, fun a ha => ht ((hmt t).mpr ⟨a, ha⟩)⟩, hx.unresolved, hen, hval⟩
      · rcases h.position_cases hr hpq hc with ⟨s', t', -, hx'⟩ | ⟨s', -, -, hx'⟩ | ⟨t', ha, -, hx'⟩
        · exact absurd (by rw [hx']; rfl) hx.not_aligned
        · exact absurd hx hx'.not_target
        · exact hx.unique hx' ▸ ha
      · exact fun hw' => hw'.elim (fun hr => hw (regionWithheld_swap.mp hr)) hopen
  · intro hop
    rcases hop with ⟨s, u, ⟨halone, hw', hmoved⟩, hu, hen, hval⟩ | ⟨t, u, ⟨halone, hw', hmoved⟩, hu, hen, hval⟩
    · obtain ⟨c, hc, hx⟩ := List.mem_map.mp ((h.mem_pairs hr hpq).mpr (Or.inr (Or.inl ⟨s, halone, rfl⟩)))
      have hside : SourceSide D s c.val := hx ▸ h.sourceSlot_side
      have hue : u = c.val.isUnresolved := Bool.eq_iff_iff.mpr (hu.trans hside.unresolved.symm)
      refine ⟨c, hc, Or.inl ⟨s, hx, hside, fun ho => hw' (Or.inr ho), fun hs => ?_, hen, hue ▸ hval⟩⟩
      obtain ⟨b, hb⟩ := (hms s).mp hs
      exact hmoved b hb
    · obtain ⟨c, hc, hx⟩ := List.mem_map.mp ((h.mem_pairs hr hpq).mpr (Or.inr (Or.inr ⟨t, halone, rfl⟩)))
      have hside : TargetSide D t c.val := hx ▸ h.targetSlot_side
      have hue : u = c.val.isUnresolved := Bool.eq_iff_iff.mpr (hu.trans hside.unresolved.symm)
      refine ⟨c, hc, Or.inr ⟨t, hx, hside, fun ho => hw' (Or.inr ho), fun ht => ?_, hen, hue ▸ hval⟩⟩
      obtain ⟨a, ha⟩ := (hmt t).mp ht
      exact hmoved a ha

/-- The presence operations are those of the nodes absent in some region. -/
theorem presence_positions {op : StructuralOperation} :
    (∃ c ∈ presencePositions ctx, Presence ctx D ms mt c op) ↔ ∃ p q, PresenceIn ctx D certainty p q op := by
  constructor
  · intro hop
    obtain ⟨c, hc, hop⟩ := hop
    obtain ⟨p, q, r, -, hr, hpq, hw, hc⟩ := h.mem_presencePositions.mp hc
    exact ⟨p, q, (h.presence_region hms hmt hr hpq hw).mp ⟨c, hc, hop⟩⟩
  · intro hop
    obtain ⟨p, q, hop⟩ := hop
    obtain ⟨hpq, hw⟩ := hop.region
    obtain ⟨r, hr, hregion⟩ := exists_region h.aligned (h.paired_iff.mpr hpq)
    obtain ⟨c, hc, hop⟩ := (h.presence_region hms hmt hregion hpq hw).mpr hop
    exact ⟨c, h.mem_presencePositions.mpr ⟨p, q, r, hr, hregion, hpq, hw, hc⟩, hop⟩

end Regions

/-- The deletes and inserts are those of the absent nodes. -/
theorem insertDelete_run : ∃ ops, insertDelete ctx = .ok ops ∧
    ((ctx.alignment.val.regions.flatMap (·.val.pairs)).Nodup → ops.Nodup) ∧ ∀ op, op ∈ ops ↔
      (∃ s u, Absent D certainty ctx.profile s ∧ (u = true ↔ D.Open s) ∧
        .delete ∈ ctx.profile.enabledOperations ∧ op.val = deleteFields u s) ∨
      ∃ t u, Absent D.swap (fun b a => certainty a b) ctx.profile t ∧ (u = true ↔ D.swap.Open t) ∧
        .insert ∈ ctx.profile.enabledOperations ∧ op.val = insertFields u t := by
  obtain ⟨ms, mt, found, hms, hmt, hemits, hfound, hrun⟩ := h.insertDelete_emits
  obtain ⟨found', hfound', hmem, hnodup⟩ := Outcome.emits_flatten hemits
  obtain rfl := Except.ok.inj (hfound.symm.trans hfound')
  refine ⟨found.flatten, hrun, fun hpairs => ?_, fun op => ?_⟩
  · refine hnodup ((hpairs.sublist (List.filter_sublist.flatMap _)).imp fun hne op hop hop' => ?_)
    exact hne (hop.unique hop')
  · rw [hmem, h.presence_positions hms hmt]
    constructor
    · intro hop
      obtain ⟨p, q, hop⟩ := hop
      rcases hop with ⟨s, u, ha, hop⟩ | ⟨t, u, ha, hop⟩
      · exact Or.inl ⟨s, u, ⟨p, q, ha⟩, hop⟩
      · exact Or.inr ⟨t, u, ⟨q, p, ha⟩, hop⟩
    · intro hop
      rcases hop with ⟨s, u, ⟨p, q, ha⟩, hop⟩ | ⟨t, u, ⟨q, p, ha⟩, hop⟩
      · exact ⟨p, q, Or.inl ⟨s, u, ha, hop⟩⟩
      · exact ⟨p, q, Or.inr ⟨t, u, ha, hop⟩⟩

end Agrees

/-! ## Moves -/

theorem moveFields_check (confidence : Confidence) (s t : NodeRef) {a b : Option NodeRef} (hne : a ≠ b) :
    (moveFields confidence a b s t).check = .ok () := by
  rw [StructuralOperation.check_ok]
  simp [moveFields, hne]

/-- The move of a pair. -/
def moveOf (ctx : ClassificationContext) (s t : NodeRef) : StructuralOperationFields :=
  moveFields (ctx.confirmedConfidence s t) ((ctx.source.parentOf s).bind ctx.graph.confirmedTargetFor)
    (ctx.target.parentOf t) s t

namespace Agrees
variable {ctx : ClassificationContext} {ap : AlignmentProfile} {D : Comparison NodeRef NodeRef}
  {certainty : NodeRef → NodeRef → ℚ} (h : Agrees ctx ap D certainty)

include h

theorem moveOperation_run {s t : NodeRef} (hm : D.Crosses s t) :
    ∃ op, moveOperation ctx (s, t) = .ok op ∧ op.val = moveOf ctx s t := by
  obtain ⟨hmatched, p, q, hp, hq, hpq⟩ := hm
  obtain ⟨hs, ht⟩ := h.known s t hmatched
  obtain ⟨sourceNode, hs⟩ := (Dict.mem_keys _).mp hs
  obtain ⟨targetNode, ht⟩ := (Dict.mem_keys _).mp ht
  rw [h.source_parent] at hp
  rw [h.target_parent] at hq
  have hne : (ctx.source.parentOf s).bind ctx.graph.confirmedTargetFor ≠ ctx.target.parentOf t := by
    rw [hp, hq, Option.bind_some]
    intro he
    exact hpq (Or.inr ((h.matched_iff p q).mp (MatchGraph.confirmedTargetFor_eq_some.mp he)))
  obtain ⟨op, hop⟩ := Checked.build_total (moveFields_check (ctx.confirmedConfidence s t) s t hne)
  refine ⟨op, ?_, Checked.build_ok.mp hop⟩
  unfold moveOperation
  simp only [CanonicalTree.node_ok.mpr hs, CanonicalTree.node_ok.mpr ht, bind, Except.bind]
  rw [← CanonicalTree.parentOf_eq hs, ← CanonicalTree.parentOf_eq ht]
  exact hop

/-- The moves are those of the moved pairs. -/
theorem move_run : ∃ ops, move ctx = .ok ops ∧ ops.Nodup ∧ ∀ op, op ∈ ops ↔
    ∃ s t, Moved D certainty ctx.profile s t ∧ .move ∈ ctx.profile.enabledOperations ∧ op.val = moveOf ctx s t := by
  by_cases hen : .move ∈ ctx.profile.enabledOperations
  · obtain ⟨moves, hmoves, hnodup, hmoved⟩ := h.movePairs_run
    obtain ⟨ops, hops⟩ := Outcome.mapM_total (f := moveOperation ctx) (l := moves) fun x hx => by
      obtain ⟨op, hop, -⟩ := h.moveOperation_run ((hmoved x.1 x.2).mp hx).1
      exact ⟨op, hop⟩
    have hval : ∀ x ∈ moves, ∀ op, moveOperation ctx x = .ok op → op.val = moveOf ctx x.1 x.2 := by
      intro x hx op hop
      obtain ⟨op', hop', hval⟩ := h.moveOperation_run ((hmoved x.1 x.2).mp hx).1
      rw [hop] at hop'
      cases hop'
      exact hval
    refine ⟨ops, by unfold move; simp only [hen, not_true, if_false, hmoves, bind, Except.bind]; exact hops, ?_, fun op => ?_⟩
    · have hmap := Outcome.mapM_map (fun x : NodeRef × NodeRef => moveOf ctx x.1 x.2) Checked.val hval hops
      refine List.Nodup.of_map Checked.val ?_
      rw [hmap]
      refine hnodup.map_on fun x _ y _ hxy => ?_
      have hs : [x.1] = [y.1] := congrArg StructuralOperationFields.sourceNodeRefs hxy
      have ht : [x.2] = [y.2] := congrArg StructuralOperationFields.targetNodeRefs hxy
      exact Prod.ext (List.singleton_inj.mp hs) (List.singleton_inj.mp ht)
    · rw [Outcome.mapM_mem hops]
      constructor
      · intro hop
        obtain ⟨x, hx, hop⟩ := hop
        exact ⟨x.1, x.2, (hmoved _ _).mp hx, hen, hval x hx op hop⟩
      · intro hop
        obtain ⟨s, t, hm, -, hop⟩ := hop
        obtain ⟨op', hop', hval'⟩ := h.moveOperation_run hm.1
        exact ⟨(s, t), (hmoved s t).mpr hm, by rw [Checked.ext_val (hop.trans hval'.symm)]; exact hop'⟩
  · refine ⟨[], by unfold move; simp only [hen, not_false_eq_true, if_true], List.nodup_nil, fun op => ?_⟩
    constructor
    · intro hop
      exact absurd hop List.not_mem_nil
    · intro hop
      obtain ⟨s, t, -, hen', -⟩ := hop
      exact absurd hen' hen

end Agrees

/-! ## Reorders -/

/-- The matched children of two parents do not stand in the order of the target, and the order matters. -/
def Shuffled (ctx : ClassificationContext) (alignmentProfile : AlignmentProfile) (p q : NodeRef) : Prop :=
  (∃ node, ctx.source.nodes.get? p = some node ∧ alignmentProfile.orderSemanticsFor node.nodeType = .ordered) ∧
    orderChanged ctx.graph (ctx.source.childrenOf p) (ctx.target.childrenOf q) = true

/-- The reorder of the matched children of two parents. -/
def reorderOf (ctx : ClassificationContext) (p q : NodeRef) : StructuralOperationFields :=
  let matched := matchedPairs ctx.graph (ctx.source.childrenOf p) (ctx.target.childrenOf q)
  { operationId := "op:reorder:" ++ p
    type := .reorder
    sourceNodeRefs := matched.map Prod.fst
    targetNodeRefs := matched.map Prod.snd
    fromParentRef := none
    toParentRef := none
    confidence := Confidence.full
    matchIds := matched.map fun x => matchId x.1 x.2
    evidenceCodes := ["SIBLING_ORDER_CHANGED"]
    preconditions := [] }

/-- An order that changed has two matched children at least. -/
theorem two_le_of_orderChanged {graph : MatchGraph} {sourceChildren targetChildren : List NodeRef}
    (h : orderChanged graph sourceChildren targetChildren = true) :
    2 ≤ (matchedPairs graph sourceChildren targetChildren).length := by
  unfold orderChanged at h
  simp only [Bool.and_eq_true, decide_eq_true_eq, List.length_map] at h
  exact h.1

theorem reorderOf_check (ctx : ClassificationContext) {ap : AlignmentProfile} {p q : NodeRef} (h : Shuffled ctx ap p q) :
    (reorderOf ctx p q).check = .ok () := by
  rw [StructuralOperation.check_ok]
  simp [reorderOf, two_le_of_orderChanged h.2]

/-- The confirmed pairs of a context are nodes of its trees. -/
def KnownPairs (ctx : ClassificationContext) : Prop :=
  ∀ s t, ctx.graph.Confirmed s t → s ∈ ctx.source.nodes.keys ∧ t ∈ ctx.target.nodes.keys

section Regions
variable {ctx : ClassificationContext} {ap : AlignmentProfile} (h : KnownPairs ctx) {p q : NodeRef} {r : AlignedRegion}

include h

/-- The references of matched children are not empty. -/
theorem truthy_matched {x : NodeRef × NodeRef}
    (hx : x ∈ matchedPairs ctx.graph (ctx.source.childrenOf p) (ctx.target.childrenOf q)) :
    truthy (some x.1) = some x.1 ∧ truthy (some x.2) = some x.2 := by
  obtain ⟨-, -, hc⟩ := mem_matchedPairs.mp hx
  obtain ⟨hs, ht⟩ := h _ _ hc
  have hs' := CanonicalTree.ref_ne_empty hs
  have ht' := CanonicalTree.ref_ne_empty ht
  simp [truthy, hs', ht']

theorem reorderFields_eq (hr : IsRegion ctx.source ctx.target ctx.graph ap p q r) : reorderFields r = reorderOf ctx p q := by
  have hlist : ∀ {β : Type} (f : AlignedPairFields → Option β) (g : NodeRef × NodeRef → β),
      (∀ x ∈ matchedPairs ctx.graph (ctx.source.childrenOf p) (ctx.target.childrenOf q), f (alignedPosition x) = some (g x)) →
      r.matched.filterMap (fun c => f c.val) =
        (matchedPairs ctx.graph (ctx.source.childrenOf p) (ctx.target.childrenOf q)).map g := by
    intro β f g hfg
    have hcomp : r.matched.filterMap (fun c => f c.val) = (r.matched.map Checked.val).filterMap f := by
      rw [List.filterMap_map]
      rfl
    rw [hcomp, matched_eq hr, List.filterMap_map, ← List.filterMap_eq_map]
    exact List.filterMap_congr fun x hx => hfg x hx
  unfold reorderFields reorderOf
  rw [hr.source_eq, hlist (fun x => truthy x.sourceNodeRef) Prod.fst fun x hx => (truthy_matched h hx).1,
    hlist (fun x => truthy x.targetNodeRef) Prod.snd fun x hx => (truthy_matched h hx).2,
    hlist reorderMatchId (fun x => matchId x.1 x.2) fun x hx => by
      simp only [reorderMatchId, alignedPosition, (truthy_matched h hx).1, (truthy_matched h hx).2]]
  rfl

omit h in
theorem shuffled_region (hr : IsRegion ctx.source ctx.target ctx.graph ap p q r) :
    r.val.ordered = true ∧ r.val.orderChanged = true ↔ Shuffled ctx ap p q := by
  unfold Shuffled
  rw [← hr.ordered_iff, hr.changed_eq, Bool.and_eq_true]
  exact ⟨fun hx => hx.2, fun hx => ⟨hx.1, hx⟩⟩

/-- A region whose order matters and changed emits its reorder. -/
theorem reorderOperation_shuffled (hr : IsRegion ctx.source ctx.target ctx.graph ap p q r) (hs : Shuffled ctx ap p q) :
    ∃ op, reorderOperation r = .ok [op] ∧ op.val = reorderFields r := by
  have hlen : r.matched.length = (matchedPairs ctx.graph (ctx.source.childrenOf p) (ctx.target.childrenOf q)).length := by
    have := congrArg List.length (matched_eq hr)
    rwa [List.length_map, List.length_map] at this
  have htwo := two_le_of_orderChanged hs.2
  have hcheck : (reorderFields r).check = .ok () := by
    rw [reorderFields_eq h hr]
    exact reorderOf_check ctx hs
  obtain ⟨op, hop⟩ := Checked.build_total hcheck
  refine ⟨op, ?_, Checked.build_ok.mp hop⟩
  unfold reorderOperation
  rw [if_neg (not_not.mpr ((shuffled_region hr).mpr hs)), if_neg (by rw [hlen]; omega), hop]
  rfl

omit h in
theorem reorderOperation_steady (hr : IsRegion ctx.source ctx.target ctx.graph ap p q r) (hs : ¬ Shuffled ctx ap p q) :
    reorderOperation r = .ok [] := by
  unfold reorderOperation
  exact if_pos fun ho => hs ((shuffled_region hr).mp ho)

/-- A region emits a reorder when its order matters and changed. -/
theorem reorderOperation_run (hr : IsRegion ctx.source ctx.target ctx.graph ap p q r) :
    Outcome.Emits (reorderOperation r) fun op => Shuffled ctx ap p q ∧ op.val = reorderOf ctx p q := by
  by_cases hs : Shuffled ctx ap p q
  · obtain ⟨op, hop, hval⟩ := reorderOperation_shuffled h hr hs
    refine ⟨[op], hop, List.nodup_singleton op, fun op' => ?_⟩
    rw [List.mem_singleton]
    refine Iff.trans ?_ (and_iff_right hs).symm
    rw [← reorderFields_eq h hr, ← hval]
    exact ⟨congrArg Checked.val, Checked.ext_val⟩
  · rw [reorderOperation_steady hr hs]
    exact Outcome.emits_nothing fun op hop => hs hop.1

end Regions

namespace Agrees
variable {ctx : ClassificationContext} {ap : AlignmentProfile} {D : Comparison NodeRef NodeRef}
  {certainty : NodeRef → NodeRef → ℚ} (h : Agrees ctx ap D certainty) {p q : NodeRef}

include h

theorem knownPairs : KnownPairs ctx := fun s t hc => h.known s t ((h.matched_iff s t).mp hc)

/-- The children of a reorder tell its region. -/
theorem reorderOf_unique {p' q' : NodeRef} (hpq : D.Paired p q) (hpq' : D.Paired p' q') (hs : Shuffled ctx ap p q)
    (hsources : (reorderOf ctx p q).sourceNodeRefs = (reorderOf ctx p' q').sourceNodeRefs)
    (htargets : (reorderOf ctx p q).targetNodeRefs = (reorderOf ctx p' q').targetNodeRefs) : p = p' ∧ q = q' := by
  obtain ⟨x, hx⟩ := List.exists_mem_of_length_pos (lt_of_lt_of_le (by omega) (two_le_of_orderChanged hs.2))
  obtain ⟨hxs, hxt, -⟩ := mem_matchedPairs.mp hx
  have hs1 : x.1 ∈ (reorderOf ctx p' q').sourceNodeRefs := hsources ▸ List.mem_map.mpr ⟨x, hx, rfl⟩
  have ht1 : x.2 ∈ (reorderOf ctx p' q').targetNodeRefs := htargets ▸ List.mem_map.mpr ⟨x, hx, rfl⟩
  obtain ⟨y, hy, hys⟩ := List.mem_map.mp hs1
  obtain ⟨z, hz, hzt⟩ := List.mem_map.mp ht1
  have hp := (h.mem_source_children hpq).mp hxs
  have hp' := (h.mem_source_children hpq').mp (hys ▸ (mem_matchedPairs.mp hy).1)
  have hq := (h.mem_target_children hpq).mp hxt
  have hq' := (h.mem_target_children hpq').mp (hzt ▸ (mem_matchedPairs.mp hz).2.1)
  exact ⟨Option.some.inj (hp.symm.trans hp'), Option.some.inj (hq.symm.trans hq')⟩

/-- The reorders are those of the shuffled regions. -/
theorem reorder_run : ∃ ops, reorder ctx = .ok ops ∧ ops.Nodup ∧ ∀ op, op ∈ ops ↔
    ∃ p q, D.Paired p q ∧ Shuffled ctx ap p q ∧ .reorder ∈ ctx.profile.enabledOperations ∧ op.val = reorderOf ctx p q := by
  by_cases hen : .reorder ∈ ctx.profile.enabledOperations
  · obtain ⟨found, hfound, hmem, hnodup⟩ := Outcome.emits_flatten (f := reorderOperation) (l := ctx.alignment.val.regions)
      (P := fun r op => ∃ p q, IsRegion ctx.source ctx.target ctx.graph ap p q r ∧ D.Paired p q ∧ Shuffled ctx ap p q ∧
        op.val = reorderOf ctx p q) fun r hr => by
      obtain ⟨p, q, hpq, hregion⟩ := region_parents h.aligned hr
      refine (reorderOperation_run h.knownPairs hregion).congr fun op => ⟨fun hop => ?_, fun hop => ?_⟩
      · exact ⟨p, q, hregion, h.paired_iff.mp hpq, hop⟩
      · obtain ⟨p', q', hregion', -, hop⟩ := hop
        obtain rfl := Option.some.inj (hregion.source_eq.symm.trans hregion'.source_eq)
        obtain rfl := Option.some.inj (hregion.target_eq.symm.trans hregion'.target_eq)
        exact hop
    refine ⟨found.flatten, by unfold reorder; simp only [hen, not_true, if_false, hfound, bind, Except.bind]; rfl, ?_, ?_⟩
    · refine hnodup (List.Pairwise.imp_of_mem ?_ (List.Nodup.of_map _ ctx.alignment.regionIds_nodup))
      intro r r' hr hr' hne op hop hop'
      obtain ⟨p, q, hregion, hpq, hs, hval⟩ := hop
      obtain ⟨p', q', hregion', hpq', -, hval'⟩ := hop'
      have he := hval.symm.trans hval'
      obtain ⟨rfl, rfl⟩ := h.reorderOf_unique hpq hpq' hs (congrArg StructuralOperationFields.sourceNodeRefs he)
        (congrArg StructuralOperationFields.targetNodeRefs he)
      exact hne (List.inj_on_of_nodup_map ctx.alignment.regionIds_nodup hr hr' (hregion.id_eq.trans hregion'.id_eq.symm))
    · intro op
      rw [hmem]
      constructor
      · intro hop
        obtain ⟨r, -, p, q, -, hpq, hs, hval⟩ := hop
        exact ⟨p, q, hpq, hs, hen, hval⟩
      · intro hop
        obtain ⟨p, q, hpq, hs, -, hval⟩ := hop
        obtain ⟨r, hr, hregion⟩ := exists_region h.aligned (h.paired_iff.mpr hpq)
        exact ⟨r, hr, p, q, hregion, hpq, hs, hval⟩
  · refine ⟨[], by unfold reorder; simp only [hen, not_false_eq_true, if_true], List.nodup_nil, fun op => ?_⟩
    constructor
    · intro hop
      exact absurd hop List.not_mem_nil
    · intro hop
      obtain ⟨p, q, -, -, hen', -⟩ := hop
      exact absurd hen' hen

end Agrees

/-! ## All operations -/

/-- What is reported about a comparison. -/
inductive Reported (ctx : ClassificationContext) (alignmentProfile : AlignmentProfile)
    (D : Comparison NodeRef NodeRef) (certainty : NodeRef → NodeRef → ℚ) : StructuralOperationFields → Prop
  | aligned {s t : NodeRef} (h : D.Aligned s t) (he : (matchOf ctx s t).type ∈ ctx.profile.enabledOperations) :
    Reported ctx alignmentProfile D certainty (matchOf ctx s t)
  | deleted {s : NodeRef} {u : Bool} (h : Absent D certainty ctx.profile s) (hu : u = true ↔ D.Open s)
    (he : .delete ∈ ctx.profile.enabledOperations) : Reported ctx alignmentProfile D certainty (deleteFields u s)
  | inserted {t : NodeRef} {u : Bool} (h : Absent D.swap (fun b a => certainty a b) ctx.profile t)
    (hu : u = true ↔ D.swap.Open t) (he : .insert ∈ ctx.profile.enabledOperations) :
    Reported ctx alignmentProfile D certainty (insertFields u t)
  | moved {s t : NodeRef} (h : Moved D certainty ctx.profile s t) (he : .move ∈ ctx.profile.enabledOperations) :
    Reported ctx alignmentProfile D certainty (moveOf ctx s t)
  | reordered {p q : NodeRef} (hpq : D.Paired p q) (h : Shuffled ctx alignmentProfile p q)
    (he : .reorder ∈ ctx.profile.enabledOperations) : Reported ctx alignmentProfile D certainty (reorderOf ctx p q)

/-- What is to be reported passes the validator. -/
theorem Agrees.reported_accepted {ctx : ClassificationContext} {ap : AlignmentProfile} {D : Comparison NodeRef NodeRef}
    {certainty : NodeRef → NodeRef → ℚ} (h : Agrees ctx ap D certainty) {x : StructuralOperationFields}
    (hx : Reported ctx ap D certainty x) : x.check = .ok () := by
  cases hx with
  | aligned ha hen => exact matchFields_check _ _ _ _
  | deleted ha hu hen => exact deleteFields_check _ _
  | inserted ha hu hen => exact insertFields_check _ _
  | moved hm hen =>
    obtain ⟨op, -, hop⟩ := h.moveOperation_run hm.1
    exact hop ▸ op.accepted
  | reordered hpq hs hen => exact reorderOf_check ctx hs

/-- Operations of different types are different. -/
theorem ne_of_types {l m : List StructuralOperation} {types types' : List OperationType}
    (hl : ∀ op ∈ l, op.val.type ∈ types) (hm : ∀ op ∈ m, op.val.type ∈ types') (hdisjoint : ∀ t ∈ types, t ∉ types') :
    ∀ a ∈ l, ∀ b ∈ m, a ≠ b := by
  intro a ha b hb hab
  exact hdisjoint _ (hl a ha) (hab ▸ hm b hb)

theorem matchOf_kept (ctx : ClassificationContext) (s t : NodeRef) :
    (matchOf ctx s t).type = .match_ ∨ (matchOf ctx s t).type = .update := by
  rw [matchOf_type]
  split
  · exact Or.inr rfl
  · exact Or.inl rfl

section OperationTypes
variable {ctx : ClassificationContext} {ops : List StructuralOperation}

theorem matchUpdate_types (hrun : matchUpdate ctx = .ok ops) :
    ∀ op ∈ ops, op.val.type ∈ [OperationType.match_, .update] := by
  intro op hop
  unfold matchUpdate at hrun
  simp only [Outcome.bind_ok, Outcome.pure_ok] at hrun
  obtain ⟨outs, houts, rfl⟩ := hrun
  obtain ⟨c, -, out, hrun, hop⟩ := Outcome.mem_flatten_mapM houts hop
  unfold matchOperation at hrun
  obtain ⟨-, hrun⟩ := Outcome.of_mem_unless hrun hop
  split at hrun
  · simp only [Outcome.bind_ok] at hrun
    obtain ⟨sourceNode, -, targetNode, -, hrun⟩ := hrun
    obtain ⟨-, hrun⟩ := Outcome.of_mem_unless hrun hop
    rw [Checked.of_mem_build hrun hop]
    cases !sourceNode.contentProperties.pyEq targetNode.contentProperties with
    | true => exact List.mem_cons_of_mem _ List.mem_cons_self
    | false => exact List.mem_cons_self
  · cases hrun

theorem insertDelete_types (hrun : insertDelete ctx = .ok ops) :
    ∀ op ∈ ops, op.val.type ∈ [OperationType.delete, .insert] := by
  intro op hop
  unfold insertDelete at hrun
  simp only [Outcome.bind_ok, Outcome.pure_ok] at hrun
  obtain ⟨moves, -, outs, houts, rfl⟩ := hrun
  obtain ⟨c, -, out, hrun, hop⟩ := Outcome.mem_flatten_mapM houts hop
  unfold presenceOperation at hrun
  obtain ⟨-, hrun⟩ := Outcome.of_mem_unless hrun hop
  obtain ⟨-, hrun⟩ := Outcome.of_mem_unless hrun hop
  split at hrun
  · split at hrun
    · cases hrun
    · obtain ⟨-, hrun⟩ := Outcome.of_mem_unless hrun hop
      obtain ⟨-, hrun⟩ := Outcome.of_mem_unless hrun hop
      rw [Checked.of_mem_build hrun hop]
      exact List.mem_cons_self
  · split at hrun
    · cases hrun
    · obtain ⟨-, hrun⟩ := Outcome.of_mem_unless hrun hop
      obtain ⟨-, hrun⟩ := Outcome.of_mem_unless hrun hop
      rw [Checked.of_mem_build hrun hop]
      exact List.mem_cons_of_mem _ List.mem_cons_self

theorem move_types (hrun : move ctx = .ok ops) : ∀ op ∈ ops, op.val.type ∈ [OperationType.move] := by
  intro op hop
  unfold move at hrun
  obtain ⟨-, hrun⟩ := Outcome.of_mem_unless hrun hop
  simp only [Outcome.bind_ok] at hrun
  obtain ⟨moves, -, hrun⟩ := hrun
  obtain ⟨p, -, hrun⟩ := (Outcome.mapM_mem hrun).mp hop
  unfold moveOperation at hrun
  simp only [Outcome.bind_ok, Checked.build_ok] at hrun
  obtain ⟨targetNode, -, sourceNode, -, hval⟩ := hrun
  rw [hval]
  exact List.mem_cons_self

theorem reorder_types (hrun : reorder ctx = .ok ops) : ∀ op ∈ ops, op.val.type ∈ [OperationType.reorder] := by
  intro op hop
  unfold reorder at hrun
  obtain ⟨-, hrun⟩ := Outcome.of_mem_unless hrun hop
  simp only [Outcome.bind_ok, Outcome.pure_ok] at hrun
  obtain ⟨outs, houts, rfl⟩ := hrun
  obtain ⟨region, -, out, hrun, hop⟩ := Outcome.mem_flatten_mapM houts hop
  unfold reorderOperation at hrun
  obtain ⟨-, hrun⟩ := Outcome.of_mem_unless hrun hop
  obtain ⟨-, hrun⟩ := Outcome.of_mem_unless hrun hop
  rw [Checked.of_mem_build hrun hop]
  exact List.mem_cons_self

end OperationTypes

/-- The classifiers return, and the operations are exactly those to be reported; no presence operation
    comes twice unless a position does, and no other operation at all. -/
theorem classify_run {ctx : ClassificationContext} {ap : AlignmentProfile} {D : Comparison NodeRef NodeRef}
    {certainty : NodeRef → NodeRef → ℚ} (h : Agrees ctx ap D certainty) : ∃ set, classify ctx = .ok set ∧
    ((ctx.alignment.val.regions.flatMap (·.val.pairs)).Nodup → set.operations.Nodup) ∧
    (set.operations.filter fun op => op.val.type ≠ .delete ∧ op.val.type ≠ .insert).Nodup ∧
    ∀ op, op ∈ set.operations ↔ Reported ctx ap D certainty op.val := by
  obtain ⟨matches_, hmatches, hmatchesNodup, hmatchesMem⟩ := h.matchUpdate_run
  obtain ⟨presences, hpresences, hpresencesNodup, hpresencesMem⟩ := h.insertDelete_run
  obtain ⟨moves, hmoves, hmovesNodup, hmovesMem⟩ := h.move_run
  obtain ⟨reorders, hreorders, hreordersNodup, hreordersMem⟩ := h.reorder_run
  have hmatchType := matchUpdate_types hmatches
  have hpresenceType := insertDelete_types hpresences
  have hmoveType := move_types hmoves
  have hreorderType := reorder_types hreorders
  -- the four classifiers emit operations of different types
  have hotherType : ∀ op ∈ moves ++ reorders, op.val.type ∈ [OperationType.move, .reorder] := by
    intro op hop
    rcases List.mem_append.mp hop with hop | hop
    · exact List.mem_append_left [OperationType.reorder] (hmoveType op hop)
    · exact List.mem_append_right [OperationType.move] (hreorderType op hop)
  have hkeptApart := ne_of_types hmatchType hotherType (by decide)
  have hmoveReorders : (moves ++ reorders).Nodup := List.nodup_append.mpr
    ⟨hmovesNodup, hreordersNodup, ne_of_types hmoveType hreorderType (by decide)⟩
  refine ⟨_, by unfold classify; simp only [hmatches, hpresences, hmoves, hreorders, bind, Except.bind]; rfl, ?_, ?_,
    fun op => ?_⟩
  · intro hpairs
    have hpresenceApart := ne_of_types hpresenceType hotherType (by decide)
    rw [nodup_sortedBy]
    refine List.nodup_append.mpr ⟨hmatchesNodup,
      List.nodup_append.mpr ⟨hpresencesNodup hpairs, hmoveReorders, hpresenceApart⟩, fun a ha b hb => ?_⟩
    rcases List.mem_append.mp hb with hb | hb
    · exact ne_of_types hmatchType hpresenceType (by decide) a ha b hb
    · exact hkeptApart a ha b hb
  · have hnone : presences.filter (fun op => op.val.type ≠ .delete ∧ op.val.type ≠ .insert) = [] := by
      rw [List.filter_eq_nil_iff]
      intro op hop
      have htype := hpresenceType op hop
      simp only [List.mem_cons, List.not_mem_nil, or_false] at htype
      simp only [decide_eq_true_eq, not_and_or, not_not]
      exact htype
    rw [((sortedBy_perm _ _).filter _).nodup_iff, List.filter_append, List.filter_append, hnone, List.nil_append,
      ← List.filter_append]
    exact List.Nodup.filter _ (List.nodup_append.mpr ⟨hmatchesNodup, hmoveReorders, hkeptApart⟩)
  · rw [mem_sortedBy, List.mem_append, List.mem_append, List.mem_append, hmatchesMem, hpresencesMem, hmovesMem,
      hreordersMem]
    constructor
    · intro hop
      rcases hop with ⟨s, t, ha, hval, hen⟩ | (⟨s, u, ha, hu, hen, hval⟩ | ⟨t, u, ha, hu, hen, hval⟩) |
        ⟨s, t, hm, hen, hval⟩ | ⟨p, q, hpq, hs, hen, hval⟩
      · rw [hval] at hen ⊢
        exact .aligned ha hen
      · exact hval ▸ .deleted ha hu hen
      · exact hval ▸ .inserted ha hu hen
      · exact hval ▸ .moved hm hen
      · exact hval ▸ .reordered hpq hs hen
    · intro hop
      generalize hval : op.val = x at hop
      cases hop with
      | aligned ha hen => exact Or.inl ⟨_, _, ha, rfl, hen⟩
      | deleted ha hu hen => exact Or.inr (Or.inl (Or.inl ⟨_, _, ha, hu, hen, rfl⟩))
      | inserted ha hu hen => exact Or.inr (Or.inl (Or.inr ⟨_, _, ha, hu, hen, rfl⟩))
      | moved hm hen => exact Or.inr (Or.inr (Or.inl ⟨_, _, hm, hen, rfl⟩))
      | reordered hpq hs hen => exact Or.inr (Or.inr (Or.inr ⟨_, _, hpq, hs, hen, rfl⟩))

/-! ## Operations by their type -/

section Types
variable {ctx : ClassificationContext} {ap : AlignmentProfile} {D : Comparison NodeRef NodeRef}
  {certainty : NodeRef → NodeRef → ℚ} {x : StructuralOperationFields}

@[simp] theorem deleteFields_type (u : Bool) (s : NodeRef) : (deleteFields u s).type = .delete := rfl

@[simp] theorem insertFields_type (u : Bool) (t : NodeRef) : (insertFields u t).type = .insert := rfl

@[simp] theorem moveOf_type (ctx : ClassificationContext) (s t : NodeRef) : (moveOf ctx s t).type = .move := rfl

@[simp] theorem reorderOf_type (ctx : ClassificationContext) (p q : NodeRef) : (reorderOf ctx p q).type = .reorder := rfl

theorem reported_kept_iff : (Reported ctx ap D certainty x ∧ x.type ∈ [OperationType.match_, .update]) ↔
    ∃ s t, D.Aligned s t ∧ x.type ∈ ctx.profile.enabledOperations ∧ x = matchOf ctx s t := by
  constructor
  · intro h₀
    obtain ⟨hx, ht⟩ := h₀
    cases hx with
    | aligned ha hen => exact ⟨_, _, ha, hen, rfl⟩
    | _ => simp at ht
  · intro hx
    obtain ⟨s, t, ha, hen, rfl⟩ := hx
    exact ⟨.aligned ha hen, by simpa using matchOf_kept ctx s t⟩

theorem reported_deleted_iff : (Reported ctx ap D certainty x ∧ x.type ∈ [OperationType.delete]) ↔
    ∃ s u, Absent D certainty ctx.profile s ∧ (u = true ↔ D.Open s) ∧ .delete ∈ ctx.profile.enabledOperations ∧
      x = deleteFields u s := by
  constructor
  · intro h₀
    obtain ⟨hx, ht⟩ := h₀
    cases hx with
    | @aligned a b ha hen => rcases matchOf_kept ctx a b with he | he <;> simp [he] at ht
    | deleted ha hu hen => exact ⟨_, _, ha, hu, hen, rfl⟩
    | _ => simp at ht
  · intro hx
    obtain ⟨s, u, ha, hu, hen, rfl⟩ := hx
    exact ⟨.deleted ha hu hen, by simp⟩

theorem reported_inserted_iff : (Reported ctx ap D certainty x ∧ x.type ∈ [OperationType.insert]) ↔
    ∃ t u, Absent D.swap (fun b a => certainty a b) ctx.profile t ∧ (u = true ↔ D.swap.Open t) ∧
      .insert ∈ ctx.profile.enabledOperations ∧ x = insertFields u t := by
  constructor
  · intro h₀
    obtain ⟨hx, ht⟩ := h₀
    cases hx with
    | @aligned a b ha hen => rcases matchOf_kept ctx a b with he | he <;> simp [he] at ht
    | inserted ha hu hen => exact ⟨_, _, ha, hu, hen, rfl⟩
    | _ => simp at ht
  · intro hx
    obtain ⟨t, u, ha, hu, hen, rfl⟩ := hx
    exact ⟨.inserted ha hu hen, by simp⟩

theorem reported_moved_iff : (Reported ctx ap D certainty x ∧ x.type ∈ [OperationType.move]) ↔
    ∃ s t, Moved D certainty ctx.profile s t ∧ .move ∈ ctx.profile.enabledOperations ∧ x = moveOf ctx s t := by
  constructor
  · intro h₀
    obtain ⟨hx, ht⟩ := h₀
    cases hx with
    | @aligned a b ha hen => rcases matchOf_kept ctx a b with he | he <;> simp [he] at ht
    | moved hm hen => exact ⟨_, _, hm, hen, rfl⟩
    | _ => simp at ht
  · intro hx
    obtain ⟨s, t, hm, hen, rfl⟩ := hx
    exact ⟨.moved hm hen, by simp⟩

theorem reported_reordered_iff : (Reported ctx ap D certainty x ∧ x.type ∈ [OperationType.reorder]) ↔
    ∃ p q, D.Paired p q ∧ Shuffled ctx ap p q ∧ .reorder ∈ ctx.profile.enabledOperations ∧ x = reorderOf ctx p q := by
  constructor
  · intro h₀
    obtain ⟨hx, ht⟩ := h₀
    cases hx with
    | @aligned a b ha hen => rcases matchOf_kept ctx a b with he | he <;> simp [he] at ht
    | reordered hpq hs hen => exact ⟨_, _, hpq, hs, hen, rfl⟩
    | _ => simp at ht
  · intro hx
    obtain ⟨p, q, hpq, hs, hen, rfl⟩ := hx
    exact ⟨.reordered hpq hs hen, by simp⟩

end Types

end Reconciliation.Classification
