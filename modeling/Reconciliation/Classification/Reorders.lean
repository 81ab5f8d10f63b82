/-
  Reconciliation.Classification.Reorders — a reorder is reported exactly for an inversion.

  The trees, the match graph and the profiles are arbitrary here; all that is asked is that the
  aligner returned. Then the classifiers return as well (`classify_total`): every confirmed pair
  names nodes the aligner has looked up. The reorders are those of the regions whose source
  parent has ordered semantics and whose children hold two confirmed pairs in opposite orders,
  one for each (`reorders_inverted`); children without a confirmed counterpart in the region
  play no part.
-/
import Reconciliation.Alignment.Partition
import Reconciliation.Classification.ClassifiersProofs

namespace Reconciliation.Classification

open Reconciliation.Base Reconciliation.Contracts Reconciliation.Alignment Reconciliation.Matching
  Reconciliation.Validation Reconciliation.Builders Reconciliation.Evidence

/-- The children of a source parent come in a meaningful order. -/
def OrderMatters (source : CanonicalTree) (alignmentProfile : AlignmentProfile) (p : NodeRef) : Prop :=
  ∃ node, source.nodes.get? p = some node ∧ alignmentProfile.orderSemanticsFor node.nodeType = .ordered

/-- Two confirmed pairs of children stand in opposite orders. -/
def Inverted (source target : CanonicalTree) (graph : MatchGraph) (p q : NodeRef) : Prop :=
  ∃ a a' b b', [a, a'].Sublist (source.childrenOf p) ∧ [b', b].Sublist (target.childrenOf q) ∧
    graph.Confirmed a b ∧ graph.Confirmed a' b'

/-- The regions whose order matters and changed. -/
def shuffledRegions (regions : List AlignedRegion) : List AlignedRegion :=
  regions.filter fun r => r.val.ordered = true ∧ r.val.orderChanged = true

section Aligned
variable {ctx : ClassificationContext} {ap : AlignmentProfile}
  (h : align ctx.source ctx.target ctx.graph ap = .ok ctx.alignment)

theorem shuffled_iff {p q : NodeRef} :
    Shuffled ctx ap p q ↔ OrderMatters ctx.source ap p ∧ Inverted ctx.source ctx.target ctx.graph p q :=
  and_congr_right fun _ =>
    orderChanged_iff_inverted (Rooted.children_nodup ctx.source) (Rooted.children_nodup ctx.target)

include h

theorem knownPairs_of_align : KnownPairs ctx := fun _ _ hc => align_known h (Or.inr hc)

/-! ## The classifiers return -/

theorem matchOperation_total {r : AlignedRegion} (hr : r ∈ ctx.alignment.val.regions) {c : AlignedPair}
    (hc : c ∈ r.val.pairs) : ∃ ops, matchOperation ctx c = .ok ops := by
  obtain ⟨p, q, -, hregion⟩ := region_parents h hr
  by_cases hk : c.val.kind = .aligned
  · obtain ⟨s, -, t, -, hm, hs, ht⟩ := (hregion.partitions.aligned_iff c hc).mp hk
    obtain ⟨hsource, htarget⟩ := knownPairs_of_align h s t hm
    obtain ⟨sourceNode, hsource⟩ := (Dict.mem_keys _).mp hsource
    obtain ⟨targetNode, htarget⟩ := (Dict.mem_keys _).mp htarget
    unfold matchOperation
    simp only [hk, hs, ht, ne_eq, not_true, if_false, CanonicalTree.node_ok.mpr hsource, CanonicalTree.node_ok.mpr htarget,
      bind, Except.bind]
    split
    · exact ⟨[], rfl⟩
    · obtain ⟨op, hop⟩ := Checked.build_total (matchFields_check _ _ s t)
      exact ⟨[op], by rw [hop]; rfl⟩
  · unfold matchOperation
    exact ⟨[], if_pos hk⟩

theorem presenceOperation_total {r : AlignedRegion} (hr : r ∈ ctx.alignment.val.regions) {c : AlignedPair}
    (hc : c ∈ r.val.pairs) (ms mt : List NodeRef) : ∃ ops, presenceOperation ctx ms mt c = .ok ops := by
  have hbuild : ∀ {fields : StructuralOperationFields}, fields.check = .ok () →
      ∃ ops, (do let op ← Checked.build StructuralOperationFields.check fields; return [op]) = Except.ok ops := by
    intro fields hcheck
    obtain ⟨ops, hops, -⟩ := Checked.emits_build hcheck
    exact ⟨ops, hops⟩
  obtain ⟨p, q, -, hregion⟩ := region_parents h hr
  unfold presenceOperation
  rcases region_position hregion hc with ⟨s, -, t, -, -, hx⟩ | ⟨s, -, hx⟩ | ⟨t, -, hx⟩
  · exact ⟨[], if_pos (congrArg AlignedPairFields.kind hx)⟩
  · have href := (congrArg AlignedPairFields.sourceNodeRef hx).trans (sourcePosition_refs _ s).1
    have hkind : c.val.kind = .sourceOnly ∨ c.val.kind = .unresolvedSource := by
      rcases sourcePosition_kind ctx.graph s with ⟨he, -⟩ | ⟨⟨ids, he⟩, -⟩
      · exact Or.inl (by rw [hx, he])
      · exact Or.inr (by rw [hx, he])
    refine Outcome.total_unless (Outcome.total_unless ?_)
    rw [if_pos hkind, href]
    exact Outcome.total_unless (Outcome.total_unless (hbuild (deleteFields_check _ s)))
  · have href := (congrArg AlignedPairFields.targetNodeRef hx).trans (targetPosition_refs _ t).2
    have hkind : ¬ (c.val.kind = .sourceOnly ∨ c.val.kind = .unresolvedSource) := by
      rcases targetPosition_kind ctx.graph t with ⟨he, -⟩ | ⟨⟨ids, he⟩, -⟩
      · rw [hx, he]
        simp
      · rw [hx, he]
        simp
    refine Outcome.total_unless (Outcome.total_unless ?_)
    rw [if_neg hkind, href]
    exact Outcome.total_unless (Outcome.total_unless (hbuild (insertFields_check _ t)))

/-- A pair that crosses has parents on both sides, and they are not confirmed. -/
theorem isCrossParent_total {s t : NodeRef} (hm : ctx.graph.Confirmed s t) : ∃ cross, ctx.isCrossParent s t = .ok cross ∧
    (cross = true → ∃ p q, ctx.source.parentOf s = some p ∧ ctx.target.parentOf t = some q ∧ ¬ ctx.graph.Confirmed p q) := by
  obtain ⟨hs, ht⟩ := knownPairs_of_align h s t hm
  obtain ⟨sourceNode, hs⟩ := (Dict.mem_keys _).mp hs
  obtain ⟨targetNode, ht⟩ := (Dict.mem_keys _).mp ht
  unfold ClassificationContext.isCrossParent
  simp only [CanonicalTree.node_ok.mpr hs, CanonicalTree.node_ok.mpr ht, bind, Except.bind, pure, Except.pure,
    CanonicalTree.parentOf_eq hs, CanonicalTree.parentOf_eq ht]
  split
  · rename_i p q hp hq
    refine ⟨_, rfl, fun hcross => ⟨p, q, hp, hq, fun hpq => ?_⟩⟩
    simp [ClassificationContext.parentsCorrespond, MatchGraph.confirmedTargetFor_eq_some.mpr hpq] at hcross
  · exact ⟨false, rfl, fun hf => absurd hf (by simp)⟩

/-- The move pairs are confirmed pairs that cross. -/
theorem movePairs_total : ∃ moves, ctx.movePairs = .ok moves ∧ ∀ x ∈ moves, ctx.graph.Confirmed x.1 x.2 ∧
    ∃ p q, ctx.source.parentOf x.1 = some p ∧ ctx.target.parentOf x.2 = some q ∧ ¬ ctx.graph.Confirmed p q := by
  have hpair : ∀ x ∈ ctx.confirmedPairs, ∃ found, ctx.movePair x = .ok found ∧ ∀ y, found = some y →
      ctx.graph.Confirmed y.1 y.2 ∧
        ∃ p q, ctx.source.parentOf y.1 = some p ∧ ctx.target.parentOf y.2 = some q ∧ ¬ ctx.graph.Confirmed p q := by
    intro x hx
    have hm : ctx.graph.Confirmed x.1 x.2 := ctx.mem_confirmedPairs.mp hx
    obtain ⟨cross, hcross, hparents⟩ := isCrossParent_total h hm
    refine ⟨_, by unfold ClassificationContext.movePair; rw [hcross]; rfl, fun y hy => ?_⟩
    split at hy
    · rename_i hc
      cases hy
      exact ⟨hm, hparents hc.1⟩
    · cases hy
  obtain ⟨found, hfound⟩ := Outcome.mapM_total (f := ctx.movePair) (l := ctx.confirmedPairs) fun x hx => by
    obtain ⟨o, ho, -⟩ := hpair x hx
    exact ⟨o, ho⟩
  refine ⟨found.reduceOption, by unfold ClassificationContext.movePairs; rw [hfound]; rfl, fun y hy => ?_⟩
  obtain ⟨x, hx, hrun⟩ := (Outcome.mapM_mem hfound).mp (List.reduceOption_mem_iff.mp hy)
  obtain ⟨o, ho, hsome⟩ := hpair x hx
  exact hsome y (Except.ok.inj (ho.symm.trans hrun))

/-- A move names a new parent: the confirmed counterpart of the old one, if any, is another node. -/
theorem moveOperation_total {s t p q : NodeRef} (hm : ctx.graph.Confirmed s t) (hp : ctx.source.parentOf s = some p)
    (hq : ctx.target.parentOf t = some q) (hpq : ¬ ctx.graph.Confirmed p q) : ∃ op, moveOperation ctx (s, t) = .ok op := by
  obtain ⟨hs, ht⟩ := knownPairs_of_align h s t hm
  obtain ⟨sourceNode, hs⟩ := (Dict.mem_keys _).mp hs
  obtain ⟨targetNode, ht⟩ := (Dict.mem_keys _).mp ht
  have hne : sourceNode.parentRef.bind ctx.graph.confirmedTargetFor ≠ targetNode.parentRef := by
    rw [← CanonicalTree.parentOf_eq hs, ← CanonicalTree.parentOf_eq ht, hp, hq, Option.bind_some]
    exact fun he => hpq (MatchGraph.confirmedTargetFor_eq_some.mp he)
  obtain ⟨op, hop⟩ := Checked.build_total (moveFields_check (ctx.confirmedConfidence s t) s t hne)
  refine ⟨op, ?_⟩
  unfold moveOperation
  simp only [CanonicalTree.node_ok.mpr hs, CanonicalTree.node_ok.mpr ht, bind, Except.bind]
  exact hop

theorem matchUpdate_total : ∃ ops, matchUpdate ctx = .ok ops := by
  obtain ⟨found, hfound⟩ := Outcome.mapM_total (f := matchOperation ctx)
    (l := ctx.alignment.val.regions.flatMap (·.val.pairs)) fun c hc => by
      obtain ⟨r, hr, hc⟩ := List.mem_flatMap.mp hc
      exact matchOperation_total h hr hc
  exact ⟨found.flatten, by unfold matchUpdate; rw [hfound]; rfl⟩

theorem insertDelete_total : ∃ ops, insertDelete ctx = .ok ops := by
  obtain ⟨moves, hmoves, -⟩ := movePairs_total h
  obtain ⟨found, hfound⟩ := Outcome.mapM_total (f := presenceOperation ctx (moves.map Prod.fst) (moves.map Prod.snd))
    (l := Agrees.presencePositions ctx) fun c hc => by
      obtain ⟨r, hr, hc⟩ := List.mem_flatMap.mp hc
      exact presenceOperation_total h (List.mem_filter.mp hr).1 hc _ _
  refine ⟨found.flatten, ?_⟩
  unfold Agrees.presencePositions at hfound
  unfold insertDelete
  simp only [hmoves, hfound, bind, Except.bind]
  rfl

theorem move_total : ∃ ops, move ctx = .ok ops := by
  obtain ⟨moves, hmoves, hcross⟩ := movePairs_total h
  obtain ⟨ops, hops⟩ := Outcome.mapM_total (f := moveOperation ctx) (l := moves) fun x hx => by
    obtain ⟨hm, p, q, hp, hq, hpq⟩ := hcross x hx
    exact moveOperation_total h hm hp hq hpq
  unfold move
  refine Outcome.total_unless ⟨ops, ?_⟩
  simp only [hmoves, bind, Except.bind]
  exact hops

/-! ## Reorders -/

/-- Every region emits its reorder, or nothing. -/
theorem reorderOperation_emits {r : AlignedRegion} (hr : r ∈ ctx.alignment.val.regions) :
    ∃ out, reorderOperation r = .ok out ∧
      out.map Checked.val = if r.val.ordered = true ∧ r.val.orderChanged = true then [reorderFields r] else [] := by
  obtain ⟨p, q, -, hregion⟩ := region_parents h hr
  by_cases hs : Shuffled ctx ap p q
  · obtain ⟨op, hop, hval⟩ := reorderOperation_shuffled (knownPairs_of_align h) hregion hs
    exact ⟨[op], hop, by rw [if_pos ((shuffled_region hregion).mpr hs), List.map_singleton, hval]⟩
  · exact ⟨[], reorderOperation_steady hregion hs, by rw [if_neg (mt (shuffled_region hregion).mp hs)]; rfl⟩

/-- The reorders, region after region. -/
theorem reorderOperations_emit {regions : List AlignedRegion} (hsub : ∀ r ∈ regions, r ∈ ctx.alignment.val.regions) :
    ∃ found, regions.mapM reorderOperation = .ok found ∧
      found.flatten.map Checked.val = (shuffledRegions regions).map reorderFields := by
  unfold shuffledRegions
  induction regions with
  | nil => exact ⟨[], rfl, rfl⟩
  | cons r rest ih =>
    obtain ⟨out, hout, hval⟩ := reorderOperation_emits h (hsub r List.mem_cons_self)
    obtain ⟨found, hfound, hvals⟩ := ih fun r' hr' => hsub r' (List.mem_cons_of_mem r hr')
    refine ⟨out :: found, by rw [List.mapM_cons]; simp [hout, hfound], ?_⟩
    rw [List.flatten_cons, List.map_append, hval, hvals, List.filter_cons]
    by_cases hs : r.val.ordered = true ∧ r.val.orderChanged = true
    · simp [hs]
    · simp [hs]

theorem reorder_total : ∃ ops, reorder ctx = .ok ops ∧ (.reorder ∈ ctx.profile.enabledOperations →
    ops.map Checked.val = (shuffledRegions ctx.alignment.val.regions).map reorderFields) := by
  by_cases hen : .reorder ∈ ctx.profile.enabledOperations
  · obtain ⟨found, hfound, hval⟩ := reorderOperations_emit h fun r (hr : r ∈ ctx.alignment.val.regions) => hr
    exact ⟨found.flatten, by unfold reorder; simp only [hen, not_true, if_false, hfound, bind, Except.bind]; rfl,
      fun _ => hval⟩
  · exact ⟨[], by unfold reorder; simp only [hen, not_false_eq_true, if_true], fun hen' => absurd hen' hen⟩

/-- The classifiers return, and what they report as reorders are those of the shuffled regions. -/
theorem classify_total : ∃ set, classify ctx = .ok set ∧ (.reorder ∈ ctx.profile.enabledOperations →
    ((set.operations.filter fun op => op.val.type = .reorder).map Checked.val).Perm
      ((shuffledRegions ctx.alignment.val.regions).map reorderFields)) := by
  obtain ⟨matches_, hmatches⟩ := matchUpdate_total h
  obtain ⟨presences, hpresences⟩ := insertDelete_total h
  obtain ⟨moves, hmoves⟩ := move_total h
  obtain ⟨reorders, hreorders, hval⟩ := reorder_total h
  refine ⟨_, by unfold classify; simp only [hmatches, hpresences, hmoves, hreorders, bind, Except.bind]; rfl,
    fun hen => ?_⟩
  have hother : ∀ {ops : List StructuralOperation} {types : List OperationType},
      (∀ op ∈ ops, op.val.type ∈ types) → .reorder ∉ types → ops.filter (fun op => op.val.type = .reorder) = [] := by
    intro ops types hops htypes
    refine List.filter_eq_nil_iff.mpr fun op hop ht => htypes ?_
    rw [← of_decide_eq_true ht]
    exact hops op hop
  rw [← hval hen]
  refine List.Perm.map _ (((sortedBy_perm _ _).filter _).trans ?_)
  rw [List.filter_append, List.filter_append, List.filter_append, hother (matchUpdate_types hmatches) (by decide),
    hother (insertDelete_types hpresences) (by decide), hother (move_types hmoves) (by decide)]
  refine List.Perm.of_eq (List.filter_eq_self.mpr fun op hop => decide_eq_true ?_)
  exact List.mem_singleton.mp (reorder_types hreorders op hop)

/-- The classifiers return, and the reorders are those of the regions with an inversion, one for each. -/
theorem reorders_inverted (hen : .reorder ∈ ctx.profile.enabledOperations) : ∃ set, classify ctx = .ok set ∧
    ∃ inverted : List AlignedRegion, inverted.Sublist ctx.alignment.val.regions ∧
      ((set.operations.filter fun op => op.val.type = .reorder).map Checked.val).Perm (inverted.map reorderFields) ∧
      ∀ r ∈ ctx.alignment.val.regions, ∀ p q, r.val.sourceParentRef = some p → r.val.targetParentRef = some q →
        (r ∈ inverted ↔ OrderMatters ctx.source ap p ∧ Inverted ctx.source ctx.target ctx.graph p q) := by
  obtain ⟨set, hset, hreorders⟩ := classify_total h
  refine ⟨set, hset, shuffledRegions ctx.alignment.val.regions, List.filter_sublist, hreorders hen, ?_⟩
  intro r hr p q hp hq
  obtain ⟨p', q', -, hregion⟩ := region_parents h hr
  obtain rfl := Option.some.inj (hp.symm.trans hregion.source_eq)
  obtain rfl := Option.some.inj (hq.symm.trans hregion.target_eq)
  unfold shuffledRegions
  rw [List.mem_filter, and_iff_right hr, decide_eq_true_eq, shuffled_region hregion, shuffled_iff]

end Aligned

/-- Two topics change places around a new one, and a third is gone. -/
def topicsBefore : CanonicalTree := buildTree "book" [⟨"book", "map", none, [], []⟩,
  ⟨"intro", "topic", some "book", [("id", .str "1")], []⟩, ⟨"errata", "topic", some "book", [("id", .str "2")], []⟩,
  ⟨"usage", "topic", some "book", [("id", .str "3")], []⟩]

def topicsAfter : CanonicalTree := buildTree "book" [⟨"book", "map", none, [], []⟩,
  ⟨"usage", "topic", some "book", [("id", .str "3")], []⟩, ⟨"news", "topic", some "book", [("id", .str "4")], []⟩,
  ⟨"intro", "topic", some "book", [("id", .str "1")], []⟩]

theorem topics_inverted : ∃ g alignment, align topicsBefore topicsAfter g defaultAlignmentProfile = .ok alignment ∧
    ∃ set, classify ⟨topicsBefore, topicsAfter, g, alignment, defaultOperationProfile⟩ = .ok set ∧
      (∃ op ∈ set.operations, op.val.type = .reorder) ∧
      ∃ inverted : List AlignedRegion, inverted.Sublist alignment.val.regions ∧
        ((set.operations.filter fun op => op.val.type = .reorder).map Checked.val).Perm (inverted.map reorderFields) := by
  have hrun : Outcome.Returns (do
      let evidence ← @extract asciiRuntime topicsBefore topicsAfter
      let g ← match_ evidence defaultMatchingProfile
      let alignment ← align topicsBefore topicsAfter g defaultAlignmentProfile
      let set ← classify ⟨topicsBefore, topicsAfter, g, alignment, defaultOperationProfile⟩
      return (g, alignment, set)) fun x => ∃ op ∈ x.2.2.operations, op.val.type = .reorder := by
    decide +kernel
  obtain ⟨⟨g, alignment, set⟩, hrun, hreorder⟩ := hrun
  obtain ⟨evidence, -, hrun⟩ := Outcome.bind_ok.mp hrun
  obtain ⟨g', -, hrun⟩ := Outcome.bind_ok.mp hrun
  obtain ⟨alignment', ha, hrun⟩ := Outcome.bind_ok.mp hrun
  obtain ⟨set', hset, hx⟩ := Outcome.bind_ok.mp hrun
  cases hx
  have hen : .reorder ∈ defaultOperationProfile.enabledOperations := by decide
  obtain ⟨set'', hset', inverted, hsub, hperm, -⟩ :=
    @reorders_inverted ⟨topicsBefore, topicsAfter, g, alignment, defaultOperationProfile⟩ _ ha hen
  obtain rfl := Except.ok.inj (hset.symm.trans hset')
  exact ⟨g, alignment, ha, set, hset, hreorder, inverted, hsub, hperm⟩

end Reconciliation.Classification
