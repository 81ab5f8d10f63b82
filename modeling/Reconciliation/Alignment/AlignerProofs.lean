/-
  Reconciliation.Alignment.AlignerProofs — what an alignment consists of.

  Two parents are `Paired` when they are the roots or a confirmed pair. An alignment has one
  region for every such pair (`exists_region`, `region_parents`); the positions of a region
  are the pairs of children confirmed with each other, and every other child of either
  parent once (`mem_positions`), unresolved exactly when the child is open
  (`sourcePosition_kind`, `targetPosition_kind`). Positions and regions always pass their
  validators, so an alignment is returned exactly when the region ids are distinct
  (`align_total_iff`).
-/
import Reconciliation.Alignment.Aligner
import Reconciliation.Base.Sequence

namespace Reconciliation.Alignment

open Reconciliation.Base Reconciliation.Contracts Reconciliation.Matching Reconciliation.Validation

/-! ## Parent pairs -/

/-- Two parents correspond: they are the roots, or a confirmed pair. -/
def Paired (source target : CanonicalTree) (graph : MatchGraph) (p q : NodeRef) : Prop :=
  (p = source.rootNodeRef ∧ q = target.rootNodeRef) ∨ graph.Confirmed p q

section ParentPairs
variable {source target : CanonicalTree} {graph : MatchGraph}

theorem mem_addPair {pairs : List (NodeRef × NodeRef)} {c : MatchCandidate} {x : NodeRef × NodeRef} :
    x ∈ addPair pairs c ↔ x ∈ pairs ∨ x = (c.val.sourceNodeRef, c.val.targetNodeRef) := by
  unfold addPair
  simp only
  split
  · rename_i hin
    exact ⟨Or.inl, fun h => h.elim id fun he => he ▸ hin⟩
  · simp

theorem addPair_nodup {pairs : List (NodeRef × NodeRef)} {c : MatchCandidate} (h : pairs.Nodup) :
    (addPair pairs c).Nodup := by
  unfold addPair
  simp only
  split
  · exact h
  · rename_i hnew
    refine List.nodup_append.mpr ⟨h, by simp, fun a ha b hb hab => hnew ?_⟩
    rw [List.mem_singleton] at hb
    exact hb ▸ hab ▸ ha

theorem foldl_addPair {cs : List MatchCandidate} {pairs : List (NodeRef × NodeRef)} (h : pairs.Nodup) :
    (cs.foldl addPair pairs).Nodup ∧ ∀ x, x ∈ cs.foldl addPair pairs ↔
      x ∈ pairs ∨ ∃ c ∈ cs, x = (c.val.sourceNodeRef, c.val.targetNodeRef) := by
  induction cs generalizing pairs with
  | nil => exact ⟨h, fun x => by simp⟩
  | cons c cs ih =>
    obtain ⟨hnodup, hmem⟩ := ih (addPair_nodup (c := c) h)
    refine ⟨hnodup, fun x => ?_⟩
    rw [List.foldl_cons, hmem, mem_addPair, or_assoc, List.exists_mem_cons_iff]

theorem parentPairs_nodup (source target : CanonicalTree) (graph : MatchGraph) :
    (parentPairs source target graph).Nodup := (foldl_addPair (by simp)).1

theorem mem_parentPairs {p q : NodeRef} :
    (p, q) ∈ parentPairs source target graph ↔ Paired source target graph p q := by
  unfold parentPairs
  rw [(foldl_addPair (by simp)).2]
  simp only [List.mem_singleton, Prod.mk.injEq, MatchGraph.mem_confirmed]
  refine or_congr Iff.rfl ⟨fun h => ?_, fun h => ?_⟩
  · obtain ⟨c, ⟨hc, hs⟩, rfl, rfl⟩ := h
    exact ⟨c, hc, hs, rfl, rfl⟩
  · obtain ⟨c, hc, hs, rfl, rfl⟩ := h
    exact ⟨c, ⟨hc, hs⟩, rfl, rfl⟩

end ParentPairs

/-! ## Positions -/

section Positions
variable {graph : MatchGraph} {ambS ambT : Dict NodeRef (List String)} {sourceChildren targetChildren : List NodeRef}

theorem mem_matchedPairs {sc tc : NodeRef} : (sc, tc) ∈ matchedPairs graph sourceChildren targetChildren ↔
    sc ∈ sourceChildren ∧ tc ∈ targetChildren ∧ graph.Confirmed sc tc := by
  unfold matchedPairs
  rw [List.mem_filterMap]
  constructor
  · intro h
    obtain ⟨s, hs, h⟩ := h
    split at h
    · rename_i t ht
      split at h
      · rename_i hin
        cases h
        exact ⟨hs, hin, MatchGraph.confirmedTargetFor_eq_some.mp ht⟩
      · cases h
    · cases h
  · intro h
    obtain ⟨hs, ht, hc⟩ := h
    refine ⟨sc, hs, ?_⟩
    rw [MatchGraph.confirmedTargetFor_eq_some.mpr hc]
    simp only [if_pos ht]

theorem matchedSources_sublist (sourceChildren : List NodeRef) :
    ((matchedPairs graph sourceChildren targetChildren).map Prod.fst).Sublist sourceChildren := by
  refine map_filterMap_sublist fun s hs x hx => ?_
  split at hx
  · split at hx
    · cases hx
      rfl
    · cases hx
  · cases hx

theorem matchedPairs_nodup (h : sourceChildren.Nodup) : (matchedPairs graph sourceChildren targetChildren).Nodup :=
  (h.sublist (matchedSources_sublist sourceChildren)).of_map

theorem mem_matchedTargets {tc : NodeRef} :
    tc ∈ (matchedPairs graph sourceChildren targetChildren).map Prod.snd ↔
      tc ∈ targetChildren ∧ ∃ sc ∈ sourceChildren, graph.Confirmed sc tc := by
  simp only [List.mem_map, Prod.exists, exists_eq_right, mem_matchedPairs]
  constructor
  · intro h
    obtain ⟨sc, hs, ht, hc⟩ := h
    exact ⟨ht, sc, hs, hc⟩
  · intro h
    obtain ⟨ht, sc, hs, hc⟩ := h
    exact ⟨sc, hs, ht, hc⟩

theorem matchedTargets_nodup (h : sourceChildren.Nodup) :
    ((matchedPairs graph sourceChildren targetChildren).map Prod.snd).Nodup := by
  refine (matchedPairs_nodup h).map_on ?_
  rintro ⟨s, t⟩ hs ⟨s', t'⟩ hs' rfl
  rw [(mem_matchedPairs.mp hs).2.2.source_unique (mem_matchedPairs.mp hs').2.2]

/-- The order changed when two matched targets come in opposite orders. -/
theorem orderChanged_iff (hs : sourceChildren.Nodup) (ht : targetChildren.Nodup) :
    orderChanged graph sourceChildren targetChildren = true ↔ ∃ b b',
      [b, b'].Sublist ((matchedPairs graph sourceChildren targetChildren).map Prod.snd) ∧
        [b', b].Sublist targetChildren := by
  have hsub : (matchedPairs graph sourceChildren targetChildren).map Prod.snd ⊆ targetChildren :=
    fun b hb => (mem_matchedTargets.mp hb).1
  have hfilter := eq_filter_iff ht (matchedTargets_nodup hs) hsub
  unfold orderChanged
  simp only [Bool.and_eq_true, decide_eq_true_eq, ne_eq, hfilter, not_forall, not_not]
  constructor
  · intro h
    obtain ⟨-, b, b', hb, hb'⟩ := h
    exact ⟨b, b', hb, hb'⟩
  · intro h
    obtain ⟨b, b', hb, hb'⟩ := h
    exact ⟨hb.length_le, b, b', hb, hb'⟩

/-- The order changed when two confirmed pairs of children are inverted. -/
theorem orderChanged_iff_inverted (hs : sourceChildren.Nodup) (ht : targetChildren.Nodup) :
    orderChanged graph sourceChildren targetChildren = true ↔ ∃ a a' b b', [a, a'].Sublist sourceChildren ∧
      [b', b].Sublist targetChildren ∧ graph.Confirmed a b ∧ graph.Confirmed a' b' := by
  rw [orderChanged_iff hs ht]
  constructor
  · intro h
    obtain ⟨b, b', hb, hb'⟩ := h
    obtain ⟨l, hl, hmap⟩ := List.sublist_map_iff.mp hb
    match l, hmap with
    | [x, x'], hmap =>
      obtain ⟨rfl, rfl⟩ : b = x.2 ∧ b' = x'.2 := by simpa using hmap
      refine ⟨x.1, x'.1, x.2, x'.2, ?_, hb', ?_, ?_⟩
      · exact (hl.map Prod.fst).trans (matchedSources_sublist sourceChildren)
      · exact (mem_matchedPairs.mp (hl.subset List.mem_cons_self)).2.2
      · exact (mem_matchedPairs.mp (hl.subset (List.mem_cons_of_mem x List.mem_cons_self))).2.2
  · intro h
    obtain ⟨a, a', b, b', ha, hb, hc, hc'⟩ := h
    refine ⟨b, b', ?_, hb⟩
    have hpairs : matchedPairs graph [a, a'] targetChildren = [(a, b), (a', b')] := by
      simp [matchedPairs, MatchGraph.confirmedTargetFor_eq_some.mpr hc, MatchGraph.confirmedTargetFor_eq_some.mpr hc',
        hb.subset (show b ∈ [b', b] by simp), hb.subset (show b' ∈ [b', b] by simp)]
    have hsub : (matchedPairs graph [a, a'] targetChildren).Sublist (matchedPairs graph sourceChildren targetChildren) :=
      ha.filterMap _
    rw [hpairs] at hsub
    exact hsub.map Prod.snd

/-- When every source child has its match, the matched source children are all of them. -/
theorem matchedSources_eq (h : ∀ sc ∈ sourceChildren, ∃ tc ∈ targetChildren, graph.Confirmed sc tc) :
    (matchedPairs graph sourceChildren targetChildren).map Prod.fst = sourceChildren := by
  unfold matchedPairs
  induction sourceChildren with
  | nil => rfl
  | cons sc rest ih =>
    obtain ⟨tc, ht, hc⟩ := h sc List.mem_cons_self
    rw [List.filterMap_cons, MatchGraph.confirmedTargetFor_eq_some.mpr hc]
    simp only [if_pos ht, List.map_cons]
    rw [ih fun s hs => h s (List.mem_cons_of_mem sc hs)]

/-- When every target child has its match and the order did not change, the matched target children
    are all of them, in their order. -/
theorem matchedTargets_eq (hnodup : targetChildren.Nodup)
    (h : ∀ tc ∈ targetChildren, ∃ sc ∈ sourceChildren, graph.Confirmed sc tc)
    (horder : orderChanged graph sourceChildren targetChildren = false) :
    (matchedPairs graph sourceChildren targetChildren).map Prod.snd = targetChildren := by
  have hall : ∀ tc ∈ targetChildren, tc ∈ (matchedPairs graph sourceChildren targetChildren).map Prod.snd :=
    fun tc ht => mem_matchedTargets.mpr ⟨ht, h tc ht⟩
  have hsub : ∀ tc ∈ (matchedPairs graph sourceChildren targetChildren).map Prod.snd, tc ∈ targetChildren :=
    fun tc ht => (mem_matchedTargets.mp ht).1
  unfold orderChanged at horder
  simp only [Bool.and_eq_false_iff, decide_eq_false_iff_not, not_not] at horder
  generalize (matchedPairs graph sourceChildren targetChildren).map Prod.snd = matched at hall hsub horder
  rcases horder with hshort | hfilter
  · have hmatched : matched.Nodup := by
      match matched, hshort with
      | [], _ => exact List.nodup_nil
      | [a], _ => exact List.nodup_singleton a
      | a :: b :: rest, hshort => simp at hshort
    have hperm : matched.Perm targetChildren :=
      (List.perm_ext_iff_of_nodup hmatched hnodup).mpr fun tc => ⟨hsub tc, hall tc⟩
    match matched, hshort, hperm with
    | [], _, hperm => exact (List.nil_perm.mp hperm).symm
    | [a], _, hperm => exact (List.singleton_perm.mp hperm)
    | a :: b :: rest, hshort, _ => simp at hshort
  · rw [hfilter]
    exact List.filter_eq_self.mpr fun tc ht => decide_eq_true (hall tc ht)

/-- A source child is passed over as matched exactly when its confirmed target is a child there. -/
theorem matched_source_iff {sc : NodeRef} (hs : sc ∈ sourceChildren) :
    (∃ tc ∈ graph.confirmedTargetFor sc, tc ∈ (matchedPairs graph sourceChildren targetChildren).map Prod.snd) ↔
      ∃ tc ∈ targetChildren, graph.Confirmed sc tc := by
  simp only [Option.mem_def, MatchGraph.confirmedTargetFor_eq_some, mem_matchedTargets]
  constructor
  · intro h
    obtain ⟨tc, hc, ht, -⟩ := h
    exact ⟨tc, ht, hc⟩
  · intro h
    obtain ⟨tc, ht, hc⟩ := h
    exact ⟨tc, hc, ht, sc, hs, hc⟩

/-- A position is an aligned pair of children, an unmatched source child, or an unmatched target child. -/
theorem mem_positions {x : AlignedPairFields} : x ∈ positions graph ambS ambT sourceChildren targetChildren ↔
    (∃ sc ∈ sourceChildren, ∃ tc ∈ targetChildren, graph.Confirmed sc tc ∧ x = alignedPosition (sc, tc)) ∨
    (∃ sc ∈ sourceChildren, (∀ tc ∈ targetChildren, ¬ graph.Confirmed sc tc) ∧ x = sourcePosition ambS sc) ∨
    ∃ tc ∈ targetChildren, (∀ sc ∈ sourceChildren, ¬ graph.Confirmed sc tc) ∧ x = targetPosition ambT tc := by
  unfold positions
  simp only [List.mem_append, or_assoc]
  rw [List.mem_map, List.mem_map, List.mem_map]
  simp only [List.mem_filter, decide_eq_true_eq]
  refine or_congr ?_ (or_congr ?_ ?_)
  · constructor
    · intro h
      obtain ⟨⟨sc, tc⟩, hp, rfl⟩ := h
      obtain ⟨hs, ht, hc⟩ := mem_matchedPairs.mp hp
      exact ⟨sc, hs, tc, ht, hc, rfl⟩
    · intro h
      obtain ⟨sc, hs, tc, ht, hc, rfl⟩ := h
      exact ⟨(sc, tc), mem_matchedPairs.mpr ⟨hs, ht, hc⟩, rfl⟩
  · constructor
    · intro h
      obtain ⟨sc, ⟨hs, hno⟩, rfl⟩ := h
      exact ⟨sc, hs, fun tc ht hc => hno ((matched_source_iff hs).mpr ⟨tc, ht, hc⟩), rfl⟩
    · intro h
      obtain ⟨sc, hs, hno, rfl⟩ := h
      refine ⟨sc, ⟨hs, fun hm => ?_⟩, rfl⟩
      obtain ⟨tc, ht, hc⟩ := (matched_source_iff hs).mp hm
      exact hno tc ht hc
  · constructor
    · intro h
      obtain ⟨tc, ⟨ht, hno⟩, rfl⟩ := h
      exact ⟨tc, ht, fun sc hs hc => hno (mem_matchedTargets.mpr ⟨ht, sc, hs, hc⟩), rfl⟩
    · intro h
      obtain ⟨tc, ht, hno, rfl⟩ := h
      refine ⟨tc, ⟨ht, fun hm => ?_⟩, rfl⟩
      obtain ⟨-, sc, hs, hc⟩ := mem_matchedTargets.mp hm
      exact hno sc hs hc

theorem sourcePosition_check (sc : NodeRef) : (sourcePosition ambS sc).check = .ok () := by
  unfold sourcePosition
  simp only
  split
  · rename_i h
    simp [AlignedPairFields.check, AlignedPairFields.isUnresolved, h]
  · simp [AlignedPairFields.check, AlignedPairFields.isUnresolved, unresolvedEdgeKinds]

theorem targetPosition_check (tc : NodeRef) : (targetPosition ambT tc).check = .ok () := by
  unfold targetPosition
  simp only
  split
  · rename_i h
    simp [AlignedPairFields.check, AlignedPairFields.isUnresolved, h]
  · simp [AlignedPairFields.check, AlignedPairFields.isUnresolved, unresolvedEdgeKinds]

/-- Every position passes its validator. -/
theorem positions_check {x : AlignedPairFields} (h : x ∈ positions graph ambS ambT sourceChildren targetChildren) :
    x.check = .ok () := by
  rcases mem_positions.mp h with ⟨sc, -, tc, -, -, rfl⟩ | ⟨sc, -, -, rfl⟩ | ⟨tc, -, -, rfl⟩
  · simp [alignedPosition, AlignedPairFields.check, AlignedPairFields.isUnresolved, unresolvedEdgeKinds]
  · exact sourcePosition_check sc
  · exact targetPosition_check tc

theorem sourcePosition_refs (ambS : Dict NodeRef (List String)) (sc : NodeRef) :
    (sourcePosition ambS sc).sourceNodeRef = some sc ∧ (sourcePosition ambS sc).targetNodeRef = none := by
  unfold sourcePosition
  simp only
  split <;> exact ⟨rfl, rfl⟩

theorem targetPosition_refs (ambT : Dict NodeRef (List String)) (tc : NodeRef) :
    (targetPosition ambT tc).sourceNodeRef = none ∧ (targetPosition ambT tc).targetNodeRef = some tc := by
  unfold targetPosition
  simp only
  split <;> exact ⟨rfl, rfl⟩

/-- The children of a position tell it among the positions of a region. -/
theorem positions_nodup (hs : sourceChildren.Nodup) (ht : targetChildren.Nodup) :
    (positions graph ambS ambT sourceChildren targetChildren).Nodup := by
  refine List.Nodup.of_map (fun x => (x.sourceNodeRef, x.targetNodeRef)) ?_
  unfold positions
  simp only [List.map_append, List.map_map, Function.comp_def, sourcePosition_refs, targetPosition_refs, alignedPosition]
  rw [List.nodup_append, List.nodup_append]
  refine ⟨⟨(matchedPairs_nodup hs).map ?_, (hs.filter _).map ?_, ?_⟩, (ht.filter _).map ?_, ?_⟩
  · intro x y hxy
    simp only [Prod.mk.injEq, Option.some.injEq] at hxy
    exact Prod.ext hxy.1 hxy.2
  · intro a b hab
    simpa using hab
  · intro x hx y hy hxy
    obtain ⟨z, -, rfl⟩ := List.mem_map.mp hx
    obtain ⟨a, -, rfl⟩ := List.mem_map.mp hy
    simp at hxy
  · intro a b hab
    simpa using hab
  · intro x hx y hy hxy
    obtain ⟨b, -, rfl⟩ := List.mem_map.mp hy
    rcases List.mem_append.mp hx with hx | hx
    · obtain ⟨z, -, rfl⟩ := List.mem_map.mp hx
      simp at hxy
    · obtain ⟨a, -, rfl⟩ := List.mem_map.mp hx
      simp at hxy

end Positions

/-! ## Nodes left open -/

/-- A source in ambiguous candidates and in no confirmed one. -/
def OpenSource (graph : MatchGraph) (s : NodeRef) : Prop := (∃ t, graph.Ambiguous s t) ∧ ∀ t, ¬ graph.Confirmed s t

def OpenTarget (graph : MatchGraph) (t : NodeRef) : Prop := (∃ s, graph.Ambiguous s t) ∧ ∀ s, ¬ graph.Confirmed s t

section Open
variable {graph : MatchGraph}

theorem ne_nil_iff {α : Type} {l : List α} : l ≠ [] ↔ ∃ a, a ∈ l :=
  ⟨List.exists_mem_of_ne_nil l, fun h => List.ne_nil_of_mem h.choose_spec⟩

/-- The index lists the ids of a node's ambiguous candidates, unless the node is settled. -/
theorem mem_ambiguousIndex {side : MatchCandidateFields → NodeRef} {settled : List NodeRef} {ref : NodeRef} {i : String} :
    i ∈ ((ambiguousIndex graph side settled).get? ref).getD [] ↔
      ref ∉ settled ∧ ∃ c ∈ graph.ambiguous, side c.val = ref ∧ c.val.matchId = i := by
  have hgroup := Dict.getD_group
    ((graph.ambiguous.filter fun c => side c.val ∉ settled).map fun c => (side c.val, c.val.matchId)) ref
  have hlist : ∀ o : Option (List String), i ∈ (o.map fun ids => sortedBy id ids).getD [] ↔ i ∈ o.getD [] := by
    intro o
    cases o with
    | none => exact Iff.rfl
    | some ids => exact mem_sortedBy id
  unfold ambiguousIndex
  rw [Dict.get?_mapVal, hlist, hgroup]
  constructor
  · intro h
    obtain ⟨e, he, rfl⟩ := List.mem_map.mp h
    obtain ⟨hm, hk⟩ := List.mem_filter.mp he
    obtain ⟨c, hc, rfl⟩ := List.mem_map.mp hm
    obtain ⟨hc, hns⟩ := List.mem_filter.mp hc
    rw [decide_eq_true_eq] at hk hns
    exact ⟨hk ▸ hns, c, hc, hk, rfl⟩
  · intro h
    obtain ⟨hns, c, hc, rfl, rfl⟩ := h
    exact List.mem_map.mpr ⟨(side c.val, c.val.matchId), List.mem_filter.mpr
      ⟨List.mem_map.mpr ⟨c, List.mem_filter.mpr ⟨hc, decide_eq_true hns⟩, rfl⟩, by simp⟩, rfl⟩

theorem mem_confirmedSources {s : NodeRef} :
    s ∈ graph.confirmed.map (·.val.sourceNodeRef) ↔ ∃ t, graph.Confirmed s t := by
  simp only [List.mem_map, MatchGraph.mem_confirmed]
  constructor
  · intro h
    obtain ⟨c, ⟨hc, hs⟩, rfl⟩ := h
    exact ⟨_, c, hc, hs, rfl, rfl⟩
  · intro h
    obtain ⟨t, c, hc, hs, rfl, -⟩ := h
    exact ⟨c, ⟨hc, hs⟩, rfl⟩

theorem mem_confirmedTargets {t : NodeRef} :
    t ∈ graph.confirmed.map (·.val.targetNodeRef) ↔ ∃ s, graph.Confirmed s t := by
  simp only [List.mem_map, MatchGraph.mem_confirmed]
  constructor
  · intro h
    obtain ⟨c, ⟨hc, hs⟩, rfl⟩ := h
    exact ⟨_, c, hc, hs, rfl, rfl⟩
  · intro h
    obtain ⟨s, c, hc, hs, -, rfl⟩ := h
    exact ⟨c, ⟨hc, hs⟩, rfl⟩

/-- A source child is unresolved exactly when it is open. -/
theorem sourcePosition_kind (graph : MatchGraph) (sc : NodeRef) :
    sourcePosition (ambiguousIndex graph (·.sourceNodeRef) (graph.confirmed.map (·.val.sourceNodeRef))) sc =
        ⟨.sourceOnly, some sc, none, none, []⟩ ∧ ¬ OpenSource graph sc ∨
      (∃ ids, sourcePosition (ambiguousIndex graph (·.sourceNodeRef) (graph.confirmed.map (·.val.sourceNodeRef))) sc =
        ⟨.unresolvedSource, some sc, none, none, ids⟩) ∧ OpenSource graph sc := by
  have hopen : ((ambiguousIndex graph (·.sourceNodeRef) (graph.confirmed.map (·.val.sourceNodeRef))).get? sc).getD [] ≠ []
      ↔ OpenSource graph sc := by
    rw [ne_nil_iff]
    simp only [mem_ambiguousIndex, mem_confirmedSources, not_exists, MatchGraph.mem_ambiguous]
    constructor
    · intro h
      obtain ⟨i, hns, c, ⟨hc, hs⟩, he, -⟩ := h
      exact ⟨⟨_, c, hc, hs, he, rfl⟩, hns⟩
    · intro h
      obtain ⟨⟨t, c, hc, hs, he, -⟩, hns⟩ := h
      exact ⟨c.val.matchId, hns, c, ⟨hc, hs⟩, he, rfl⟩
  unfold sourcePosition
  simp only
  split
  · rename_i h
    exact Or.inr ⟨⟨_, rfl⟩, hopen.mp h⟩
  · rename_i h
    exact Or.inl ⟨rfl, fun ho => h (hopen.mpr ho)⟩

theorem targetPosition_kind (graph : MatchGraph) (tc : NodeRef) :
    targetPosition (ambiguousIndex graph (·.targetNodeRef) (graph.confirmed.map (·.val.targetNodeRef))) tc =
        ⟨.targetOnly, none, some tc, none, []⟩ ∧ ¬ OpenTarget graph tc ∨
      (∃ ids, targetPosition (ambiguousIndex graph (·.targetNodeRef) (graph.confirmed.map (·.val.targetNodeRef))) tc =
        ⟨.unresolvedTarget, none, some tc, none, ids⟩) ∧ OpenTarget graph tc := by
  have hopen : ((ambiguousIndex graph (·.targetNodeRef) (graph.confirmed.map (·.val.targetNodeRef))).get? tc).getD [] ≠ []
      ↔ OpenTarget graph tc := by
    rw [ne_nil_iff]
    simp only [mem_ambiguousIndex, mem_confirmedTargets, not_exists, MatchGraph.mem_ambiguous]
    constructor
    · intro h
      obtain ⟨i, hns, c, ⟨hc, hs⟩, he, -⟩ := h
      exact ⟨⟨_, c, hc, hs, rfl, he⟩, hns⟩
    · intro h
      obtain ⟨⟨s, c, hc, hs, -, he⟩, hns⟩ := h
      exact ⟨c.val.matchId, hns, c, ⟨hc, hs⟩, he, rfl⟩
  unfold targetPosition
  simp only
  split
  · rename_i h
    exact Or.inr ⟨⟨_, rfl⟩, hopen.mp h⟩
  · rename_i h
    exact Or.inl ⟨rfl, fun ho => h (hopen.mpr ho)⟩

end Open

/-! ## Regions -/

section Regions
variable {source target : CanonicalTree} {graph : MatchGraph} {profile : AlignmentProfile}

/-- The positions of the region of two parents. -/
def regionPositions (source target : CanonicalTree) (graph : MatchGraph) (p q : NodeRef) : List AlignedPairFields :=
  positions graph (ambiguousIndex graph (·.sourceNodeRef) (graph.confirmed.map (·.val.sourceNodeRef)))
    (ambiguousIndex graph (·.targetNodeRef) (graph.confirmed.map (·.val.targetNodeRef)))
    (source.childrenOf p) (target.childrenOf q)

/-- `r` is the region of the parents `p` and `q`. -/
structure IsRegion (source target : CanonicalTree) (graph : MatchGraph) (profile : AlignmentProfile) (p q : NodeRef)
    (r : AlignedRegion) : Prop where
  id_eq : r.val.regionId = regionIdFor p q
  source_eq : r.val.sourceParentRef = some p
  target_eq : r.val.targetParentRef = some q
  ordered_iff : r.val.ordered = true ↔
    ∃ node, source.nodes.get? p = some node ∧ profile.orderSemanticsFor node.nodeType = .ordered
  pairs_eq : r.val.pairs.map Checked.val = regionPositions source target graph p q
  changed_eq : r.val.orderChanged =
    (r.val.ordered && orderChanged graph (source.childrenOf p) (target.childrenOf q))
  unresolved_eq : r.val.unresolved = r.val.pairs.any (·.val.isUnresolved)

theorem regionIdFor_ne (p q : NodeRef) : regionIdFor p q ≠ "" := by
  intro h
  have := congrArg String.length h
  simp [regionIdFor] at this

/-- Building checked records one by one keeps the records. -/
theorem map_val_of_build {φ : Type} {check : φ → Except PyError Unit} {fields : List φ} {out : List (Checked check)}
    (h : fields.mapM (Checked.build check) = .ok out) : out.map Checked.val = fields := by
  have := Outcome.mapM_map id Checked.val (fun a _ b hb => Checked.build_ok.mp hb) h
  rwa [List.map_id] at this

/-- Aligning two known parents returns their region. -/
theorem alignParent_ok {p q : NodeRef} {r : AlignedRegion}
    (h : alignParent source target graph profile
      (ambiguousIndex graph (·.sourceNodeRef) (graph.confirmed.map (·.val.sourceNodeRef)))
      (ambiguousIndex graph (·.targetNodeRef) (graph.confirmed.map (·.val.targetNodeRef))) (p, q) = .ok r) :
    IsRegion source target graph profile p q r := by
  unfold alignParent at h
  simp only [Outcome.bind_ok, CanonicalTree.node_ok, Checked.build_ok] at h
  obtain ⟨sourceNode, hs, targetNode, ht, pairs, hpairs, hr⟩ := h
  have hmap := map_val_of_build hpairs
  rw [← CanonicalTree.childrenOf_eq hs, ← CanonicalTree.childrenOf_eq ht] at hmap
  refine ⟨by rw [hr], by rw [hr], by rw [hr], ?_, by rw [hr]; exact hmap, ?_, by rw [hr]⟩
  · rw [hr]
    simp only [decide_eq_true_eq]
    refine ⟨fun ho => ⟨sourceNode, hs, ho⟩, fun ho => ?_⟩
    obtain ⟨node, hn, ho⟩ := ho
    obtain rfl := Option.some.inj (hs.symm.trans hn)
    exact ho
  · rw [hr, CanonicalTree.childrenOf_eq hs, CanonicalTree.childrenOf_eq ht]

theorem alignParent_total {ambS ambT : Dict NodeRef (List String)} {p q : NodeRef} (hp : p ∈ source.nodes.keys)
    (hq : q ∈ target.nodes.keys) : ∃ r, alignParent source target graph profile ambS ambT (p, q) = .ok r := by
  obtain ⟨sourceNode, hs⟩ := (Dict.mem_keys _).mp hp
  obtain ⟨targetNode, ht⟩ := (Dict.mem_keys _).mp hq
  obtain ⟨pairs, hpairs⟩ := Outcome.mapM_total (f := Checked.build AlignedPairFields.check)
    (l := positions graph ambS ambT sourceNode.childRefs targetNode.childRefs)
    fun x hx => Checked.build_total (positions_check hx)
  have hcheck : ∀ ordered changed : Bool, AlignedRegionFields.check
      ⟨regionIdFor p q, some p, some q, ordered, pairs, changed, pairs.any (·.val.isUnresolved)⟩ = .ok () := by
    intro ordered changed
    unfold AlignedRegionFields.check
    rw [if_neg (regionIdFor_ne p q)]
    cases hany : pairs.any (·.val.isUnresolved) with
    | false => simp
    | true => simp
  obtain ⟨r, hr⟩ := Checked.build_total (hcheck (decide (profile.orderSemanticsFor sourceNode.nodeType = .ordered))
    (decide (profile.orderSemanticsFor sourceNode.nodeType = .ordered) &&
      orderChanged graph sourceNode.childRefs targetNode.childRefs))
  refine ⟨r, ?_⟩
  unfold alignParent
  simp only [Outcome.bind_ok, CanonicalTree.node_ok]
  exact ⟨sourceNode, hs, targetNode, ht, pairs, hpairs, hr⟩

/-- The aligned positions of a list of positions are its matched pairs. -/
theorem filter_aligned_positions (graph : MatchGraph) (ambS ambT : Dict NodeRef (List String))
    (sourceChildren targetChildren : List NodeRef) :
    (positions graph ambS ambT sourceChildren targetChildren).filter (fun x => x.kind = .aligned) =
      (matchedPairs graph sourceChildren targetChildren).map alignedPosition := by
  have hsource : ∀ s, ¬ (sourcePosition ambS s).kind = .aligned := by
    intro s
    unfold sourcePosition
    simp only
    split <;> simp
  have htarget : ∀ t, ¬ (targetPosition ambT t).kind = .aligned := by
    intro t
    unfold targetPosition
    simp only
    split <;> simp
  unfold positions
  simp only [List.filter_append, List.filter_map, Function.comp_def, hsource, htarget, decide_false, List.filter_false,
    List.map_nil, List.append_nil, alignedPosition, decide_true, List.filter_true]

/-- The aligned positions of a region are its matched children. -/
theorem matched_eq {p q : NodeRef} {r : AlignedRegion} (hr : IsRegion source target graph profile p q r) :
    r.matched.map Checked.val = (matchedPairs graph (source.childrenOf p) (target.childrenOf q)).map alignedPosition := by
  have hfilter : r.matched.map Checked.val = (r.val.pairs.map Checked.val).filter fun x => x.kind = .aligned := by
    rw [List.filter_map]
    rfl
  rw [hfilter, hr.pairs_eq, regionPositions, filter_aligned_positions]

/-- The aligned positions of a region come once. -/
theorem matched_nodup {p q : NodeRef} {r : AlignedRegion} (hr : IsRegion source target graph profile p q r) :
    r.matched.Nodup := by
  refine List.Nodup.of_map Checked.val ?_
  rw [matched_eq hr]
  refine (matchedPairs_nodup (Rooted.children_nodup source)).map fun x y hxy => ?_
  have hs := congrArg AlignedPairFields.sourceNodeRef hxy
  have ht := congrArg AlignedPairFields.targetNodeRef hxy
  exact Prod.ext (Option.some.inj hs) (Option.some.inj ht)

/-- The ids of the regions of all corresponding parents are told apart. -/
def DistinctRegions (source target : CanonicalTree) (graph : MatchGraph) : Prop :=
  ∀ p q p' q', Paired source target graph p q → Paired source target graph p' q' →
    regionIdFor p q = regionIdFor p' q' → p = p' ∧ q = q'

/-- An alignment has one region for every pair of corresponding parents, in order. -/
theorem align_run {alignment : AlignmentResult} (h : align source target graph profile = .ok alignment) :
    List.Forall₂ (fun (x : NodeRef × NodeRef) r => IsRegion source target graph profile x.1 x.2 r)
      (sortedBy toLex (parentPairs source target graph)) alignment.val.regions := by
  unfold align at h
  simp only [Outcome.bind_ok, Checked.build_ok] at h
  obtain ⟨regions, hregions, hval⟩ := h
  rw [hval]
  exact (Outcome.mapM_ok.mp hregions).imp fun x r hr => alignParent_ok hr

/-- The regions are those of the corresponding parents. -/
theorem exists_region {alignment : AlignmentResult} (h : align source target graph profile = .ok alignment)
    {p q : NodeRef} (hpq : Paired source target graph p q) :
    ∃ r ∈ alignment.val.regions, IsRegion source target graph profile p q r :=
  Outcome.right_of_mem_left (align_run h) ((mem_sortedBy _).mpr (mem_parentPairs.mpr hpq))

theorem region_parents {alignment : AlignmentResult} (h : align source target graph profile = .ok alignment)
    {r : AlignedRegion} (hr : r ∈ alignment.val.regions) :
    ∃ p q, Paired source target graph p q ∧ IsRegion source target graph profile p q r := by
  obtain ⟨⟨p, q⟩, hpq, hregion⟩ := Outcome.left_of_mem_right (align_run h) hr
  exact ⟨p, q, mem_parentPairs.mp ((mem_sortedBy _).mp hpq), hregion⟩

/-- Aligned parents are nodes of their trees. -/
theorem align_known {alignment : AlignmentResult} (h : align source target graph profile = .ok alignment)
    {p q : NodeRef} (hpq : Paired source target graph p q) : p ∈ source.nodes.keys ∧ q ∈ target.nodes.keys := by
  unfold align at h
  simp only [Outcome.bind_ok] at h
  obtain ⟨regions, hregions, -⟩ := h
  obtain ⟨r, -, hr⟩ := Outcome.right_of_mem_left (Outcome.mapM_ok.mp hregions)
    ((mem_sortedBy _).mpr (mem_parentPairs.mpr hpq))
  unfold alignParent at hr
  simp only [Outcome.bind_ok, CanonicalTree.node_ok] at hr
  obtain ⟨sourceNode, hs, targetNode, ht, -⟩ := hr
  exact ⟨(Dict.mem_keys _).mpr ⟨sourceNode, hs⟩, (Dict.mem_keys _).mpr ⟨targetNode, ht⟩⟩

theorem regionIds_eq {regions : List AlignedRegion} {pairs : List (NodeRef × NodeRef)}
    (h : List.Forall₂ (fun (x : NodeRef × NodeRef) r => IsRegion source target graph profile x.1 x.2 r) pairs regions) :
    regions.map (·.val.regionId) = pairs.map fun x => regionIdFor x.1 x.2 := by
  induction h with
  | nil => rfl
  | cons hx _ ih => rw [List.map_cons, List.map_cons, hx.id_eq, ih]

theorem distinctRegions_iff : DistinctRegions source target graph ↔
    ((sortedBy toLex (parentPairs source target graph)).map fun x => regionIdFor x.1 x.2).Nodup := by
  rw [((sortedBy_perm _ _).map _).nodup_iff]
  constructor
  · intro h
    refine (parentPairs_nodup source target graph).map_on fun x hx y hy hxy => ?_
    obtain ⟨h1, h2⟩ := h x.1 x.2 y.1 y.2 (mem_parentPairs.mp hx) (mem_parentPairs.mp hy) hxy
    exact Prod.ext h1 h2
  · intro h p q p' q' hpq hpq' hid
    exact Prod.mk.inj (List.inj_on_of_nodup_map h (mem_parentPairs.mpr hpq) (mem_parentPairs.mpr hpq') hid)

/-- When all parents are known, an alignment is returned exactly when the region ids are distinct. -/
theorem align_total_iff (hknown : ∀ p q, Paired source target graph p q → p ∈ source.nodes.keys ∧ q ∈ target.nodes.keys) :
    (∃ alignment, align source target graph profile = .ok alignment) ↔ DistinctRegions source target graph := by
  rw [distinctRegions_iff]
  constructor
  · intro h
    obtain ⟨alignment, h⟩ := h
    rw [← regionIds_eq (align_run h)]
    exact alignment.regionIds_nodup
  · intro h
    obtain ⟨regions, hregions⟩ := Outcome.mapM_total (l := sortedBy toLex (parentPairs source target graph))
      (f := alignParent source target graph profile
        (ambiguousIndex graph (·.sourceNodeRef) (graph.confirmed.map (·.val.sourceNodeRef)))
        (ambiguousIndex graph (·.targetNodeRef) (graph.confirmed.map (·.val.targetNodeRef)))) fun x hx => by
          obtain ⟨hp, hq⟩ := hknown x.1 x.2 (mem_parentPairs.mp ((mem_sortedBy _).mp hx))
          exact alignParent_total hp hq
    have hrun := (Outcome.mapM_ok.mp hregions).imp fun x r hr => alignParent_ok hr
    rw [← regionIds_eq hrun, ← AlignmentResult.check_ok_iff] at h
    obtain ⟨alignment, ha⟩ := Checked.build_total h
    exact ⟨alignment, by unfold align; simp only [Outcome.bind_ok]; exact ⟨regions, hregions, ha⟩⟩

end Regions

end Reconciliation.Alignment
