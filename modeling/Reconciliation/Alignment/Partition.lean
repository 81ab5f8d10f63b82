/-
  Reconciliation.Alignment.Partition — regions partition the children.

  For any trees and any match graph, an alignment has exactly one region for each pair of
  corresponding parents (`regions_partition`). In the region every child of either parent
  stands in one position; the aligned positions are the confirmed pairs of children; any other
  child is unresolved exactly when it is open, and then names all its ambiguous candidates.
  The unresolved regions, those that are listed, are the ones with an open child.
-/
import Reconciliation.Alignment.AlignerProofs
import Reconciliation.Matching.Guarantees

namespace Reconciliation.Alignment

open Reconciliation.Base Reconciliation.Contracts Reconciliation.Matching Reconciliation.Validation
  Reconciliation.Builders Reconciliation.Evidence

/-- The source children in the positions of a region. -/
def sourceSide (r : AlignedRegion) : List NodeRef := r.val.pairs.filterMap (·.val.sourceNodeRef)

def targetSide (r : AlignedRegion) : List NodeRef := r.val.pairs.filterMap (·.val.targetNodeRef)

/-- The ids of the ambiguous candidates of a node. -/
def candidateIds (graph : MatchGraph) (side : MatchCandidateFields → NodeRef) (ref : NodeRef) : List String :=
  (graph.ambiguous.filter fun c => side c.val = ref).map (·.val.matchId)

/-- A child of one of the two parents is open. -/
def HoldsOpen (source target : CanonicalTree) (graph : MatchGraph) (p q : NodeRef) : Prop :=
  (∃ s ∈ source.childrenOf p, OpenSource graph s) ∨ ∃ t ∈ target.childrenOf q, OpenTarget graph t

/-- The positions of the region of `p` and `q` partition the children of both. -/
structure Partitions (source target : CanonicalTree) (graph : MatchGraph) (p q : NodeRef) (r : AlignedRegion) : Prop where
  source_once : (sourceSide r).Perm (source.childrenOf p)
  target_once : (targetSide r).Perm (target.childrenOf q)
  aligned_iff : ∀ c ∈ r.val.pairs, c.val.kind = .aligned ↔ ∃ s ∈ source.childrenOf p, ∃ t ∈ target.childrenOf q,
    graph.Confirmed s t ∧ c.val.sourceNodeRef = some s ∧ c.val.targetNodeRef = some t
  confirmed_joined : ∀ s ∈ source.childrenOf p, ∀ t ∈ target.childrenOf q, graph.Confirmed s t →
    ∃ c ∈ r.val.pairs, c.val.sourceNodeRef = some s ∧ c.val.targetNodeRef = some t
  source_unresolved : ∀ c ∈ r.val.pairs, c.val.kind ≠ .aligned → ∀ s, c.val.sourceNodeRef = some s →
    (c.val.isUnresolved = true ↔ OpenSource graph s) ∧
      (c.val.isUnresolved = true → c.val.ambiguousMatchIds.Perm (candidateIds graph (·.sourceNodeRef) s))
  target_unresolved : ∀ c ∈ r.val.pairs, c.val.kind ≠ .aligned → ∀ t, c.val.targetNodeRef = some t →
    (c.val.isUnresolved = true ↔ OpenTarget graph t) ∧
      (c.val.isUnresolved = true → c.val.ambiguousMatchIds.Perm (candidateIds graph (·.targetNodeRef) t))
  unresolved_iff : r.val.unresolved = true ↔ HoldsOpen source target graph p q

/-! ## The sides of a region -/

section Sides
variable {graph : MatchGraph} {ambS ambT : Dict NodeRef (List String)} {sourceChildren targetChildren : List NodeRef}

/-- Every source child stands in one position. -/
theorem sources_perm (hs : sourceChildren.Nodup) :
    ((positions graph ambS ambT sourceChildren targetChildren).filterMap (·.sourceNodeRef)).Perm sourceChildren := by
  have hside : (positions graph ambS ambT sourceChildren targetChildren).filterMap (·.sourceNodeRef) =
      (matchedPairs graph sourceChildren targetChildren).map Prod.fst ++
        sourceChildren.filter fun sc => ¬ ∃ tc ∈ graph.confirmedTargetFor sc,
          tc ∈ (matchedPairs graph sourceChildren targetChildren).map Prod.snd := by
    unfold positions
    simp [List.filterMap_append, List.filterMap_map, Function.comp_def, sourcePosition_refs, targetPosition_refs,
      alignedPosition]
  rw [hside]
  refine (List.perm_ext_iff_of_nodup ?_ hs).mpr fun sc => ?_
  · refine List.nodup_append.mpr ⟨hs.sublist (matchedSources_sublist _), hs.filter _, fun a ha b hb hab => ?_⟩
    obtain ⟨⟨s, t⟩, hp, rfl⟩ := List.mem_map.mp ha
    obtain ⟨hmem, ht, hc⟩ := mem_matchedPairs.mp hp
    obtain ⟨-, hno⟩ := List.mem_filter.mp (hab ▸ hb)
    exact (of_decide_eq_true hno) ((matched_source_iff hmem).mpr ⟨t, ht, hc⟩)
  · rw [List.mem_append, List.mem_filter, decide_eq_true_eq]
    constructor
    · intro h
      rcases h with h | ⟨h, -⟩
      · exact (matchedSources_sublist _).subset h
      · exact h
    · intro h
      by_cases hm : ∃ tc ∈ graph.confirmedTargetFor sc, tc ∈ (matchedPairs graph sourceChildren targetChildren).map Prod.snd
      · obtain ⟨tc, ht, hc⟩ := (matched_source_iff h).mp hm
        exact Or.inl (List.mem_map.mpr ⟨(sc, tc), mem_matchedPairs.mpr ⟨h, ht, hc⟩, rfl⟩)
      · exact Or.inr ⟨h, hm⟩

/-- Every target child stands in one position. -/
theorem targets_perm (hs : sourceChildren.Nodup) (ht : targetChildren.Nodup) :
    ((positions graph ambS ambT sourceChildren targetChildren).filterMap (·.targetNodeRef)).Perm targetChildren := by
  have hside : (positions graph ambS ambT sourceChildren targetChildren).filterMap (·.targetNodeRef) =
      (matchedPairs graph sourceChildren targetChildren).map Prod.snd ++
        targetChildren.filter fun tc => tc ∉ (matchedPairs graph sourceChildren targetChildren).map Prod.snd := by
    unfold positions
    simp [List.filterMap_append, List.filterMap_map, Function.comp_def, sourcePosition_refs, targetPosition_refs,
      alignedPosition]
  rw [hside]
  refine (List.perm_ext_iff_of_nodup ?_ ht).mpr fun tc => ?_
  · refine List.nodup_append.mpr ⟨matchedTargets_nodup hs, ht.filter _, fun a ha b hb hab => ?_⟩
    obtain ⟨-, hno⟩ := List.mem_filter.mp (hab ▸ hb)
    exact (of_decide_eq_true hno) ha
  · rw [List.mem_append, List.mem_filter, decide_eq_true_eq]
    constructor
    · intro h
      rcases h with h | ⟨h, -⟩
      · exact (mem_matchedTargets.mp h).1
      · exact h
    · intro h
      by_cases hm : tc ∈ (matchedPairs graph sourceChildren targetChildren).map Prod.snd
      · exact Or.inl hm
      · exact Or.inr ⟨h, hm⟩

end Sides

/-! ## The candidates of an open child -/

section Open
variable {graph : MatchGraph}

/-- The index lists all ambiguous candidates of a node that is not settled. -/
theorem ambiguousIndex_perm {side : MatchCandidateFields → NodeRef} {settled : List NodeRef} {ref : NodeRef}
    (h : ref ∉ settled) :
    (((ambiguousIndex graph side settled).get? ref).getD []).Perm (candidateIds graph side ref) := by
  have hgroup := Dict.getD_group
    ((graph.ambiguous.filter fun c => side c.val ∉ settled).map fun c => (side c.val, c.val.matchId)) ref
  have hids : (((graph.ambiguous.filter fun c => side c.val ∉ settled).map fun c => (side c.val, c.val.matchId)).filter
      fun e => e.1 = ref).map Prod.snd = candidateIds graph side ref := by
    unfold candidateIds
    rw [List.filter_map, List.filter_filter, List.map_map]
    refine congrArg (List.map _) (List.filter_congr fun c _ => ?_)
    by_cases hc : side c.val = ref
    · simp [hc, h]
    · simp [hc]
  have hsorted : ∀ o : Option (List String), ((o.map fun ids => sortedBy id ids).getD []).Perm (o.getD []) := by
    intro o
    cases o with
    | none => exact List.Perm.refl []
    | some ids => exact sortedBy_perm id ids
  unfold ambiguousIndex
  rw [Dict.get?_mapVal]
  refine (hsorted _).trans ?_
  rw [hgroup, hids]

/-- An unmatched source child is unresolved exactly when it is open, and names its candidates. -/
theorem sourcePosition_open {sc : NodeRef} {x : AlignedPairFields}
    (hx : x = sourcePosition (ambiguousIndex graph (·.sourceNodeRef) (graph.confirmed.map (·.val.sourceNodeRef))) sc) :
    (x.isUnresolved = true ↔ OpenSource graph sc) ∧
      (x.isUnresolved = true → x.ambiguousMatchIds.Perm (candidateIds graph (·.sourceNodeRef) sc)) := by
  have hiff : x.isUnresolved = true ↔ OpenSource graph sc := by
    rcases sourcePosition_kind graph sc with ⟨he, ho⟩ | ⟨⟨ids, he⟩, ho⟩
    · simp [hx, he, ho, AlignedPairFields.isUnresolved, unresolvedEdgeKinds]
    · simp [hx, he, ho, AlignedPairFields.isUnresolved, unresolvedEdgeKinds]
  refine ⟨hiff, fun hu => ?_⟩
  have hsettled : sc ∉ graph.confirmed.map (·.val.sourceNodeRef) := fun hin => by
    obtain ⟨t, ht⟩ := mem_confirmedSources.mp hin
    exact (hiff.mp hu).2 t ht
  have hids : x.ambiguousMatchIds = ((ambiguousIndex graph (·.sourceNodeRef)
      (graph.confirmed.map (·.val.sourceNodeRef))).get? sc).getD [] := by
    rw [hx]
    unfold sourcePosition
    simp only
    split
    · rfl
    · rename_i h
      exact (not_not.mp h).symm
  rw [hids]
  exact ambiguousIndex_perm hsettled

theorem targetPosition_open {tc : NodeRef} {x : AlignedPairFields}
    (hx : x = targetPosition (ambiguousIndex graph (·.targetNodeRef) (graph.confirmed.map (·.val.targetNodeRef))) tc) :
    (x.isUnresolved = true ↔ OpenTarget graph tc) ∧
      (x.isUnresolved = true → x.ambiguousMatchIds.Perm (candidateIds graph (·.targetNodeRef) tc)) := by
  have hiff : x.isUnresolved = true ↔ OpenTarget graph tc := by
    rcases targetPosition_kind graph tc with ⟨he, ho⟩ | ⟨⟨ids, he⟩, ho⟩
    · simp [hx, he, ho, AlignedPairFields.isUnresolved, unresolvedEdgeKinds]
    · simp [hx, he, ho, AlignedPairFields.isUnresolved, unresolvedEdgeKinds]
  refine ⟨hiff, fun hu => ?_⟩
  have hsettled : tc ∉ graph.confirmed.map (·.val.targetNodeRef) := fun hin => by
    obtain ⟨s, hs⟩ := mem_confirmedTargets.mp hin
    exact (hiff.mp hu).2 s hs
  have hids : x.ambiguousMatchIds = ((ambiguousIndex graph (·.targetNodeRef)
      (graph.confirmed.map (·.val.targetNodeRef))).get? tc).getD [] := by
    rw [hx]
    unfold targetPosition
    simp only
    split
    · rfl
    · rename_i h
      exact (not_not.mp h).symm
  rw [hids]
  exact ambiguousIndex_perm hsettled

end Open

/-! ## Regions -/

section Regions
variable {source target : CanonicalTree} {graph : MatchGraph} {profile : AlignmentProfile} {p q : NodeRef}
  {r : AlignedRegion}

/-- A position of a region: a confirmed pair of children, or a child without its counterpart there. -/
theorem region_position (hr : IsRegion source target graph profile p q r) {c : AlignedPair} (hc : c ∈ r.val.pairs) :
    (∃ s ∈ source.childrenOf p, ∃ t ∈ target.childrenOf q, graph.Confirmed s t ∧ c.val = alignedPosition (s, t)) ∨
      (∃ s ∈ source.childrenOf p, c.val = sourcePosition
        (ambiguousIndex graph (·.sourceNodeRef) (graph.confirmed.map (·.val.sourceNodeRef))) s) ∨
      ∃ t ∈ target.childrenOf q, c.val = targetPosition
        (ambiguousIndex graph (·.targetNodeRef) (graph.confirmed.map (·.val.targetNodeRef))) t := by
  have hin : c.val ∈ r.val.pairs.map Checked.val := List.mem_map.mpr ⟨c, hc, rfl⟩
  rw [hr.pairs_eq, regionPositions, mem_positions] at hin
  rcases hin with hx | ⟨s, hs, -, hx⟩ | ⟨t, ht, -, hx⟩
  · exact Or.inl hx
  · exact Or.inr (Or.inl ⟨s, hs, hx⟩)
  · exact Or.inr (Or.inr ⟨t, ht, hx⟩)

theorem sourcePosition_kind_ne (ambS : Dict NodeRef (List String)) (sc : NodeRef) :
    (sourcePosition ambS sc).kind ≠ .aligned := by
  unfold sourcePosition
  simp only
  split <;> simp

theorem targetPosition_kind_ne (ambT : Dict NodeRef (List String)) (tc : NodeRef) :
    (targetPosition ambT tc).kind ≠ .aligned := by
  unfold targetPosition
  simp only
  split <;> simp

/-- Any position of the region that a list of positions holds. -/
theorem exists_position (hr : IsRegion source target graph profile p q r) {x : AlignedPairFields}
    (hx : x ∈ regionPositions source target graph p q) : ∃ c ∈ r.val.pairs, c.val = x := by
  rw [← hr.pairs_eq] at hx
  exact List.mem_map.mp hx

/-- An open child is in no aligned position. -/
theorem holdsOpen_iff (hr : IsRegion source target graph profile p q r) :
    r.val.unresolved = true ↔ HoldsOpen source target graph p q := by
  rw [hr.unresolved_eq, List.any_eq_true]
  constructor
  · intro h
    obtain ⟨c, hc, hu⟩ := h
    rcases region_position hr hc with ⟨s, -, t, -, -, hx⟩ | ⟨s, hs, hx⟩ | ⟨t, ht, hx⟩
    · simp [hx, alignedPosition, AlignedPairFields.isUnresolved, unresolvedEdgeKinds] at hu
    · exact Or.inl ⟨s, hs, (sourcePosition_open hx).1.mp hu⟩
    · exact Or.inr ⟨t, ht, (targetPosition_open hx).1.mp hu⟩
  · intro h
    rcases h with ⟨s, hs, ho⟩ | ⟨t, ht, ho⟩
    · obtain ⟨c, hc, hx⟩ := exists_position hr (mem_positions.mpr (Or.inr (Or.inl ⟨s, hs, fun t _ => ho.2 t, rfl⟩)))
      exact ⟨c, hc, (sourcePosition_open hx).1.mpr ho⟩
    · obtain ⟨c, hc, hx⟩ := exists_position hr (mem_positions.mpr (Or.inr (Or.inr ⟨t, ht, fun s _ => ho.2 s, rfl⟩)))
      exact ⟨c, hc, (targetPosition_open hx).1.mpr ho⟩

/-- The region of two parents partitions their children. -/
theorem IsRegion.partitions (hr : IsRegion source target graph profile p q r) : Partitions source target graph p q r where
  source_once := by
    have hside : sourceSide r = (r.val.pairs.map Checked.val).filterMap (·.sourceNodeRef) := by
      rw [List.filterMap_map]
      rfl
    rw [hside, hr.pairs_eq]
    exact sources_perm (Rooted.children_nodup source)
  target_once := by
    have hside : targetSide r = (r.val.pairs.map Checked.val).filterMap (·.targetNodeRef) := by
      rw [List.filterMap_map]
      rfl
    rw [hside, hr.pairs_eq]
    exact targets_perm (Rooted.children_nodup source) (Rooted.children_nodup target)
  aligned_iff := by
    intro c hc
    constructor
    · intro hk
      rcases region_position hr hc with ⟨s, hs, t, ht, hm, hx⟩ | ⟨s, -, hx⟩ | ⟨t, -, hx⟩
      · exact ⟨s, hs, t, ht, hm, by rw [hx]; rfl, by rw [hx]; rfl⟩
      · exact absurd (hx ▸ hk) (sourcePosition_kind_ne _ s)
      · exact absurd (hx ▸ hk) (targetPosition_kind_ne _ t)
    · intro h
      obtain ⟨s, -, t, -, -, hs, ht⟩ := h
      rcases region_position hr hc with ⟨s', -, t', -, -, hx⟩ | ⟨s', -, hx⟩ | ⟨t', -, hx⟩
      · rw [hx]
        rfl
      · rw [hx, (sourcePosition_refs _ s').2] at ht
        cases ht
      · rw [hx, (targetPosition_refs _ t').1] at hs
        cases hs
  confirmed_joined := by
    intro s hs t ht hm
    obtain ⟨c, hc, hx⟩ := exists_position hr (mem_positions.mpr (Or.inl ⟨s, hs, t, ht, hm, rfl⟩))
    exact ⟨c, hc, by rw [hx]; rfl, by rw [hx]; rfl⟩
  source_unresolved := by
    intro c hc hk s hs
    rcases region_position hr hc with ⟨s', -, t', -, -, hx⟩ | ⟨s', -, hx⟩ | ⟨t', -, hx⟩
    · exact absurd (congrArg AlignedPairFields.kind hx) hk
    · have href := hs.symm.trans ((congrArg AlignedPairFields.sourceNodeRef hx).trans (sourcePosition_refs _ s').1)
      cases href
      exact sourcePosition_open hx
    · rw [hx, (targetPosition_refs _ t').1] at hs
      cases hs
  target_unresolved := by
    intro c hc hk t ht
    rcases region_position hr hc with ⟨s', -, t', -, -, hx⟩ | ⟨s', -, hx⟩ | ⟨t', -, hx⟩
    · exact absurd (congrArg AlignedPairFields.kind hx) hk
    · rw [hx, (sourcePosition_refs _ s').2] at ht
      cases ht
    · have href := ht.symm.trans ((congrArg AlignedPairFields.targetNodeRef hx).trans (targetPosition_refs _ t').2)
      cases href
      exact targetPosition_open hx
  unresolved_iff := holdsOpen_iff hr

/-- Exactly the regions marked unresolved are listed. -/
theorem listed_iff {alignment : AlignmentResult} (h : align source target graph profile = .ok alignment)
    (hr : r ∈ alignment.val.regions) : r.val.regionId ∈ alignment.val.unresolvedRegionIds ↔ r.val.unresolved = true := by
  have hlisted : alignment.val.unresolvedRegionIds =
      (alignment.val.regions.filter (·.val.unresolved)).map (·.val.regionId) := by
    unfold align at h
    simp only [Outcome.bind_ok, Checked.build_ok] at h
    obtain ⟨regions, -, hval⟩ := h
    rw [hval]
  rw [hlisted, List.mem_map]
  constructor
  · intro hin
    obtain ⟨r', hr', hid⟩ := hin
    obtain ⟨hmem, hu⟩ := List.mem_filter.mp hr'
    obtain rfl := List.inj_on_of_nodup_map alignment.regionIds_nodup hmem hr hid
    exact hu
  · intro hu
    exact ⟨r, List.mem_filter.mpr ⟨hr, hu⟩, rfl⟩

/-- An alignment has exactly one region for each pair of corresponding parents, and each partitions
    the children of its parents. -/
theorem regions_partition {alignment : AlignmentResult} (h : align source target graph profile = .ok alignment) :
    alignment.val.regions.Nodup ∧
    (∀ r ∈ alignment.val.regions, ∃ p q, Paired source target graph p q ∧ r.val.sourceParentRef = some p ∧
      r.val.targetParentRef = some q ∧ Partitions source target graph p q r ∧
        (r.val.regionId ∈ alignment.val.unresolvedRegionIds ↔ HoldsOpen source target graph p q)) ∧
    ∀ p q, Paired source target graph p q →
      ∃! r, r ∈ alignment.val.regions ∧ r.val.sourceParentRef = some p ∧ r.val.targetParentRef = some q := by
  refine ⟨List.Nodup.of_map _ alignment.regionIds_nodup, fun r hr => ?_, fun p q hpq => ?_⟩
  · obtain ⟨p, q, hpq, hregion⟩ := region_parents h hr
    exact ⟨p, q, hpq, hregion.source_eq, hregion.target_eq, hregion.partitions,
      (listed_iff h hr).trans (holdsOpen_iff hregion)⟩
  · obtain ⟨r, hr, hregion⟩ := exists_region h hpq
    refine ⟨r, ⟨hr, hregion.source_eq, hregion.target_eq⟩, fun r' hr' => ?_⟩
    obtain ⟨hmem, hp, hq⟩ := hr'
    obtain ⟨p', q', -, hregion'⟩ := region_parents h hmem
    have hid : r'.val.regionId = r.val.regionId := by
      rw [hregion.id_eq, hregion'.id_eq, Option.some.inj (hregion'.source_eq.symm.trans hp),
        Option.some.inj (hregion'.target_eq.symm.trans hq)]
    exact List.inj_on_of_nodup_map alignment.regionIds_nodup hmem hr hid

end Regions

/-- The map of four topics against itself: its root region has two aligned topics and two open notes a side. -/
theorem topicMap_partition : ∃ g alignment, align topicMap topicMap g defaultAlignmentProfile = .ok alignment ∧
    alignment.val.unresolvedRegionIds = ["region:map->map"] ∧
    ∃! r, r ∈ alignment.val.regions ∧ r.val.sourceParentRef = some "map" ∧ r.val.targetParentRef = some "map" := by
  have hrun : Outcome.Returns (do
      let evidence ← @extract asciiRuntime topicMap topicMap
      let g ← match_ evidence defaultMatchingProfile
      let alignment ← align topicMap topicMap g defaultAlignmentProfile
      return (g, alignment)) fun x => x.2.val.unresolvedRegionIds = ["region:map->map"] := by
    decide +kernel
  obtain ⟨⟨g, alignment⟩, hrun, hids⟩ := hrun
  obtain ⟨evidence, he, hrun⟩ := Outcome.bind_ok.mp hrun
  obtain ⟨g', hg, hrun⟩ := Outcome.bind_ok.mp hrun
  obtain ⟨alignment', ha, hx⟩ := Outcome.bind_ok.mp hrun
  cases hx
  exact ⟨g, alignment, ha, hids, (regions_partition ha).2.2 "map" "map" (Or.inl ⟨rfl, rfl⟩)⟩

end Reconciliation.Alignment
