/-
  Reconciliation.Reports.IdentifiedDiff — the exact difference of two trees whose nodes are
  known by their ids.

  `Difference` says, of the two trees alone, which operations there have to be: a match or
  an update for every pair of nodes that share an id below corresponding parents, a move for
  every other such pair, a delete or an insert for a node of an id the other tree does not
  have, below a parent the other tree has, and a reorder where the common children of
  corresponding parents come in another order. A run reports exactly these, each once, as
  soon as it returns, and it returns exactly when the region ids are told apart
  (`exactDiff_iff`). Arrows in the references keep it from that (`arrowIds_not_exact`).
-/
import Reconciliation.Matching.Identified
import Reconciliation.Reports.Failures
import Reconciliation.Reports.Occurrences

namespace Reconciliation.Reports

open Reconciliation.Base Reconciliation.Contracts Reconciliation.Evidence Reconciliation.Alignment
  Reconciliation.Matching Reconciliation.Classification Reconciliation.Engine Reconciliation.Validation
  Reconciliation.Builders

/-! ## The difference of two trees -/

/-- What an operation says: its type, and the nodes it names. -/
abbrev Entry := OperationType × List NodeRef × List NodeRef

def entry (x : StructuralOperationFields) : Entry := (x.type, x.sourceNodeRefs, x.targetNodeRefs)

section Differences
variable (source target : CanonicalTree) (alignmentProfile : AlignmentProfile)

/-- The parents are the roots, or share an id. -/
def Counterparts (p q : NodeRef) : Prop :=
  (p = source.rootNodeRef ∧ q = target.rootNodeRef) ∨ SameId source target p q

/-- The children of `p` that share an id with a child of `q`, in their order, and these children of `q`. -/
structure CommonChildren (p q : NodeRef) (as bs : List NodeRef) : Prop where
  in_order : as.Sublist (source.childrenOf p)
  same : List.Forall₂ (SameId source target) as bs
  below : bs ⊆ target.childrenOf q
  complete : ∀ a ∈ source.childrenOf p, ∀ b ∈ target.childrenOf q, SameId source target a b → a ∈ as

inductive Difference : Entry → Prop
  | kept {s t p q : NodeRef} {a b : CanonicalNode} (hst : SameId source target s t) (hp : source.parentOf s = some p)
    (hq : target.parentOf t = some q) (hpq : Counterparts source target p q) (ha : source.nodes.get? s = some a)
    (hb : target.nodes.get? t = some b) (he : a.contentProperties.pyEq b.contentProperties = true) :
    Difference (.match_, [s], [t])
  | updated {s t p q : NodeRef} {a b : CanonicalNode} (hst : SameId source target s t) (hp : source.parentOf s = some p)
    (hq : target.parentOf t = some q) (hpq : Counterparts source target p q) (ha : source.nodes.get? s = some a)
    (hb : target.nodes.get? t = some b) (he : a.contentProperties.pyEq b.contentProperties = false) :
    Difference (.update, [s], [t])
  | moved {s t p q : NodeRef} (hst : SameId source target s t) (hp : source.parentOf s = some p)
    (hq : target.parentOf t = some q) (hpq : ¬ Counterparts source target p q) : Difference (.move, [s], [t])
  | deleted {s p q : NodeRef} (hp : source.parentOf s = some p) (hpq : Counterparts source target p q)
    (hno : ∀ t, ¬ SameId source target s t) : Difference (.delete, [s], [])
  | inserted {t p q : NodeRef} (hq : target.parentOf t = some q) (hpq : Counterparts source target p q)
    (hno : ∀ s, ¬ SameId source target s t) : Difference (.insert, [], [t])
  | reordered {p q : NodeRef} {node : CanonicalNode} {as bs : List NodeRef} {b b' : NodeRef}
    (hpq : Counterparts source target p q) (hnode : source.nodes.get? p = some node)
    (hordered : alignmentProfile.orderSemanticsFor node.nodeType = .ordered)
    (hcommon : CommonChildren source target p q as bs) (hb : [b, b'].Sublist bs)
    (hb' : [b', b].Sublist (target.childrenOf q)) : Difference (.reorder, as, bs)

/-- The operations are exactly the differences, each once. -/
def ExactDiff (operations : StructuralOperationSet) : Prop :=
  (operations.operations.map fun op => entry op.val).Nodup ∧
    ∀ e, e ∈ operations.operations.map (fun op => entry op.val) ↔ Difference source target alignmentProfile e

/-- The ids of the regions of corresponding parents are told apart. -/
def DistinctParentIds : Prop := ∀ p q p' q', Counterparts source target p q → Counterparts source target p' q' →
  regionIdFor p q = regionIdFor p' q' → p = p' ∧ q = q'

end Differences

section Decided
variable {source target : CanonicalTree} {p q : NodeRef}

instance : Decidable (Counterparts source target p q) := inferInstanceAs (Decidable (_ ∨ _))

theorem Counterparts.mem (h : Counterparts source target p q) : p ∈ source.nodes.keys ∧ q ∈ target.nodes.keys := by
  rcases h with ⟨rfl, rfl⟩ | h
  · exact ⟨source.root_mem, target.root_mem⟩
  · exact h.mem

instance (source target : CanonicalTree) : Decidable (DistinctParentIds source target) :=
  decidable_of_iff (∀ p ∈ source.nodes.keys, ∀ q ∈ target.nodes.keys, Counterparts source target p q →
      ∀ p' ∈ source.nodes.keys, ∀ q' ∈ target.nodes.keys, Counterparts source target p' q' →
        regionIdFor p q = regionIdFor p' q' → p = p' ∧ q = q')
    ⟨fun h p q p' q' hpq hpq' => h p hpq.mem.1 q hpq.mem.2 hpq p' hpq'.mem.1 q' hpq'.mem.2 hpq',
      fun h p _ q _ hpq p' _ q' _ hpq' => h p q p' q' hpq hpq'⟩

end Decided

/-! ## Common children -/

section Children
variable {source target : CanonicalTree} (hid : Identified source target) {graph : MatchGraph} {p q : NodeRef}
  (hgraph : ∀ s ∈ source.childrenOf p, ∀ t ∈ target.childrenOf q, graph.Confirmed s t ↔ SameId source target s t)
  {as bs : List NodeRef}

include hid

theorem sameId_target_unique {s t t' : NodeRef} (h : SameId source target s t) (h' : SameId source target s t') : t = t' := by
  obtain ⟨i, hs, ht⟩ := h
  obtain ⟨j, hs', ht'⟩ := h'
  obtain rfl := Option.some.inj (hs.symm.trans hs')
  exact hid.target_unique t t' i ht ht'

theorem sameId_source_unique {s s' t : NodeRef} (h : SameId source target s t) (h' : SameId source target s' t) : s = s' := by
  obtain ⟨i, hs, ht⟩ := h
  obtain ⟨j, hs', ht'⟩ := h'
  obtain rfl := Option.some.inj (ht.symm.trans ht')
  exact hid.source_unique s s' i hs hs'

/-- Only one pair of lists holds the common children. -/
theorem CommonChildren.unique {as' bs' : List NodeRef} (h : CommonChildren source target p q as bs)
    (h' : CommonChildren source target p q as' bs') : as = as' ∧ bs = bs' := by
  have hsub : ∀ {as bs as' bs' : List NodeRef}, CommonChildren source target p q as bs →
      CommonChildren source target p q as' bs' → ∀ a ∈ as, a ∈ as' := by
    intro as bs as' bs' h h' a ha
    obtain ⟨b, hb, hab⟩ := Outcome.right_of_mem_left h.same ha
    exact h'.complete a (h.in_order.subset ha) b (h.below hb) hab
  obtain rfl : as = as' := sublist_unique (Rooted.children_nodup _) h.in_order h'.in_order fun a =>
    ⟨hsub h h' a, hsub h' h a⟩
  refine ⟨rfl, ?_⟩
  have hright : Relator.RightUnique (SameId source target) := fun a b b' hb hb' => sameId_target_unique hid hb hb'
  exact hright.forall₂ h.same h'.same

include hgraph

omit hid in
/-- The matched pairs list the common children. -/
theorem commonChildren_matched : CommonChildren source target p q
    ((matchedPairs graph (source.childrenOf p) (target.childrenOf q)).map Prod.fst)
    ((matchedPairs graph (source.childrenOf p) (target.childrenOf q)).map Prod.snd) where
  in_order := matchedSources_sublist _
  same := by
    rw [List.forall₂_map_left_iff, List.forall₂_map_right_iff, List.forall₂_same]
    rintro ⟨s, t⟩ hst
    obtain ⟨hs, ht, hc⟩ := mem_matchedPairs.mp hst
    exact (hgraph s hs t ht).mp hc
  below := by
    intro b hb
    exact (mem_matchedTargets.mp hb).1
  complete := by
    intro a ha b hb hab
    exact List.mem_map.mpr ⟨(a, b), mem_matchedPairs.mpr ⟨ha, hb, (hgraph a ha b hb).mpr hab⟩, rfl⟩

/-- The order changed when two common children come in opposite orders. -/
theorem orderChanged_common (hcommon : CommonChildren source target p q as bs) :
    orderChanged graph (source.childrenOf p) (target.childrenOf q) = true ↔
      ∃ b b', [b, b'].Sublist bs ∧ [b', b].Sublist (target.childrenOf q) := by
  obtain ⟨-, rfl⟩ := hcommon.unique hid (commonChildren_matched hgraph)
  exact orderChanged_iff (Rooted.children_nodup source) (Rooted.children_nodup target)

end Children

/-! ## Reports of identified trees -/

section Counterparts
variable {source target : CanonicalTree} (hid : Identified source target) {p q p' q' : NodeRef}

include hid

/-- A root has no id, so parents correspond one to one. -/
theorem counterparts_unique (h : Counterparts source target p q) (h' : Counterparts source target p' q')
    (hor : p = p' ∨ q = q') : p = p' ∧ q = q' := by
  have hsource : ∀ t, ¬ SameId source target source.rootNodeRef t := by
    intro t hst
    obtain ⟨i, hs, -⟩ := hst
    rw [(hid.source_ids _ source.root_mem).mpr rfl] at hs
    cases hs
  have htarget : ∀ s, ¬ SameId source target s target.rootNodeRef := by
    intro s hst
    obtain ⟨i, -, ht⟩ := hst
    rw [(hid.target_ids _ target.root_mem).mpr rfl] at ht
    cases ht
  rcases h with ⟨rfl, rfl⟩ | h
  · rcases h' with ⟨rfl, rfl⟩ | h'
    · exact ⟨rfl, rfl⟩
    · rcases hor with rfl | rfl
      · exact absurd h' (hsource _)
      · exact absurd h' (htarget _)
  · rcases h' with ⟨rfl, rfl⟩ | h'
    · rcases hor with rfl | rfl
      · exact absurd h (hsource _)
      · exact absurd h (htarget _)
    · rcases hor with rfl | rfl
      · exact ⟨rfl, sameId_target_unique hid h h'⟩
      · exact ⟨sameId_source_unique hid h h', rfl⟩

end Counterparts

/-- The comparison matches the nodes that share an id, with full certainty, and leaves none open. -/
structure MatchedById (ctx : ClassificationContext) (D : Comparison NodeRef NodeRef)
    (certainty : NodeRef → NodeRef → ℚ) : Prop where
  matched_iff : ∀ s t, D.Matched s t ↔ SameId ctx.source ctx.target s t
  settled : ∀ s t, ¬ D.Unsettled s t
  certain : ∀ s t, D.Matched s t → certainty s t = 1

/-- The same, but the roots may match as well, however sure. -/
structure MatchedBelow (ctx : ClassificationContext) (D : Comparison NodeRef NodeRef)
    (certainty : NodeRef → NodeRef → ℚ) : Prop where
  same : ∀ s t, SameId ctx.source ctx.target s t → D.Matched s t
  only : ∀ s t, D.Matched s t →
    SameId ctx.source ctx.target s t ∨ (s = ctx.source.rootNodeRef ∧ t = ctx.target.rootNodeRef)
  settled : ∀ s t, ¬ D.Unsettled s t
  certain : ∀ s t, SameId ctx.source ctx.target s t → certainty s t = 1

theorem MatchedById.below {ctx : ClassificationContext} {D : Comparison NodeRef NodeRef}
    {certainty : NodeRef → NodeRef → ℚ} (hd : MatchedById ctx D certainty) : MatchedBelow ctx D certainty where
  same s t h := (hd.matched_iff s t).mpr h
  only s t h := Or.inl ((hd.matched_iff s t).mp h)
  settled := hd.settled
  certain s t h := hd.certain s t ((hd.matched_iff s t).mpr h)

section Entries
variable {ctx : ClassificationContext} {ap : AlignmentProfile} {D : Comparison NodeRef NodeRef}
  {certainty : NodeRef → NodeRef → ℚ} (h : Agrees ctx ap D certainty)

include h

/-- An operation is told by its type and the nodes it names. -/
theorem reported_unique {x y : StructuralOperationFields} (hx : Reported ctx ap D certainty x)
    (hy : Reported ctx ap D certainty y) (he : entry x = entry y) : x = y := by
  obtain ⟨htype, hrefs⟩ := Prod.mk.inj he
  obtain ⟨hsources, htargets⟩ := Prod.mk.inj hrefs
  cases hx with
  | @aligned s t ha hen =>
    obtain ⟨s', t', -, -, rfl⟩ := reported_kept_iff.mp ⟨hy, by rw [← htype]; simpa using matchOf_kept ctx s t⟩
    obtain rfl := List.singleton_inj.mp hsources
    obtain rfl := List.singleton_inj.mp htargets
    rfl
  | @deleted s u ha hu hen =>
    obtain ⟨s', u', -, hu', -, rfl⟩ := reported_deleted_iff.mp ⟨hy, by rw [← htype]; simp⟩
    obtain rfl := List.singleton_inj.mp hsources
    rw [Bool.eq_iff_iff.mpr (hu.trans hu'.symm)]
  | @inserted t u ha hu hen =>
    obtain ⟨t', u', -, hu', -, rfl⟩ := reported_inserted_iff.mp ⟨hy, by rw [← htype]; simp⟩
    obtain rfl := List.singleton_inj.mp htargets
    rw [Bool.eq_iff_iff.mpr (hu.trans hu'.symm)]
  | @moved s t hm hen =>
    obtain ⟨s', t', -, -, rfl⟩ := reported_moved_iff.mp ⟨hy, by rw [← htype]; simp⟩
    obtain rfl := List.singleton_inj.mp hsources
    obtain rfl := List.singleton_inj.mp htargets
    rfl
  | @reordered p q hpq hs hen =>
    obtain ⟨p', q', hpq', -, -, rfl⟩ := reported_reordered_iff.mp ⟨hy, by rw [← htype]; simp⟩
    obtain ⟨rfl, rfl⟩ := h.reorderOf_unique hpq hpq' hs hsources htargets
    rfl

variable (hd : MatchedBelow ctx D certainty) (hid : Identified ctx.source ctx.target)

include hd

theorem paired_iff_counterparts {p q : NodeRef} : D.Paired p q ↔ Counterparts ctx.source ctx.target p q := by
  unfold Comparison.Paired Counterparts
  rw [h.source_eq, h.target_eq]
  constructor
  · intro hpq
    rcases hpq with hroots | hm
    · exact Or.inl hroots
    · exact (hd.only p q hm).symm
  · intro hpq
    rcases hpq with hroots | hsame
    · exact Or.inl hroots
    · exact Or.inr (hd.same p q hsame)

omit hd in
theorem source_below {s p : NodeRef} (hp : ctx.source.parentOf s = some p) : s ≠ ctx.source.rootNodeRef :=
  h.source_rooted.hierarchy.ne_root_of_parent hp

omit hd in
theorem target_below {t q : NodeRef} (hq : ctx.target.parentOf t = some q) : t ≠ ctx.target.rootNodeRef :=
  h.target_rooted.hierarchy.ne_root_of_parent hq

theorem source_matched_iff {s t p : NodeRef} (hp : ctx.source.parentOf s = some p) :
    D.Matched s t ↔ SameId ctx.source ctx.target s t :=
  ⟨fun hm => (hd.only s t hm).resolve_right fun hroots => source_below h hp hroots.1, hd.same s t⟩

theorem target_matched_iff {s t q : NodeRef} (hq : ctx.target.parentOf t = some q) :
    D.Matched s t ↔ SameId ctx.source ctx.target s t :=
  ⟨fun hm => (hd.only s t hm).resolve_right fun hroots => target_below h hq hroots.2, hd.same s t⟩

/-- Every match that crosses moved: it is certain. -/
theorem moved_of_crosses {s t : NodeRef} (hc : D.Crosses s t) : Moved D certainty ctx.profile s t := by
  refine ⟨hc, ?_⟩
  obtain ⟨hm, p, -, hp, -⟩ := hc
  rw [h.source_parent] at hp
  rw [hd.certain s t ((source_matched_iff h hd hp).mp hm)]
  exact ctx.profile.moveConfidenceThreshold_range.2

theorem aligned_iff_same {s t : NodeRef} : D.Aligned s t ↔ SameId ctx.source ctx.target s t ∧
    ∃ p q, ctx.source.parentOf s = some p ∧ ctx.target.parentOf t = some q ∧ Counterparts ctx.source ctx.target p q := by
  simp only [Comparison.Aligned, h.source_parent, h.target_parent, paired_iff_counterparts h hd]
  refine and_congr_left fun hx => ?_
  obtain ⟨p, -, hp, -⟩ := hx
  exact source_matched_iff h hd hp

theorem crosses_iff_same {s t : NodeRef} : D.Crosses s t ↔ SameId ctx.source ctx.target s t ∧
    ∃ p q, ctx.source.parentOf s = some p ∧ ctx.target.parentOf t = some q ∧ ¬ Counterparts ctx.source ctx.target p q := by
  simp only [Comparison.Crosses, h.source_parent, h.target_parent, paired_iff_counterparts h hd]
  refine and_congr_left fun hx => ?_
  obtain ⟨p, -, hp, -⟩ := hx
  exact source_matched_iff h hd hp

include hid

omit hd in
/-- Nodes that share an id have parents. -/
theorem same_parents {s t : NodeRef} (hst : SameId ctx.source ctx.target s t) :
    (∃ p, D.source.parent s = some p) ∧ ∃ q, D.target.parent t = some q := by
  obtain ⟨hs, ht⟩ := hst.mem
  obtain ⟨i, hsi, hti⟩ := hst
  rw [h.source_eq, h.target_eq]
  constructor
  · refine Hierarchy.Node.parent_of_ne_root (h.source_rooted.node_iff.mpr hs) fun hroot => ?_
    rw [(hid.source_ids s hs).mpr hroot] at hsi
    cases hsi
  · refine Hierarchy.Node.parent_of_ne_root (h.target_rooted.node_iff.mpr ht) fun hroot => ?_
    rw [(hid.target_ids t ht).mpr hroot] at hti
    cases hti

theorem deleted_iff_unmatched {s : NodeRef} : Absent D certainty ctx.profile s ↔
    (∃ p q, ctx.source.parentOf s = some p ∧ Counterparts ctx.source ctx.target p q) ∧
      ∀ t, ¬ SameId ctx.source ctx.target s t := by
  have hpaired : ∀ {p q q'}, D.Paired p q → D.Paired p q' → q = q' := fun hpq hpq' =>
    (counterparts_unique hid ((paired_iff_counterparts h hd).mp hpq) ((paired_iff_counterparts h hd).mp hpq')
      (Or.inl rfl)).2
  rw [absent_iff_unmatched hd.settled (fun _ _ hc => moved_of_crosses h hd hc) hpaired fun s t p hp hm =>
    (same_parents h hid ((source_matched_iff h hd (h.source_parent ▸ hp)).mp hm)).2]
  simp only [h.source_parent, paired_iff_counterparts h hd]
  refine and_congr_right fun hx => ?_
  obtain ⟨p, -, hp, -⟩ := hx
  exact forall_congr' fun t => not_congr (source_matched_iff h hd hp)

theorem inserted_iff_unmatched {t : NodeRef} : Absent D.swap (fun b a => certainty a b) ctx.profile t ↔
    (∃ p q, ctx.target.parentOf t = some q ∧ Counterparts ctx.source ctx.target p q) ∧
      ∀ s, ¬ SameId ctx.source ctx.target s t := by
  have hpaired : ∀ {q p p'}, D.swap.Paired q p → D.swap.Paired q p' → p = p' := fun hpq hpq' =>
    (counterparts_unique hid ((paired_iff_counterparts h hd).mp (Comparison.paired_swap.mp hpq))
      ((paired_iff_counterparts h hd).mp (Comparison.paired_swap.mp hpq')) (Or.inr rfl)).1
  have hparent : D.swap.source.parent = ctx.target.parentOf := h.target_parent
  rw [absent_iff_unmatched (fun t s => hd.settled s t)
    (fun t s hc => moved_swap.mpr (moved_of_crosses h hd (Comparison.crosses_swap.mp hc))) hpaired fun t s q hq hm =>
      (same_parents h hid ((target_matched_iff h hd (hparent ▸ hq)).mp hm)).1]
  simp only [hparent, Comparison.paired_swap, paired_iff_counterparts h hd]
  rw [exists_comm]
  refine and_congr_right fun hx => ?_
  obtain ⟨-, q, hq, -⟩ := hx
  exact forall_congr' fun s => not_congr (target_matched_iff h hd hq)

omit h hd hid in
theorem entry_matchOf {s t : NodeRef} {a b : CanonicalNode} (ha : ctx.source.nodes.get? s = some a)
    (hb : ctx.target.nodes.get? t = some b) : entry (matchOf ctx s t) =
      (if a.contentProperties.pyEq b.contentProperties = true then .match_ else .update, [s], [t]) := by
  have hchanged : contentChanged ctx.source ctx.target s t = !a.contentProperties.pyEq b.contentProperties := by
    unfold contentChanged
    rw [ha, hb]
  unfold entry
  rw [matchOf_type, hchanged]
  cases a.contentProperties.pyEq b.contentProperties <;> rfl

/-- What is reported says the difference of the trees, and all of it. -/
theorem difference_iff_below (hall : AllEnabled ctx.profile) {e : Entry} :
    Difference ctx.source ctx.target ap e ↔ ∃ x, Reported ctx ap D certainty x ∧ entry x = e := by
  have hgraph : ∀ {p q}, Counterparts ctx.source ctx.target p q → ∀ s ∈ ctx.source.childrenOf p,
      ∀ t ∈ ctx.target.childrenOf q, ctx.graph.Confirmed s t ↔ SameId ctx.source ctx.target s t := by
    intro p q hpq s hs t _
    have hp := (h.mem_source_children ((paired_iff_counterparts h hd).mpr hpq)).mp hs
    exact (h.matched_iff s t).trans (source_matched_iff h hd (h.source_parent ▸ hp))
  constructor
  · intro hdiff
    cases hdiff with
    | @kept s t p q a b hst hp hq hpq ha hb he =>
      refine ⟨_, .aligned ((aligned_iff_same h hd).mpr ⟨hst, p, q, hp, hq, hpq⟩) (enabled_kept hall s t), ?_⟩
      rw [entry_matchOf ha hb, if_pos he]
    | @updated s t p q a b hst hp hq hpq ha hb he =>
      refine ⟨_, .aligned ((aligned_iff_same h hd).mpr ⟨hst, p, q, hp, hq, hpq⟩) (enabled_kept hall s t), ?_⟩
      rw [entry_matchOf ha hb, he]
      rfl
    | @moved s t p q hst hp hq hpq =>
      have hc : D.Crosses s t := (crosses_iff_same h hd).mpr ⟨hst, p, q, hp, hq, hpq⟩
      exact ⟨_, .moved (moved_of_crosses h hd hc) (hall _ (by decide)), rfl⟩
    | @deleted s p q hp hpq hno =>
      have hu : false = true ↔ D.Open s := ⟨fun hf => absurd hf (by simp), fun ⟨t, ho⟩ => absurd ho (hd.settled s t)⟩
      exact ⟨_, .deleted ((deleted_iff_unmatched h hd hid).mpr ⟨⟨p, q, hp, hpq⟩, hno⟩) hu (hall _ (by decide)), rfl⟩
    | @inserted t p q hq hpq hno =>
      have hu : false = true ↔ D.swap.Open t :=
        ⟨fun hf => absurd hf (by simp), fun ⟨s, ho⟩ => absurd ho (hd.settled s t)⟩
      exact ⟨_, .inserted ((inserted_iff_unmatched h hd hid).mpr ⟨⟨p, q, hq, hpq⟩, hno⟩) hu (hall _ (by decide)), rfl⟩
    | @reordered p q node as bs b b' hpq hnode hordered hcommon hb hb' =>
      have hs : Shuffled ctx ap p q :=
        ⟨⟨node, hnode, hordered⟩, (orderChanged_common hid (hgraph hpq) hcommon).mpr ⟨b, b', hb, hb'⟩⟩
      obtain ⟨rfl, rfl⟩ := hcommon.unique hid (commonChildren_matched (hgraph hpq))
      exact ⟨_, .reordered ((paired_iff_counterparts h hd).mpr hpq) hs (hall _ (by decide)), rfl⟩
  · intro h₀
    obtain ⟨x, hx, rfl⟩ := h₀
    cases hx with
    | @aligned s t ha hen =>
      obtain ⟨hst, p, q, hp, hq, hpq⟩ := (aligned_iff_same h hd).mp ha
      obtain ⟨hs, ht⟩ := h.known s t ha.1
      obtain ⟨a, ha⟩ := (Dict.mem_keys _).mp hs
      obtain ⟨b, hb⟩ := (Dict.mem_keys _).mp ht
      rw [entry_matchOf ha hb]
      cases he : a.contentProperties.pyEq b.contentProperties with
      | true => exact .kept hst hp hq hpq ha hb he
      | false => exact .updated hst hp hq hpq ha hb he
    | deleted ha hu hen =>
      obtain ⟨⟨p, q, hp, hpq⟩, hno⟩ := (deleted_iff_unmatched h hd hid).mp ha
      exact .deleted hp hpq hno
    | inserted ha hu hen =>
      obtain ⟨⟨p, q, hq, hpq⟩, hno⟩ := (inserted_iff_unmatched h hd hid).mp ha
      exact .inserted hq hpq hno
    | moved hm hen =>
      obtain ⟨hst, p, q, hp, hq, hpq⟩ := (crosses_iff_same h hd).mp hm.1
      exact .moved hst hp hq hpq
    | @reordered p q hpq hs hen =>
      obtain ⟨⟨node, hnode, hordered⟩, hchanged⟩ := hs
      have hpq := (paired_iff_counterparts h hd).mp hpq
      have hcommon := commonChildren_matched (hgraph hpq)
      obtain ⟨b, b', hb, hb'⟩ := (orderChanged_common hid (hgraph hpq) hcommon).mp hchanged
      exact .reordered hpq hnode hordered hcommon hb hb'

omit hd hid in
theorem difference_iff (hd : MatchedById ctx D certainty) (hid : Identified ctx.source ctx.target)
    (hall : AllEnabled ctx.profile) {e : Entry} :
    Difference ctx.source ctx.target ap e ↔ ∃ x, Reported ctx ap D certainty x ∧ entry x = e :=
  difference_iff_below h hd.below hid hall

end Entries

/-! ## Runs -/

section Runs
variable [PyRuntime] {command : ReconcileTreesCommand}

/-- A run reports the exact difference of two identified trees, exactly when it can tell the regions
    of corresponding parents apart. -/
theorem exactDiff_iff (h : Admitted command) (hid : Identified (normalizedSource command) (normalizedTarget command))
    (hp : IdOnly command.matchingProfile) (hall : AllEnabled command.operationProfile) :
    Outcome.Returns (reconcile command) (fun result => ExactDiff (normalizedSource command) (normalizedTarget command)
      command.alignmentProfile result.operations) ↔
    DistinctParentIds (normalizedSource command) (normalizedTarget command) := by
  obtain ⟨evidence, he⟩ := h.exists_evidence
  have hmatched : ∀ s t, (h.comparison evidence).Matched s t ↔
      SameId (normalizedSource command) (normalizedTarget command) s t := fun s t => corresponding_iff hid hp he
  have hpaired : ∀ p q, (h.comparison evidence).Paired p q ↔
      Counterparts (normalizedSource command) (normalizedTarget command) p q := fun p q => or_congr Iff.rfl (hmatched p q)
  have hdistinct : DistinctRegionIds (h.comparison evidence) ↔
      DistinctParentIds (normalizedSource command) (normalizedTarget command) := by
    unfold DistinctRegionIds DistinctParentIds
    simp only [hpaired]
  rw [← hdistinct, reconcile_admitted h]
  constructor
  · intro hreturns
    obtain ⟨result, hrun, -⟩ := hreturns
    exact ((runStages_total_iff h he).mp ⟨result, hrun⟩).2
  · intro hregions
    obtain ⟨result, hrun⟩ := (runStages_total_iff h he).mpr ⟨hid.supported hp he, hregions⟩
    obtain ⟨evidence', hs⟩ := runStages_stages hrun
    obtain rfl : evidence = evidence' := Except.ok.inj (he.symm.trans hs.extracted)
    have hagrees := hs.agrees h
    have hd : MatchedById (context command result) (h.comparison evidence) (certainty evidence command.matchingProfile) :=
      ⟨hmatched, fun s t => not_edge hid hp he, fun s t hm => certainty_same hid hp he ((hmatched s t).mp hm)⟩
    obtain ⟨set, hset, hnodup, -, hmem⟩ := classify_run hagrees
    obtain rfl : result.operations = set := Except.ok.inj (hs.classified.symm.trans hset)
    refine ⟨result, hrun, ?_, fun e => ?_⟩
    · refine (hnodup (hagrees.positions_nodup fun hpq hpq' hor => ?_)).map_on fun x hx y hy hxy => ?_
      · exact counterparts_unique hid ((hpaired _ _).mp hpq) ((hpaired _ _).mp hpq') hor
      · exact Checked.ext_val (reported_unique hagrees ((hmem x).mp hx) ((hmem y).mp hy) hxy)
    · refine Iff.trans ?_ (difference_iff hagrees hd hid hall).symm
      constructor
      · intro hin
        obtain ⟨op, hop, rfl⟩ := List.mem_map.mp hin
        exact ⟨op.val, (hmem op).mp hop, rfl⟩
      · intro h₀
        obtain ⟨x, hx, rfl⟩ := h₀
        obtain ⟨op, hop, rfl⟩ := hs.exists_op h hx
        exact List.mem_map.mpr ⟨op, hop, rfl⟩

end Runs

/-- Only the persistent id has a weight. -/
def idProfile : MatchingProfile := { defaultMatchingProfile with featureWeights := [⟨.persistentId, 1, weight_one⟩] }

theorem idProfile_idOnly : IdOnly idProfile where
  single := ⟨_, rfl, rfl, by norm_num⟩
  authoritative := by decide
  threshold_pos := by norm_num [idProfile, defaultMatchingProfile]

/-- Two chapters swap, a third one moves into a new part, its section stays with it, and a fourth one is gone. -/
def reorganizedBook : ReconcileTreesCommand :=
  { defaultCommand
      (buildTree "book" [⟨"book", "map", none, [], []⟩, ⟨"intro", "topic", some "book", [("id", .str "i")], []⟩,
        ⟨"setup", "topic", some "book", [("id", .str "s")], []⟩, ⟨"usage", "topic", some "book", [("id", .str "u")], []⟩,
        ⟨"flags", "topic", some "usage", [("id", .str "f")], []⟩, ⟨"errata", "topic", some "book", [("id", .str "e")], []⟩])
      (buildTree "book" [⟨"book", "map", none, [], []⟩, ⟨"setup", "topic", some "book", [("id", .str "s")], []⟩,
        ⟨"intro", "topic", some "book", [("id", .str "i")], [("title", .str "Preface")]⟩,
        ⟨"part", "part", some "book", [("id", .str "p")], []⟩, ⟨"usage", "topic", some "part", [("id", .str "u")], []⟩,
        ⟨"flags", "topic", some "usage", [("id", .str "f")], []⟩]) with
    matchingProfile := idProfile }

theorem reorganizedBook_exact : Outcome.Returns (@reconcile asciiRuntime reorganizedBook) fun result =>
    ExactDiff (normalizedSource reorganizedBook) (normalizedTarget reorganizedBook) reorganizedBook.alignmentProfile
      result.operations := by
  have hadmitted : Admitted reorganizedBook :=
    ⟨by decide +kernel, by decide +kernel, by decide +kernel, by decide +kernel⟩
  exact (@exactDiff_iff asciiRuntime _ hadmitted (by decide +kernel) idProfile_idOnly (by decide)).mpr (by decide +kernel)

/-- With arrows inside the references two regions get one id, and there is no report at all. -/
theorem arrowIds_not_exact : let command := { arrowRefs with matchingProfile := idProfile }
    Admitted command ∧ Identified (normalizedSource command) (normalizedTarget command) ∧
      IdOnly command.matchingProfile ∧ AllEnabled command.operationProfile ∧
      ¬ Outcome.Returns (@reconcile asciiRuntime command) fun result =>
        ExactDiff (normalizedSource command) (normalizedTarget command) command.alignmentProfile result.operations := by
  have hrun : ¬ Outcome.Returns (@reconcile asciiRuntime { arrowRefs with matchingProfile := idProfile }) fun _ => True := by
    decide +kernel
  refine ⟨⟨by decide +kernel, by decide +kernel, by decide +kernel, by decide +kernel⟩, by decide +kernel,
    idProfile_idOnly, by decide, fun h => hrun ?_⟩
  obtain ⟨result, hresult, -⟩ := h
  exact ⟨result, hresult, trivial⟩

end Reconciliation.Reports
