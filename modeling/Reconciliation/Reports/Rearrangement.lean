/-
  Reconciliation.Reports.Rearrangement — the report of a tree against a rearrangement of itself.

  The order of children bears on no evidence while the list of their types stays, so every node
  is matched with its image or left open, as in the comparison of the tree with itself. Nothing is
  inserted, deleted, updated or, where the order that matters is kept, reordered
  (`rearranged_kept`). A move is reported exactly when a matched node has a parent below the root
  that is left open (`moved_image`).
-/
import Reconciliation.Reports.Renaming
import Reconciliation.Reports.SelfComparison

namespace Reconciliation.Reports

open Reconciliation.Base Reconciliation.Contracts Reconciliation.Normalization Reconciliation.Validation
  Reconciliation.Evidence Reconciliation.Alignment Reconciliation.Matching Reconciliation.Classification
  Reconciliation.Engine

/-- The comparison of the source tree with itself. -/
def ownComparison {command : ReconcileTreesCommand} (h : Admitted command) (own : EvidenceIndex) :
    Comparison NodeRef NodeRef := Matching.comparison own command.matchingProfile h.source_rooted h.source_rooted

section Runs
variable [PyRuntime] {command : ReconcileTreesCommand} {f : NodeRef → NodeRef} {Fixed : String → Prop}
  {evidence own : EvidenceIndex} {result : ReconciliationResult} (h : Admitted command)
  (hr : RearrangedTree f Fixed command.sourceTree command.targetTree) (hw : Discerning command.matchingProfile)
  (hown : extract (normalizedSource command) (normalizedSource command) = .ok own)
  (he : extract (normalizedSource command) (normalizedTarget command) = .ok evidence)

omit [PyRuntime] in
include hr in
theorem normalized_rearranged : RearrangedTree f Fixed (normalizedSource command) (normalizedTarget command) :=
  rearrangedTree_normalize hr command.normalizationProfile

include hr hown he in
theorem own_renamed : RenamedEvidence id own.source evidence.source ∧ RenamedEvidence f own.target evidence.target ∧
    Comparison.Renamed id f (ownComparison h own) (h.comparison evidence) :=
  comparison_rearranged ((renamedTree_refl _).rearranged Fixed) (normalized_rearranged hr) h.source_rooted h.source_rooted
    h.source_rooted h.target_rooted hown he

include hw hown in
theorem own_selfCompared : SelfCompared (ownComparison h own) :=
  selfCompared_of_same h.source_rooted h.source_rooted rfl hw hown

include h hr hw hown he

/-- A node is matched with its image, and as it is with itself. -/
theorem matched_image {s t : NodeRef} :
    (h.comparison evidence).Matched s t ↔ f s = t ∧ (ownComparison h own).Matched s s := by
  obtain ⟨-, -, hren⟩ := own_renamed h hr hown he
  rw [hren.matched_iff]
  constructor
  · intro hm
    obtain ⟨a, b, hm, rfl, rfl⟩ := hm
    obtain rfl := (own_selfCompared h hw hown).matched_eq a b hm
    exact ⟨rfl, hm⟩
  · intro hm
    obtain ⟨rfl, hm⟩ := hm
    exact ⟨s, s, hm, rfl, rfl⟩

theorem paired_image {p q : NodeRef} (hpq : (h.comparison evidence).Paired p q) :
    f p = q ∧ (h.comparison evidence).source.Node p := by
  obtain ⟨-, -, hren⟩ := own_renamed h hr hown he
  rcases hpq with ⟨rfl, rfl⟩ | hm
  · exact ⟨hren.target.root_eq.symm, Hierarchy.node_root⟩
  · exact ⟨((matched_image h hr hw hown he).mp hm).1, h.source_rooted.node_iff.mpr (corresponding_known he hm).1⟩

omit hw in
theorem certainty_image {s t : NodeRef} (hm : (ownComparison h own).Matched s t) :
    certainty evidence command.matchingProfile s (f t) = certainty own command.matchingProfile s t := by
  obtain ⟨hrs, hrt, -⟩ := own_renamed h hr hown he
  exact certainty_renamed hrs hrt hown he hm

/-! ## Nothing is absent -/

theorem open_image {s : NodeRef} (hnode : (ownComparison h own).source.Node s) :
    (h.comparison evidence).Open s ↔ (ownComparison h own).Open s := by
  obtain ⟨hrs, hrt, -⟩ := own_renamed h hr hown he
  obtain ⟨hes, -, -, -⟩ := extract_ok.mp hown
  exact source_open_renamed hrs hrt hown he ((mem_keys_extractTree hes).mpr (h.source_rooted.node_iff.mp hnode))
    (diagonal hown hw).not_shaken

omit hw in
theorem target_open_image {t : NodeRef} (hnode : (ownComparison h own).target.Node t) :
    (h.comparison evidence).swap.Open (f t) ↔ (ownComparison h own).swap.Open t := by
  obtain ⟨hrs, hrt, -⟩ := own_renamed h hr hown he
  obtain ⟨-, het, -, -⟩ := extract_ok.mp hown
  exact target_open_renamed hrs hrt hown he ((mem_keys_extractTree het).mpr (h.source_rooted.node_iff.mp hnode))

variable (hpolicy : command.operationProfile.unresolvedPresencePolicy ≠ .emitAll)

include hpolicy

theorem not_absent_source (s : NodeRef) : ¬ Absent (h.comparison evidence) (certainty evidence command.matchingProfile)
    command.operationProfile s := by
  intro habsent
  obtain ⟨-, -, hren⟩ := own_renamed h hr hown he
  have hnode : (ownComparison h own).source.Node s := by
    obtain ⟨p, q, halone, -⟩ := habsent
    exact Hierarchy.node_of_parent halone.2.1
  refine hpolicy ((own_selfCompared h hw hown).open_of_absent ((absent_renamed hren (fun a b hm =>
    certainty_image h hr hown he hm) hnode fun p q hp hpq => ?_).mp habsent)).1
  exact withheld_renamed hren (fun a ha => open_image h hr hw hown he ha)
    (fun b hb => target_open_image h hr hown he hb) hp hpq

theorem not_absent_target (t : NodeRef) : ¬ Absent (h.comparison evidence).swap
    (fun b a => certainty evidence command.matchingProfile a b) command.operationProfile t := by
  intro habsent
  obtain ⟨-, -, hren⟩ := own_renamed h hr hown he
  obtain ⟨t, hnode, rfl⟩ : ∃ b, (ownComparison h own).target.Node b ∧ f b = t := by
    obtain ⟨p, q, halone, -⟩ := habsent
    exact hren.target.onto t (Hierarchy.node_of_parent halone.2.1)
  refine hpolicy ((own_selfCompared h hw hown).swap.open_of_absent ((absent_renamed hren.swap (fun b a hm =>
    certainty_image h hr hown he hm) hnode fun q p hq hpq => ?_).mp habsent)).1
  exact withheld_renamed hren.swap (fun b hb => target_open_image h hr hown he hb)
    (fun a ha => open_image h hr hw hown he ha) hq hpq

omit hpolicy

/-! ## Nothing is changed -/

omit [PyRuntime] h hw hown he in
theorem content_image (s : NodeRef) :
    contentChanged (normalizedSource command) (normalizedTarget command) s (f s) = false := by
  unfold contentChanged
  cases hn : (normalizedSource command).nodes.get? s with
  | none => rfl
  | some node =>
    obtain ⟨node', hn', hnode⟩ := (normalized_rearranged hr).node s node hn
    simp [hn', hnode.content_eq, Properties.pyEq_refl]

/-- Where order matters, below fixed types only, it is kept. -/
theorem not_shuffled (hfixed : ∀ type, command.alignmentProfile.orderSemanticsFor type = .ordered → Fixed type)
    (hs : Stages command evidence result) {p q : NodeRef} (hpq : (h.comparison evidence).Paired p q) :
    ¬ Shuffled (context command result) command.alignmentProfile p q := by
  intro hshuffled
  obtain ⟨rfl, -⟩ := paired_image h hr hw hown he hpq
  obtain ⟨⟨node, hn, hordered⟩, hchanged⟩ := hshuffled
  have hn : (normalizedSource command).nodes.get? p = some node := hn
  have hnormal := normalized_rearranged hr
  obtain ⟨node', hn', hnode⟩ := hnormal.node p node hn
  have hchildren : (normalizedTarget command).childrenOf (f p) = ((normalizedSource command).childrenOf p).map f := by
    rw [CanonicalTree.childrenOf_eq hn, CanonicalTree.childrenOf_eq hn', hnode.children_fixed (hfixed _ hordered)]
  have hkept : orderChanged result.matchGraph ((normalizedSource command).childrenOf p)
      (((normalizedSource command).childrenOf p).map f) = false := by
    refine orderChanged_mapped (Rooted.children_nodup _) (fun a ha b hb => ?_) fun s t hc =>
      ((matched_image h hr hw hown he).mp ((confirmed_iff hs.matched).mp hc)).1
    have hknown := h.source_rooted.child_known p ((normalizedSource command).nodes.mem_keys.mpr ⟨node, hn⟩)
    exact hnormal.injective (hknown a ha) (hknown b hb)
  have hchanged : orderChanged result.matchGraph ((normalizedSource command).childrenOf p)
      ((normalizedTarget command).childrenOf (f p)) = true := hchanged
  rw [hchildren, hkept] at hchanged
  cases hchanged

/-- Nothing is inserted, deleted, updated or reordered. -/
theorem rearranged_kept (hpolicy : command.operationProfile.unresolvedPresencePolicy ≠ .emitAll)
    (hfixed : ∀ type, command.alignmentProfile.orderSemanticsFor type = .ordered → Fixed type)
    (hs : Stages command evidence result) {op : StructuralOperation} (hop : op ∈ result.operations.operations) :
    op.val.type = .match_ ∨ op.val.type = .move := by
  have hx := (hs.reported h op).mp hop
  generalize op.val = x at hx
  cases hx with
  | @aligned s t ha hen =>
    obtain ⟨rfl, -⟩ := (matched_image h hr hw hown he).mp ha.1
    left
    rw [matchOf_type]
    exact if_neg (by rw [show contentChanged (context command result).source (context command result).target s (f s) = false
      from content_image hr s]; simp)
  | deleted ha hu hen => exact absurd ha (not_absent_source h hr hw hown he hpolicy _)
  | inserted ha hu hen => exact absurd ha (not_absent_target h hr hw hown he hpolicy _)
  | moved hm hen => exact Or.inr rfl
  | reordered hpq hshuffled hen => exact absurd hshuffled (not_shuffled h hr hw hown he hfixed hs hpq)

/-! ## What moves -/

/-- A node moves when it is matched and its parent, below the root, is not. -/
theorem moved_image (hs : Stages command evidence result) (hmove : .move ∈ command.operationProfile.enabledOperations) :
    (∃ op ∈ result.operations.operations, op.val.type = .move) ↔ ∃ s p, command.sourceTree.parentOf s = some p ∧
      p ≠ command.sourceTree.rootNodeRef ∧ (ownComparison h own).Matched s s ∧ ¬ (ownComparison h own).Matched p p := by
  obtain ⟨-, -, hren⟩ := own_renamed h hr hown he
  have hself := own_selfCompared h hw hown
  have hparent : ∀ s, (ownComparison h own).source.parent s = command.sourceTree.parentOf s := fun s => parentOf_normalize
  constructor
  · intro hx
    obtain ⟨op, hop, htype⟩ := hx
    obtain ⟨s, t, hm, -, -⟩ := reported_moved_iff.mp ⟨(hs.reported h op).mp hop, by simp [htype]⟩
    obtain ⟨rfl, hmatched⟩ := (matched_image h hr hw hown he).mp hm.1.1
    obtain ⟨-, p, hp, hroot, ho⟩ := hself.open_of_crosses ((hren.crosses_iff hmatched).mp hm.1)
    exact ⟨s, p, (hparent s).symm.trans hp, hroot, hmatched, (ownComparison h own).source_settled ho⟩
  · intro hx
    obtain ⟨s, p, hp, hroot, hmatched, hno⟩ := hx
    have hcrosses : (ownComparison h own).Crosses s s := by
      refine ⟨hmatched, p, p, (hparent s).trans hp, (hparent s).trans hp, fun hpaired => ?_⟩
      rcases hpaired with ⟨hp, -⟩ | hm
      · exact hroot hp
      · exact hno hm
    have hsure : certainty evidence command.matchingProfile s (f s) = 1 := by
      rw [certainty_image h hr hown he hmatched]
      exact certainty_self hown hw hmatched
    have hmoved : Moved (h.comparison evidence) (certainty evidence command.matchingProfile) command.operationProfile s (f s) :=
      ⟨(hren.crosses_iff hmatched).mpr hcrosses, hsure ▸ command.operationProfile.moveConfidenceThreshold_range.2⟩
    obtain ⟨op, hop, hval⟩ := hs.exists_op h (.moved hmoved hmove)
    exact ⟨op, hop, by rw [hval]; rfl⟩

end Runs

end Reconciliation.Reports
