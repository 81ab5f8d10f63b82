/-
  Reconciliation.Reports.CleanReport — what a report of matches alone guarantees.

  A complete result is `Clean` when no candidate is ambiguous and every operation is a
  match. Then nothing is alone, moved, changed or shuffled, and the comparison is `Exact`:
  the roots and the confirmed pairs map one tree onto the other, parents, sibling order and
  content included (`clean_report_sound`).
-/
import Reconciliation.Builders
import Reconciliation.Reports.Occurrences

namespace Reconciliation.Reports

open Reconciliation.Base Reconciliation.Contracts Reconciliation.Normalization Reconciliation.Evidence
  Reconciliation.Alignment Reconciliation.Matching Reconciliation.Classification Reconciliation.Engine
  Reconciliation.Builders

/-! ## Faithful copies -/

/-- The counterpart of the root is the root, that of every other source node its confirmed target. -/
def Counterpart (command : ReconcileTreesCommand) (result : ReconciliationResult) (s t : NodeRef) : Prop :=
  (s = command.sourceTree.rootNodeRef ∧ t = command.targetTree.rootNodeRef) ∨
    (s ≠ command.sourceTree.rootNodeRef ∧ result.matchGraph.Confirmed s t)

/-- Counterparts are a bijection of the nodes that preserves the tree and what is in it. -/
structure FaithfulCopy (command : ReconcileTreesCommand) (result : ReconciliationResult) : Prop where
  target_of_source : ∀ s ∈ command.sourceTree.nodes.keys,
    ∃! t, t ∈ command.targetTree.nodes.keys ∧ Counterpart command result s t
  source_of_target : ∀ t ∈ command.targetTree.nodes.keys,
    ∃! s, s ∈ command.sourceTree.nodes.keys ∧ Counterpart command result s t
  parents : ∀ s ∈ command.sourceTree.nodes.keys, ∀ p ∈ command.sourceTree.nodes.keys, ∀ t q,
    Counterpart command result s t → Counterpart command result p q →
    (command.sourceTree.parentOf s = some p ↔ command.targetTree.parentOf t = some q)
  order : ∀ p q node, command.sourceTree.nodes.get? p = some node → Counterpart command result p q →
    command.alignmentProfile.orderSemanticsFor node.nodeType = .ordered →
    List.Forall₂ (Counterpart command result) (command.sourceTree.childrenOf p) (command.targetTree.childrenOf q)
  content : ∀ s ∈ command.sourceTree.nodes.keys, s ≠ command.sourceTree.rootNodeRef → ∀ t,
    Counterpart command result s t → ∃ a ∈ (normalizedSource command).nodes.get? s,
      ∃ b ∈ (normalizedTarget command).nodes.get? t, a.contentProperties.pyEq b.contentProperties = true
  types : command.matchingProfile.hardConstraintNodeType = true → ∀ s ∈ command.sourceTree.nodes.keys,
    s ≠ command.sourceTree.rootNodeRef → ∀ t, Counterpart command result s t →
      ∃ a ∈ command.sourceTree.nodes.get? s, ∃ b ∈ command.targetTree.nodes.get? t, a.nodeType = b.nodeType

/-- No candidate is ambiguous, and every operation is a match. -/
structure Clean (result : ReconciliationResult) : Prop where
  unambiguous : result.matchGraph.ambiguous = []
  only_matches : ∀ op ∈ result.operations.operations, op.val.type = .match_

instance (result : ReconciliationResult) : Decidable (Clean result) :=
  decidable_of_iff (result.matchGraph.ambiguous.isEmpty = true ∧ ∀ op ∈ result.operations.operations, op.val.type = .match_)
    ⟨fun h => ⟨List.isEmpty_iff.mp h.1, h.2⟩, fun h => ⟨List.isEmpty_iff.mpr h.unambiguous, h.only_matches⟩⟩

/-! ## What a clean result excludes -/

section Exclusions
variable {result : ReconciliationResult} (hclean : Clean result)

include hclean

theorem Clean.not_ambiguous (s t : NodeRef) : ¬ result.matchGraph.Ambiguous s t := by
  intro hx
  obtain ⟨c, hc, hstate, -, -⟩ := hx
  have hmem := MatchGraph.mem_ambiguous.mpr ⟨hc, hstate⟩
  rw [hclean.unambiguous] at hmem
  cases hmem

theorem Clean.not_sourceIn {type : OperationType} (hne : type ≠ .match_) (s : NodeRef) : ¬ SourceIn result [type] s := by
  intro hx
  obtain ⟨op, hop, ht, -⟩ := hx
  exact hne ((List.mem_singleton.mp ht).symm.trans (hclean.only_matches op hop))

theorem Clean.not_targetIn {type : OperationType} (hne : type ≠ .match_) (t : NodeRef) : ¬ TargetIn result [type] t := by
  intro hx
  obtain ⟨op, hop, ht, -⟩ := hx
  exact hne ((List.mem_singleton.mp ht).symm.trans (hclean.only_matches op hop))

end Exclusions

section CleanRuns
variable [PyRuntime] {command : ReconcileTreesCommand} {evidence : EvidenceIndex} {result : ReconciliationResult}
  (h : Admitted command) (hs : Stages command evidence result)

include h hs

theorem counterpart_iff {s t : NodeRef} :
    Counterpart command result s t ↔ (h.comparison evidence).Corresponds s t := by
  unfold Counterpart
  rw [confirmed_iff hs.matched]
  rfl

variable (hall : AllEnabled command.operationProfile) (hclean : Clean result)

include hclean

theorem clean_not_open (s : NodeRef) : ¬ (h.comparison evidence).Open s := by
  intro hx
  obtain ⟨t, hedge⟩ := hx
  exact hclean.not_ambiguous s t ((ambiguous_iff hs.matched).mpr hedge)

theorem clean_not_open_target (t : NodeRef) : ¬ (h.comparison evidence).swap.Open t := by
  intro hx
  obtain ⟨s, hedge⟩ := hx
  exact hclean.not_ambiguous s t ((ambiguous_iff hs.matched).mpr hedge)

include hall

/-- Nothing is alone: it would be reported as moved or as absent. -/
theorem clean_exact : (h.comparison evidence).Exact := by
  have hmoved : ∀ s t, ¬ Moved (h.comparison evidence) (certainty evidence command.matchingProfile)
      command.operationProfile s t := fun s t hm =>
    hclean.not_sourceIn (by decide) s ((moved_source_iff h hs hall).mpr ⟨t, hm⟩)
  have hopen := clean_not_open h hs hclean
  have hopen' := clean_not_open_target h hs hclean
  constructor
  · intro p q s halone
    have habsent := absent_of_alone hopen hopen' halone (hmoved s)
    exact hclean.not_sourceIn (by decide) s ((deleted_iff h hs).mpr ⟨hall _ (by decide), habsent⟩)
  · intro p q t halone
    have habsent := absent_of_alone (D := (h.comparison evidence).swap) hopen' hopen halone
      fun s hm => hmoved s t (moved_swap.mp hm)
    exact hclean.not_targetIn (by decide) t ((inserted_iff h hs).mpr ⟨hall _ (by decide), habsent⟩)

theorem clean_content {s t : NodeRef} (ha : (h.comparison evidence).Aligned s t) :
    contentChanged (normalizedSource command) (normalizedTarget command) s t = false := by
  obtain ⟨op, hop, hval⟩ := hs.exists_op h (.aligned ha (enabled_kept hall s t))
  have htype := hclean.only_matches op hop
  rw [hval, matchOf_type] at htype
  split at htype
  · cases htype
  · rename_i hchanged
    exact eq_false_of_ne_true hchanged

theorem clean_not_shuffled {p q : NodeRef} (hpq : (h.comparison evidence).Paired p q) :
    ¬ Shuffled (context command result) command.alignmentProfile p q := by
  intro hshuffled
  obtain ⟨op, hop, hval⟩ := hs.exists_op h (.reordered hpq hshuffled (hall _ (by decide)))
  have htype := hclean.only_matches op hop
  rw [hval] at htype
  cases htype

/-- Below paired parents whose order matters, the children correspond one by one. -/
theorem clean_order {p q : NodeRef} {node : CanonicalNode} (hp : command.sourceTree.nodes.get? p = some node)
    (hpq : (h.comparison evidence).Corresponds p q)
    (hordered : command.alignmentProfile.orderSemanticsFor node.nodeType = .ordered) :
    List.Forall₂ (Counterpart command result) (command.sourceTree.childrenOf p) (command.targetTree.childrenOf q) := by
  have hexact := clean_exact h hs hall hclean
  have hagrees := hs.agrees h
  have hsource : ∀ s, s ∈ command.sourceTree.childrenOf p ↔ (h.comparison evidence).source.parent s = some p := by
    intro s
    rw [← hagrees.mem_source_children hpq.paired]
    exact (Iff.of_eq (congrArg (s ∈ ·) childrenOf_normalize)).symm
  have htarget : ∀ t, t ∈ command.targetTree.childrenOf q ↔ (h.comparison evidence).target.parent t = some q := by
    intro t
    rw [← hagrees.mem_target_children hpq.paired]
    exact (Iff.of_eq (congrArg (t ∈ ·) childrenOf_normalize)).symm
  have hforward : ∀ s ∈ command.sourceTree.childrenOf p, ∃ t ∈ command.targetTree.childrenOf q,
      result.matchGraph.Confirmed s t := by
    intro s hin
    by_contra hno
    refine hexact.source_matched p q s ⟨hpq.paired, (hsource s).mp hin, fun t ht hm => hno ⟨t, (htarget t).mpr ht, ?_⟩⟩
    exact (hagrees.matched_iff s t).mpr hm
  have hbackward : ∀ t ∈ command.targetTree.childrenOf q, ∃ s ∈ command.sourceTree.childrenOf p,
      result.matchGraph.Confirmed s t := by
    intro t hin
    by_contra hno
    refine hexact.target_matched p q t ⟨Comparison.paired_swap.mpr hpq.paired, (htarget t).mp hin, fun s hin' hm => ?_⟩
    exact hno ⟨s, (hsource s).mpr hin', (hagrees.matched_iff s t).mpr hm⟩
  have hunchanged : orderChanged result.matchGraph (command.sourceTree.childrenOf p) (command.targetTree.childrenOf q) = false := by
    by_contra hchanged
    refine clean_not_shuffled h hs hall hclean hpq.paired ⟨⟨normalizeNode command.normalizationProfile p node, ?_, hordered⟩, ?_⟩
    · exact (get_normalize _ _ _).trans (by rw [hp]; rfl)
    · refine Eq.trans ?_ (eq_true_of_ne_false hchanged)
      exact congrArg₂ (orderChanged result.matchGraph) childrenOf_normalize childrenOf_normalize
  have hpairs : List.Forall₂ (Counterpart command result)
      ((matchedPairs result.matchGraph (command.sourceTree.childrenOf p) (command.targetTree.childrenOf q)).map Prod.fst)
      ((matchedPairs result.matchGraph (command.sourceTree.childrenOf p) (command.targetTree.childrenOf q)).map Prod.snd) := by
    rw [List.forall₂_map_left_iff, List.forall₂_map_right_iff, List.forall₂_same]
    intro x hx
    obtain ⟨hin, -, hc⟩ := mem_matchedPairs.mp hx
    exact Or.inr ⟨Hierarchy.ne_root_of_parent ((hsource x.1).mp hin), hc⟩
  rwa [matchedSources_eq hforward, matchedTargets_eq (Validation.Rooted.children_nodup _) hbackward hunchanged] at hpairs

end CleanRuns

/-! ## Clean results -/

section CleanReports
variable [PyRuntime] {command : ReconcileTreesCommand} {result : ReconciliationResult}

theorem clean_report_sound (hc : Completes command result) (hall : AllEnabled command.operationProfile)
    (hclean : Clean result) : FaithfulCopy command result := by
  obtain ⟨h, evidence, hs⟩ := hc.exists_stages
  have hexact := clean_exact h hs hall hclean
  have hnode : ∀ s, s ∈ command.sourceTree.nodes.keys ↔ (h.comparison evidence).source.Node s := fun s => (h.source_node evidence s).symm
  have hnode' : ∀ t, t ∈ command.targetTree.nodes.keys ↔ (h.comparison evidence).target.Node t := fun t => (h.target_node evidence t).symm
  have hbijection := hexact.corresponds
  constructor
  · simpa only [hnode, hnode', counterpart_iff h hs] using hbijection.1
  · simpa only [hnode, hnode', counterpart_iff h hs] using hbijection.2
  · intro s hin p hin' t q hst hpq
    rw [counterpart_iff h hs] at hst hpq
    rw [← h.source_parent evidence, ← h.target_parent evidence]
    exact hexact.parent_iff ((hnode s).mp hin) ((hnode p).mp hin') hst hpq
  · intro p q node hp hpq hordered
    exact clean_order h hs hall hclean hp ((counterpart_iff h hs).mp hpq) hordered
  · intro s hin hroot t hst
    rw [counterpart_iff h hs] at hst
    obtain ⟨p, hp⟩ := ((hnode s).mp hin).parent_of_ne_root hroot
    obtain ⟨q, hq, hpq⟩ := hexact.parent_of hst hp
    have hm : (h.comparison evidence).Matched s t := by
      rcases hst with ⟨he, -⟩ | ⟨-, hm⟩
      · exact absurd he hroot
      · exact hm
    have hsame := clean_content h hs hall hclean ⟨hm, p, q, hp, hq, hpq.paired⟩
    obtain ⟨hs', ht'⟩ := (hs.agrees h).known s t hm
    obtain ⟨a, ha⟩ := (Dict.mem_keys _).mp hs'
    obtain ⟨b, hb⟩ := (Dict.mem_keys _).mp ht'
    refine ⟨a, ha, b, hb, ?_⟩
    unfold contentChanged at hsame
    have ha' : (normalizedSource command).nodes.get? s = some a := ha
    have hb' : (normalizedTarget command).nodes.get? t = some b := hb
    rw [ha', hb'] at hsame
    simpa using hsame
  · intro hhard s hin hroot t hst
    rcases (counterpart_iff h hs).mp hst with ⟨he, -⟩ | ⟨-, hm⟩
    · exact absurd he hroot
    · exact sameType_of_corresponding hs.extracted hm hhard

end CleanReports

/-- A manual exported a second time: other references and spacing, the same ids and text. -/
def exportedManual : ReconcileTreesCommand :=
  defaultCommand
    (buildTree "manual" [⟨"manual", "map", none, [], []⟩, ⟨"intro", "topic", some "manual", [("id", .str "i")], []⟩,
      ⟨"setup", "topic", some "manual", [("id", .str "s")], [("title", .str "Set up")]⟩,
      ⟨"tools", "topic", some "setup", [("id", .str "t")], []⟩])
    (buildTree "n0" [⟨"n0", "map", none, [], []⟩, ⟨"n1", "topic", some "n0", [("id", .str "i")], []⟩,
      ⟨"n2", "topic", some "n0", [("id", .str "s")], [("title", .str "Set  up ")]⟩,
      ⟨"n3", "topic", some "n2", [("id", .str "t")], []⟩])

theorem exportedManual_faithful :
    ∃ result, @Completes asciiRuntime exportedManual result ∧ FaithfulCopy exportedManual result := by
  have hrun : Outcome.Returns (@reconcile asciiRuntime exportedManual) fun result => result.complete = true ∧
      Clean result := by
    decide +kernel
  obtain ⟨result, -, -, hc, hclean, -⟩ := @exists_completes asciiRuntime _ _ hrun
  exact ⟨result, hc, @clean_report_sound asciiRuntime _ _ hc (by decide) hclean⟩

end Reconciliation.Reports
