/-
  Reconciliation.Reports.References — every reference in a complete result resolves.

  The sections of a result refer to each other by ids that several modules derive again:
  operations name nodes and candidates, positions name candidates, explanations and
  suppressed effects name operations, effects cite rules (`references_resolve`). A candidate's
  id is that of its endpoints on both sides of every reference, so a confirmed pair is enough
  to resolve it (`confirmed_candidate`).
-/
import Reconciliation.Builders
import Reconciliation.Reports.Occurrences

namespace Reconciliation.Reports

open Reconciliation.Base Reconciliation.Contracts Reconciliation.Evidence Reconciliation.Matching
  Reconciliation.Alignment Reconciliation.Classification Reconciliation.Causality Reconciliation.Suppression
  Reconciliation.Normalization Reconciliation.Engine Reconciliation.Builders

/-! ## References -/

/-- The nodes and the match ids of an operation are those of the two trees and of the graph. -/
structure OperationResolves (command : ReconcileTreesCommand) (result : ReconciliationResult)
    (op : StructuralOperationFields) : Prop where
  sources : ∀ s ∈ op.sourceNodeRefs, s ∈ command.sourceTree.nodes.keys
  targets : ∀ t ∈ op.targetNodeRefs, t ∈ command.targetTree.nodes.keys
  matches_ : ∀ i ∈ op.matchIds, ∃ c ∈ result.matchGraph.confirmed, c.val.matchId = i ∧
    c.val.sourceNodeRef ∈ op.sourceNodeRefs ∧ c.val.targetNodeRef ∈ op.targetNodeRefs

/-- The match ids of a position are those of candidates with its endpoints. -/
structure PositionResolves (result : ReconciliationResult) (pair : AlignedPairFields) : Prop where
  aligned : pair.kind = .aligned → ∀ i ∈ pair.matchId, ∃ c ∈ result.matchGraph.confirmed, c.val.matchId = i ∧
    pair.sourceNodeRef = some c.val.sourceNodeRef ∧ pair.targetNodeRef = some c.val.targetNodeRef
  source : pair.kind = .unresolvedSource → ∀ i ∈ pair.ambiguousMatchIds, ∃ c ∈ result.matchGraph.ambiguous,
    c.val.matchId = i ∧ pair.sourceNodeRef = some c.val.sourceNodeRef
  target : pair.kind = .unresolvedTarget → ∀ i ∈ pair.ambiguousMatchIds, ∃ c ∈ result.matchGraph.ambiguous,
    c.val.matchId = i ∧ pair.targetNodeRef = some c.val.targetNodeRef

/-- An effect names an operation and a rule that fits it, and affects nodes of the trees. -/
structure EffectResolves (command : ReconcileTreesCommand) (result : ReconciliationResult) (effect : SuppressedEffectFields) :
    Prop where
  root : ∃ op ∈ result.operations.operations, op.val.operationId = effect.rootOperationId ∧
    effect.confidence.value = op.val.confidence.value ∧ ∃ rule ∈ command.suppressionProfile.rules,
      rule.ruleId = effect.suppressionRuleId ∧ op.val.type = rule.rootOperation ∧
      rule.threshold ≤ op.val.confidence.value
  affected : ∀ ref ∈ effect.affectedNodeRefs, ref ∈ command.sourceTree.nodes.keys ∨ ref ∈ command.targetTree.nodes.keys

structure ReferencesResolve (command : ReconcileTreesCommand) (result : ReconciliationResult) : Prop where
  operations : ∀ op ∈ result.operations.operations, OperationResolves command result op.val
  positions : ∀ region ∈ result.alignment.val.regions, ∀ pair ∈ region.val.pairs, PositionResolves result pair.val
  explanations : ∀ e ∈ result.causality.val.selected :: result.causality.val.alternatives, ∀ i ∈ e.rootOperationIds,
    ∃ op ∈ result.operations.operations, op.val.operationId = i
  effects : ∀ effect ∈ result.suppression.suppressedEffects, EffectResolves command result effect.val

/-! ## The candidates of a position -/

theorem ids_of_sourceSlot {graph : MatchGraph} {s : NodeRef} {i : String} (hi : i ∈ (sourceSlot graph s).ambiguousMatchIds) :
    ∃ c ∈ graph.ambiguous, c.val.matchId = i ∧ c.val.sourceNodeRef = s := by
  unfold sourceSlot sourcePosition at hi
  simp only at hi
  split at hi
  · obtain ⟨-, c, hc, hs, hid⟩ := mem_ambiguousIndex.mp hi
    exact ⟨c, hc, hid, hs⟩
  · cases hi

theorem ids_of_targetSlot {graph : MatchGraph} {t : NodeRef} {i : String} (hi : i ∈ (targetSlot graph t).ambiguousMatchIds) :
    ∃ c ∈ graph.ambiguous, c.val.matchId = i ∧ c.val.targetNodeRef = t := by
  unfold targetSlot targetPosition at hi
  simp only at hi
  split at hi
  · obtain ⟨-, c, hc, ht, hid⟩ := mem_ambiguousIndex.mp hi
    exact ⟨c, hc, hid, ht⟩
  · cases hi

section Runs
variable [PyRuntime] {command : ReconcileTreesCommand} {evidence : EvidenceIndex} {result : ReconciliationResult}
  (h : Admitted command) (hs : Stages command evidence result)


/-! ## Candidates and nodes -/

section Candidates
include hs

/-- A corresponding pair has a confirmed candidate, under the id of the pair. -/
theorem confirmed_candidate {s t : NodeRef} (hm : Corresponding evidence command.matchingProfile s t) :
    ∃ c ∈ result.matchGraph.confirmed, c.val.matchId = matchId s t ∧ c.val.sourceNodeRef = s ∧ c.val.targetNodeRef = t := by
  obtain ⟨c, hc, hstate, rfl, rfl⟩ := (confirmed_iff hs.matched).mpr hm
  exact ⟨c, MatchGraph.mem_confirmed.mpr ⟨hc, hstate⟩, matchId_of_candidate hs.matched hc, rfl, rfl⟩

theorem known_of_corresponding {s t : NodeRef} (hm : Corresponding evidence command.matchingProfile s t) :
    s ∈ command.sourceTree.nodes.keys ∧ t ∈ command.targetTree.nodes.keys := by
  obtain ⟨hsource, htarget⟩ := corresponding_known hs.extracted hm
  exact ⟨mem_keys_normalize.mp hsource, mem_keys_normalize.mp htarget⟩

/-- An operation about corresponding pairs, under their ids, resolves. -/
theorem pairs_resolve {op : StructuralOperationFields} (pairs : List (NodeRef × NodeRef))
    (hpairs : ∀ p ∈ pairs, Corresponding evidence command.matchingProfile p.1 p.2)
    (hsource : op.sourceNodeRefs = pairs.map Prod.fst) (htarget : op.targetNodeRefs = pairs.map Prod.snd)
    (hids : op.matchIds = pairs.map fun p => matchId p.1 p.2) : OperationResolves command result op := by
  constructor
  · intro s hin
    rw [hsource] at hin
    obtain ⟨p, hp, rfl⟩ := List.mem_map.mp hin
    exact (known_of_corresponding hs (hpairs p hp)).1
  · intro t hin
    rw [htarget] at hin
    obtain ⟨p, hp, rfl⟩ := List.mem_map.mp hin
    exact (known_of_corresponding hs (hpairs p hp)).2
  · intro i hin
    rw [hids] at hin
    obtain ⟨p, hp, rfl⟩ := List.mem_map.mp hin
    obtain ⟨c, hc, hid, h1, h2⟩ := confirmed_candidate hs (hpairs p hp)
    refine ⟨c, hc, hid, ?_, ?_⟩
    · rw [hsource, h1]
      exact List.mem_map.mpr ⟨p, hp, rfl⟩
    · rw [htarget, h2]
      exact List.mem_map.mpr ⟨p, hp, rfl⟩

end Candidates

/-! ## Operations -/

include h hs

theorem operation_resolves {op : StructuralOperation} (hop : op ∈ result.operations.operations) :
    OperationResolves command result op.val := by
  have hreported := (hs.reported h op).mp hop
  generalize op.val = x at hreported
  cases hreported with
  | @aligned s t ha hen => exact pairs_resolve hs [(s, t)] (List.forall_mem_singleton.mpr ha.1) rfl rfl rfl
  | @deleted s u ha hu hen =>
    obtain ⟨p, q, ⟨-, hp, -⟩, -, -⟩ := ha
    refine ⟨fun a hin => ?_, fun t hin => absurd hin List.not_mem_nil, fun i hin => absurd hin List.not_mem_nil⟩
    rw [List.mem_singleton.mp hin]
    exact (h.source_node evidence s).mp ((h.comparison evidence).source.node_of_parent hp)
  | @inserted t u ha hu hen =>
    obtain ⟨q, p, ⟨-, hq, -⟩, -, -⟩ := ha
    refine ⟨fun s hin => absurd hin List.not_mem_nil, fun b hin => ?_, fun i hin => absurd hin List.not_mem_nil⟩
    rw [List.mem_singleton.mp hin]
    exact (h.target_node evidence t).mp ((h.comparison evidence).target.node_of_parent hq)
  | @moved s t hm hen => exact pairs_resolve hs [(s, t)] (List.forall_mem_singleton.mpr hm.1.1) rfl rfl rfl
  | @reordered p q hpq hsh hen =>
    refine pairs_resolve hs _ (fun x hx => ?_) rfl rfl rfl
    exact (confirmed_iff hs.matched).mp (mem_matchedPairs.mp hx).2.2

/-! ## Positions -/

theorem position_resolves {region : AlignedRegion} (hregion : region ∈ result.alignment.val.regions) {pair : AlignedPair}
    (hpair : pair ∈ region.val.pairs) : PositionResolves result pair.val := by
  have hagrees := hs.agrees h
  obtain ⟨p, q, hpq, hr⟩ := region_parents hs.aligned hregion
  rcases hagrees.position_cases hr (hagrees.paired_iff.mp hpq) hpair with ⟨s, t, ha, he⟩ | ⟨s, -, he, hside⟩ | ⟨t, -, he, hside⟩
  · rw [he]
    refine ⟨fun _ i hi => ?_, fun hk => ?_, fun hk => ?_⟩
    · obtain ⟨c, hc, hid, rfl, rfl⟩ := confirmed_candidate hs ha.1
      exact ⟨c, hc, hid.trans (Option.some.inj hi), rfl, rfl⟩
    · cases hk
    · cases hk
  · refine ⟨fun hk => absurd hk hside.not_aligned, fun _ i hi => ?_, fun hk => ?_⟩
    · rw [he] at hi
      obtain ⟨c, hc, hid, rfl⟩ := ids_of_sourceSlot hi
      exact ⟨c, hc, hid, hside.kind.2⟩
    · rcases hside.kind.1 with hk' | hk'
      · exact absurd (hk.symm.trans hk') (by simp)
      · exact absurd (hk.symm.trans hk') (by simp)
  · refine ⟨fun hk => absurd hk hside.not_aligned, fun hk => ?_, fun _ i hi => ?_⟩
    · rcases hside.kind.1 with hk' | hk'
      · exact absurd (hk.symm.trans hk') (by simp)
      · exact absurd (hk.symm.trans hk') (by simp)
    · rw [he] at hi
      obtain ⟨c, hc, hid, rfl⟩ := ids_of_targetSlot hi
      exact ⟨c, hc, hid, hside.kind.2⟩

/-- A matched target of a region is a node. -/
theorem matched_known {region : AlignedRegion} (hregion : region ∈ result.alignment.val.regions) {pair : AlignedPair}
    (hpair : pair ∈ region.matched) {t : NodeRef} (ht : pair.val.targetNodeRef = some t) : t ∈ command.targetTree.nodes.keys := by
  have hagrees := hs.agrees h
  obtain ⟨p, q, hpq, hr⟩ := region_parents hs.aligned hregion
  obtain ⟨s, t', -, -, hm, hx⟩ := hagrees.matched_position hr (hagrees.paired_iff.mp hpq) hpair
  rw [hx] at ht
  obtain rfl := Option.some.inj ht
  exact (known_of_corresponding hs hm).2

/-! ## Explanations and effects -/

omit h in
theorem explanation_resolves {e : CandidateExplanation}
    (he : e ∈ result.causality.val.selected :: result.causality.val.alternatives) {i : String} (hi : i ∈ e.rootOperationIds) :
    ∃ op ∈ result.operations.operations, op.val.operationId = i := by
  have hroots : ∀ explanationId hne, i ∈ (explanation explanationId hne result.operations.operations).rootOperationIds →
      ∃ op ∈ result.operations.operations, op.val.operationId = i := by
    intro explanationId hne hin
    obtain ⟨op, hop, hid⟩ := List.mem_map.mp hin
    exact ⟨op, (List.mem_filter.mp hop).1, hid⟩
  have hval := Checked.build_ok.mp hs.analyzed
  rw [hval] at he
  rcases List.mem_cons.mp he with rfl | he
  · exact hroots _ _ hi
  · simp only at he
    split at he
    · cases he
    · rw [List.mem_singleton.mp he] at hi
      exact hroots _ _ hi

theorem effect_resolves {effect : SuppressedEffect} (heffect : effect ∈ result.suppression.suppressedEffects) :
    EffectResolves command result effect.val := by
  obtain ⟨op, hop, rule, hrule, hthreshold, counter, affected, check, haffects, hval⟩ :=
    suppress_run hs.suppressed effect heffect
  obtain ⟨hrule, htype⟩ := List.mem_filter.mp hrule
  rw [hval]
  refine ⟨⟨op, hop, rfl, rfl, rule, hrule, rfl, (of_decide_eq_true htype).symm, hthreshold⟩, fun ref href => ?_⟩
  replace href := (mem_sortedBy id).mp href
  cases haffects with
  | @below s rest _ htype hrefs hdescendants =>
    have hknown := (operation_resolves h hs hop).sources s (by rw [hrefs]; exact List.mem_cons_self)
    obtain ⟨affected', hrun, hwithin⟩ := descendants_run h.source_rooted (mem_keys_normalize.mpr hknown)
    obtain rfl := Except.ok.inj (hrun.symm.trans hdescendants)
    exact Or.inl (mem_keys_normalize.mp ((hwithin ref).mp href).mem)
  | beside htype =>
    obtain ⟨region, hregion, -, pair, hpair, ht⟩ := mem_downstreamSiblings.mp href
    exact Or.inr (matched_known h hs hregion hpair ht)

end Runs

/-- In a complete result, every node, match id, operation id and rule id resolves. -/
theorem references_resolve [PyRuntime] {command : ReconcileTreesCommand} {result : ReconciliationResult}
    (hc : Completes command result) : ReferencesResolve command result := by
  obtain ⟨h, evidence, hs⟩ := hc.exists_stages
  constructor
  · exact fun _ hop => operation_resolves h hs hop
  · exact fun _ hregion _ hpair => position_resolves h hs hregion hpair
  · exact fun _ he _ hi => explanation_resolves hs he hi
  · exact fun _ heffect => effect_resolves h hs heffect

/-- A part moves with its chapter into an appendix, one of two chapters that look the same is
    gone, and so is a note. -/
def rearrangedBook : ReconcileTreesCommand :=
  defaultCommand
    (buildTree "book" [⟨"book", "map", none, [], []⟩, ⟨"part", "part", some "book", [("id", .str "p")], []⟩,
      ⟨"setup", "topic", some "part", [("id", .str "s")], []⟩, ⟨"first", "topic", some "book", [], []⟩,
      ⟨"second", "topic", some "book", [], []⟩, ⟨"note", "note", some "book", [], []⟩])
    (buildTree "book" [⟨"book", "map", none, [], []⟩, ⟨"appendix", "appendix", some "book", [], []⟩,
      ⟨"part", "part", some "appendix", [("id", .str "p")], []⟩, ⟨"setup", "topic", some "part", [("id", .str "s")], []⟩,
      ⟨"only", "topic", some "book", [], []⟩])

theorem rearrangedBook_resolves : ∃ result, @Completes asciiRuntime rearrangedBook result ∧
    result.suppression.suppressedEffects ≠ [] ∧ result.matchGraph.ambiguous ≠ [] ∧ ReferencesResolve rearrangedBook result := by
  have hrun : Outcome.Returns (@reconcile asciiRuntime rearrangedBook) fun result => result.complete = true ∧
      result.suppression.suppressedEffects.length ≠ 0 ∧ result.matchGraph.ambiguous.length ≠ 0 := by
    decide +kernel
  obtain ⟨result, -, -, hc, ⟨heffects, hambiguous⟩, -⟩ := @exists_completes asciiRuntime _ _ hrun
  exact ⟨result, hc, List.ne_nil_of_length_pos (Nat.pos_of_ne_zero heffects),
    List.ne_nil_of_length_pos (Nat.pos_of_ne_zero hambiguous), @references_resolve asciiRuntime _ _ hc⟩

end Reconciliation.Reports
