/-
  Reconciliation.Reports.SelfComparison — the report of a tree against itself.

  Whatever a tree repeats, against itself nothing is updated or reordered; a node is inserted
  or deleted only when it is ambiguous and the profile asks for presence operations all the
  same, and moved only when its parent is ambiguous (`self_comparison`). The profile that
  emits everything does report two like siblings as deleted and inserted
  (`twinTopics_deleted`).
-/
import Reconciliation.Matching.SelfMatch
import Reconciliation.Reports.Occurrences

namespace Reconciliation.Reports

open Reconciliation.Base Reconciliation.Contracts Reconciliation.Evidence Reconciliation.Alignment
  Reconciliation.Matching Reconciliation.Classification Reconciliation.Engine Reconciliation.Validation
  Reconciliation.Builders

/-- What the report of a tree against itself may hold besides matches. -/
structure SelfReport (command : ReconcileTreesCommand) (result : ReconciliationResult) : Prop where
  complete : result.complete = true
  unchanged : ∀ op ∈ result.operations.operations, op.val.type ≠ .update ∧ op.val.type ≠ .reorder
  present : ∀ op ∈ result.operations.operations, op.val.type = .delete ∨ op.val.type = .insert →
    command.operationProfile.unresolvedPresencePolicy = .emitAll ∧
      ∀ ref ∈ op.val.sourceNodeRefs ++ op.val.targetNodeRefs, result.matchGraph.Ambiguous ref ref
  moved : ∀ op ∈ result.operations.operations, op.val.type = .move → ∃ s p, op.val.sourceNodeRefs = [s] ∧
    op.val.targetNodeRefs = [s] ∧ command.sourceTree.parentOf s = some p ∧ p ≠ command.sourceTree.rootNodeRef ∧
    result.matchGraph.Ambiguous p p

/-! ## A comparison of equals -/

/-- A region whose children are all confirmed with their images keeps its order. -/
theorem orderChanged_mapped {graph : MatchGraph} {f : NodeRef → NodeRef} {children : List NodeRef}
    (hnodup : children.Nodup) (hinj : Set.InjOn f {c | c ∈ children})
    (himage : ∀ s t, graph.Confirmed s t → f s = t) : orderChanged graph children (children.map f) = false := by
  have hmapped : (children.map f).Nodup := hnodup.map_on fun a ha b hb hab => hinj ha hb hab
  rw [← Bool.not_eq_true, orderChanged_iff_inverted hnodup hmapped]
  intro h
  obtain ⟨a, a', b, b', ha, hb, hc, hc'⟩ := h
  obtain rfl := himage a b hc
  obtain rfl := himage a' b' hc'
  exact not_before_and_after hmapped (ha.map f) hb

theorem orderChanged_self {graph : MatchGraph} {children : List NodeRef} (hnodup : children.Nodup)
    (hself : ∀ s t, graph.Confirmed s t → s = t) : orderChanged graph children children = false := by
  have hmapped := orderChanged_mapped hnodup (Set.injOn_id _) hself
  rwa [List.map_id] at hmapped

/-- Both sides are one tree; a node is matched with nothing but itself, or else left open. -/
structure SelfCompared (D : Comparison NodeRef NodeRef) : Prop where
  root_eq : D.source.root = D.target.root
  parent_eq : ∀ s, D.source.parent s = D.target.parent s
  matched_eq : ∀ s t, D.Matched s t → s = t
  settled_or_open : ∀ s, D.source.Node s → D.Matched s s ∨ D.Unsettled s s

namespace SelfCompared
variable {D : Comparison NodeRef NodeRef} (hd : SelfCompared D) {p q s t : NodeRef}

include hd

theorem paired_eq (h : D.Paired p q) : p = q := by
  rcases h with ⟨rfl, rfl⟩ | hm
  · exact hd.root_eq
  · exact hd.matched_eq p q hm

/-- What is alone is open. -/
theorem open_of_alone (h : D.Alone p q s) : D.Unsettled s s := by
  obtain ⟨hpq, hp, halone⟩ := h
  refine (hd.settled_or_open s (Hierarchy.node_of_parent hp)).resolve_left (halone s ?_)
  rw [← hd.parent_eq, hp, hd.paired_eq hpq]

theorem swap : SelfCompared D.swap where
  root_eq := hd.root_eq.symm
  parent_eq s := (hd.parent_eq s).symm
  matched_eq s t h := (hd.matched_eq t s h).symm
  settled_or_open s h := by
    refine hd.settled_or_open s (h.imp (fun hroot => hroot.trans hd.root_eq.symm) fun hparent => ?_)
    obtain ⟨p, hp⟩ := hparent
    exact ⟨p, (hd.parent_eq s).trans hp⟩

/-- What is absent is open, and reported all the same. -/
theorem open_of_absent {certainty : NodeRef → NodeRef → ℚ} {profile : OperationProfile}
    (h : Absent D certainty profile s) : profile.unresolvedPresencePolicy = .emitAll ∧ D.Unsettled s s := by
  obtain ⟨p, q, halone, hwithheld, -⟩ := h
  have ho := hd.open_of_alone halone
  exact ⟨by_contra fun hpolicy => hwithheld (Or.inr ⟨hpolicy, s, ho⟩), ho⟩

/-- What crosses is below an open parent. -/
theorem open_of_crosses (h : D.Crosses s t) : s = t ∧
    ∃ p, D.source.parent s = some p ∧ p ≠ D.source.root ∧ D.Unsettled p p := by
  obtain ⟨hm, p, q, hp, hq, hpq⟩ := h
  obtain rfl := hd.matched_eq s t hm
  obtain rfl := Option.some.inj ((hp.symm.trans (hd.parent_eq s)).trans hq)
  have hroot : p ≠ D.source.root := fun h => hpq (Or.inl ⟨h, h.trans hd.root_eq⟩)
  exact ⟨rfl, p, hp, hroot, (hd.settled_or_open p (D.source.parent_node s p hp)).resolve_left fun h => hpq (Or.inr h)⟩

end SelfCompared

/-- The comparison that the evidence of one tree decides. -/
theorem selfCompared_of_same [PyRuntime] {source target : CanonicalTree} {evidence : EvidenceIndex}
    {profile : MatchingProfile} (hs : Rooted source) (ht : Rooted target) (hsame : target = source)
    (hw : Discerning profile) (he : extract source target = .ok evidence) :
    SelfCompared (Matching.comparison evidence profile hs ht) := by
  subst hsame
  constructor
  · rfl
  · exact fun s => rfl
  · exact fun s t hm => eq_of_corresponding he hw hm
  · exact fun s hnode => corresponding_or_edge he hw (hs.node_iff.mp hnode)

/-! ## The report -/

section Runs
variable [PyRuntime] {command : ReconcileTreesCommand} {evidence : EvidenceIndex} {result : ReconciliationResult}
  (h : Admitted command) (hsame : command.targetTree = command.sourceTree)
  (hw : 0 < weightFor command.matchingProfile .semanticSignature)

omit [PyRuntime] in
include hsame in
theorem normalized_same : normalizedTarget command = normalizedSource command := by
  unfold normalizedTarget normalizedSource
  rw [hsame]

include h hsame hw

theorem selfCompared (he : extract (normalizedSource command) (normalizedTarget command) = .ok evidence) :
    SelfCompared (h.comparison evidence) :=
  selfCompared_of_same h.source_rooted h.target_rooted (normalized_same hsame) (Or.inl hw) he

/-- What is reported about equal content in an equal order is no update and no reorder. -/
theorem reported_unchanged (hs : Stages command evidence result) {x : StructuralOperationFields}
    (hx : Reported (context command result) command.alignmentProfile (h.comparison evidence)
      (certainty evidence command.matchingProfile) x) : x.type ≠ .update ∧ x.type ≠ .reorder := by
  have hd := selfCompared h hsame hw hs.extracted
  cases hx with
  | @aligned s t ha hen =>
    obtain rfl := hd.matched_eq s t ha.1
    have hchanged : contentChanged (normalizedSource command) (normalizedTarget command) s s = false := by
      rw [normalized_same hsame]
      unfold contentChanged
      cases (normalizedSource command).nodes.get? s with
      | none => rfl
      | some node => simp [Properties.pyEq_refl]
    have htype : (matchOf (context command result) s s).type = .match_ := by
      rw [matchOf_type]
      exact if_neg (by rw [show (context command result).source = normalizedSource command from rfl,
        show (context command result).target = normalizedTarget command from rfl, hchanged]; simp)
    rw [htype]
    decide
  | deleted ha hu hen => simp
  | inserted ha hu hen => simp
  | moved hm hen => simp
  | @reordered p q hpq hshuffled hen =>
    obtain rfl := hd.paired_eq hpq
    have hchanged : orderChanged result.matchGraph ((normalizedSource command).childrenOf p)
        ((normalizedTarget command).childrenOf p) = true := hshuffled.2
    rw [normalized_same hsame, orderChanged_self (Rooted.children_nodup _) fun s t hc =>
      hd.matched_eq s t ((confirmed_iff hs.matched).mp hc)] at hchanged
    cases hchanged

/-- The report of a tree against itself. -/
theorem selfReport_of_stages (hs : Stages command evidence result) (hcomplete : result.complete = true) :
    SelfReport command result where
  complete := hcomplete
  unchanged := fun op hop => reported_unchanged h hsame hw hs ((hs.reported h op).mp hop)
  present := by
    intro op hop htype
    have hd := selfCompared h hsame hw hs.extracted
    have hx := (hs.reported h op).mp hop
    rcases htype with htype | htype
    · obtain ⟨s, u, ha, -, -, hval⟩ := reported_deleted_iff.mp ⟨hx, by simp [htype]⟩
      obtain ⟨hpolicy, ho⟩ := hd.open_of_absent ha
      refine ⟨hpolicy, fun ref href => (ambiguous_iff hs.matched).mpr ?_⟩
      obtain rfl : ref = s := by simpa [hval, deleteFields] using href
      exact ho
    · obtain ⟨t, u, ha, -, -, hval⟩ := reported_inserted_iff.mp ⟨hx, by simp [htype]⟩
      obtain ⟨hpolicy, ho⟩ := hd.swap.open_of_absent ha
      refine ⟨hpolicy, fun ref href => (ambiguous_iff hs.matched).mpr ?_⟩
      obtain rfl : ref = t := by simpa [hval, insertFields] using href
      exact ho
  moved := by
    intro op hop htype
    have hd := selfCompared h hsame hw hs.extracted
    obtain ⟨s, t, hm, -, hval⟩ := reported_moved_iff.mp ⟨(hs.reported h op).mp hop, by simp [htype]⟩
    obtain ⟨rfl, p, hp, hroot, ho⟩ := hd.open_of_crosses hm.1
    rw [h.source_parent] at hp
    exact ⟨s, p, by rw [hval]; rfl, by rw [hval]; rfl, hp, hroot, (ambiguous_iff hs.matched).mpr ho⟩

/-- The regions of a tree against itself are told apart by the length of their ids. -/
theorem distinctRegionIds_self (he : extract (normalizedSource command) (normalizedTarget command) = .ok evidence) :
    DistinctRegionIds (h.comparison evidence) := by
  have hd := selfCompared h hsame hw he
  intro p q p' q' hpq hpq' hid
  obtain rfl := hd.paired_eq hpq
  obtain rfl := hd.paired_eq hpq'
  have hlength : p.length = p'.length := by
    have := congrArg String.length hid
    simp only [regionIdFor, String.length_append] at this
    omega
  have hchars : ("region:" ++ p ++ "->").toList ++ p.toList = ("region:" ++ p' ++ "->").toList ++ p'.toList := by
    rw [← String.toList_append, ← String.toList_append]
    exact congrArg String.toList hid
  obtain rfl := String.toList_inj.mp (List.append_inj' hchars (by rwa [String.length_toList, String.length_toList])).2
  exact ⟨rfl, rfl⟩

/-- Against itself a tree is reported as itself: nothing is updated or reordered, presence operations
    concern ambiguous nodes only, and only if all are emitted, and moves concern children of
    ambiguous nodes only. There is a report unless a score of 0 is admissible and near to 1. -/
theorem self_comparison : (∀ result, reconcile command = .ok result → SelfReport command result) ∧
    (0 < command.matchingProfile.probableThreshold ∨ command.matchingProfile.ambiguityMargin < 1 →
      ∃ result, reconcile command = .ok result) := by
  obtain ⟨evidence, he⟩ := h.exists_evidence
  rw [reconcile_admitted h]
  constructor
  · intro result hrun
    obtain ⟨evidence', hs⟩ := runStages_stages hrun
    exact selfReport_of_stages h hsame hw hs (runStages_complete hrun)
  · intro hzero
    have he' : extract (normalizedSource command) (normalizedSource command) = .ok evidence := by
      rw [normalized_same hsame] at he
      exact he
    exact (runStages_total_iff h he).mpr ⟨supported_self he' (Or.inl hw) hzero, distinctRegionIds_self h hsame hw he⟩

end Runs

/-- Two like topics without ids, each with a part that has one. -/
def twinTopics : ReconcileTreesCommand :=
  let tree := buildTree "map" [⟨"map", "map", none, [], []⟩, ⟨"a", "topic", some "map", [], []⟩,
    ⟨"b", "topic", some "map", [], []⟩, ⟨"c", "topic", some "a", [("id", .str "i")], []⟩,
    ⟨"d", "topic", some "b", [("id", .str "j")], []⟩]
  defaultCommand tree tree

theorem twinTopics_self : Outcome.Returns (@reconcile asciiRuntime twinTopics) (SelfReport twinTopics) := by
  have hadmitted : Admitted twinTopics := ⟨by decide +kernel, by decide +kernel, by decide +kernel, by decide +kernel⟩
  obtain ⟨hreport, hreturns⟩ := @self_comparison asciiRuntime twinTopics hadmitted rfl (by decide +kernel)
  obtain ⟨result, hrun⟩ := hreturns (Or.inl (by decide +kernel))
  exact ⟨result, hrun, hreport result hrun⟩

/-- A profile that emits everything has the two like topics deleted and inserted. -/
theorem twinTopics_deleted : let command := { twinTopics with
      operationProfile := { defaultOperationProfile with unresolvedPresencePolicy := .emitAll } }
    command.targetTree = command.sourceTree ∧ 0 < weightFor command.matchingProfile .semanticSignature ∧
      AllEnabled command.operationProfile ∧ Outcome.Returns (@reconcile asciiRuntime command) fun result =>
        result.complete = true ∧ SourceIn result [.delete] "a" ∧ TargetIn result [.insert] "a" :=
  ⟨rfl, by decide +kernel, by decide, by decide +kernel⟩

end Reconciliation.Reports
