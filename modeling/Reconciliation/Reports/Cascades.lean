/-
  Reconciliation.Reports.Cascades — what the effects of inserts, deletes and reorders cover.

  - An operation has an effect when a rule of its type asks for no more than its confidence, and
    the effect covers what the operation affects (`exists_effect`).
  - The nodes affected are the aligned targets of the regions the operation touches, whatever
    their order (`inserted_affects`, `deleted_affects`), and a reorder touches the regions below
    the nodes it reorders as well (`reordered_affects`).
  - So the effects cover displaced siblings only, exactly when the aligned siblings of an inserted
    or deleted node come after it and no reordered node has aligned children (`displaced_iff`).
    A topic inserted between two others covers the first too (`widenedBook_covers_before`).
-/
import Reconciliation.Reports.Identifiers
import Reconciliation.Reports.Presence
import Reconciliation.Alignment.Partition

namespace Reconciliation.Reports

open Reconciliation.Base Reconciliation.Contracts Reconciliation.Evidence Reconciliation.Matching
  Reconciliation.Alignment Reconciliation.Classification Reconciliation.Suppression Reconciliation.Engine
  Reconciliation.Builders Reconciliation.Validation Reconciliation.Normalization

/-! ## What an operation touches -/

section Touches
variable {r : AlignedRegion} {op : StructuralOperation}

theorem truthy_eq_some {o : Option NodeRef} {ref : NodeRef} (href : ref ≠ "") :
    Classification.truthy o = some ref ↔ o = some ref := by
  unfold Classification.truthy
  rw [Option.filter_eq_some_iff]
  exact ⟨fun h => h.1, fun h => ⟨h, by simpa using href⟩⟩

theorem mem_truthy_targets {t : NodeRef} (ht : t ≠ "") :
    (t ∈ r.val.pairs.filterMap fun p => Classification.truthy p.val.targetNodeRef) ↔ t ∈ targetSide r := by
  unfold targetSide
  simp only [List.mem_filterMap, truthy_eq_some ht]

theorem mem_truthy_sources {s : NodeRef} (hs : s ≠ "") :
    (s ∈ r.val.pairs.filterMap fun p => Classification.truthy p.val.sourceNodeRef) ↔ s ∈ sourceSide r := by
  unfold sourceSide
  simp only [List.mem_filterMap, truthy_eq_some hs]

theorem touches_insert {u : Bool} {t : NodeRef} (hval : op.val = insertFields u t) (ht : t ≠ "") :
    touches op r = true ↔ t ∈ targetSide r := by
  unfold touches
  simp only [hval, insertFields, decide_eq_true_eq, List.head?_cons, Option.mem_def, Option.some.injEq, exists_eq_left']
  exact mem_truthy_targets ht

theorem touches_delete {u : Bool} {s : NodeRef} (hval : op.val = deleteFields u s) (hs : s ≠ "") :
    touches op r = true ↔ s ∈ sourceSide r := by
  unfold touches
  simp only [hval, deleteFields, decide_eq_true_eq, List.head?_cons, Option.mem_def, Option.some.injEq, exists_eq_left']
  exact mem_truthy_sources hs

theorem touches_reorder {ctx : ClassificationContext} {p q : NodeRef} (hval : op.val = reorderOf ctx p q) :
    touches op r = true ↔ (∃ c ∈ r.val.sourceParentRef, c ∈ (reorderOf ctx p q).sourceNodeRefs) ∨
      ∃ pair ∈ r.matched, ∃ c ∈ pair.val.sourceNodeRef, c ∈ (reorderOf ctx p q).sourceNodeRefs := by
  have htype : (reorderOf ctx p q).type = .reorder := rfl
  unfold touches
  rw [hval]
  simp only [htype, Bool.or_eq_true, decide_eq_true_eq, List.any_eq_true]

end Touches

/-! ## What an operation affects -/

section Affected
variable {ctx : ClassificationContext} {ap : AlignmentProfile} {D : Comparison NodeRef NodeRef}
  {certainty : NodeRef → NodeRef → ℚ} (h : Agrees ctx ap D certainty) {op : StructuralOperation} {n p q : NodeRef}

include h

/-- The siblings an operation affects are the matched children of the regions it touches. -/
theorem siblings_iff : n ∈ downstreamSiblings op ctx.alignment ↔ ∃ p q r, r ∈ ctx.alignment.val.regions ∧
    IsRegion ctx.source ctx.target ctx.graph ap p q r ∧ D.Paired p q ∧ touches op r = true ∧
      ∃ a, D.source.parent a = some p ∧ D.target.parent n = some q ∧ D.Matched a n := by
  rw [mem_downstreamSiblings]
  constructor
  · intro hn
    obtain ⟨r, hr, htouches, pair, hpair, ht⟩ := hn
    obtain ⟨p, q, hpq, hregion⟩ := region_parents h.aligned hr
    obtain ⟨a, t, ha, hq, hm, hx⟩ := h.matched_position hregion (h.paired_iff.mp hpq) hpair
    rw [hx] at ht
    obtain rfl := Option.some.inj ht
    exact ⟨p, q, r, hr, hregion, h.paired_iff.mp hpq, htouches, a, ha, hq, hm⟩
  · intro hn
    obtain ⟨p, q, r, hr, hregion, hpq, htouches, a, ha, hq, hm⟩ := hn
    obtain ⟨pair, hpair, hx⟩ := h.exists_matched hregion hpq ha hq hm
    exact ⟨r, hr, htouches, pair, hpair, by rw [hx]; rfl⟩

/-- An insert affects the aligned children of its parent, on either side of the inserted node. -/
theorem inserted_affects {u : Bool} {t : NodeRef} (hval : op.val = insertFields u t) (ht : D.target.parent t = some q) :
    n ∈ downstreamSiblings op ctx.alignment ↔ D.target.parent n = some q ∧ ∃ a, D.Aligned a n := by
  have hne : t ≠ "" := by
    rw [h.target_parent] at ht
    exact CanonicalTree.ref_ne_empty (parentOf_mem ht)
  have hside : ∀ {p q' : NodeRef} {r : AlignedRegion}, IsRegion ctx.source ctx.target ctx.graph ap p q' r →
      D.Paired p q' → (touches op r = true ↔ q' = q) := by
    intro p q' r hregion hpq
    rw [touches_insert hval hne, hregion.partitions.target_once.mem_iff, h.mem_target_children hpq, ht, Option.some.injEq]
    exact eq_comm
  rw [siblings_iff h]
  constructor
  · intro hn
    obtain ⟨p, q', r, -, hregion, hpq, htouches, a, ha, hq, hm⟩ := hn
    obtain rfl := (hside hregion hpq).mp htouches
    exact ⟨hq, a, hm, p, q', ha, hq, hpq⟩
  · intro hn
    obtain ⟨hq, a, hm, p, q', ha, hq', hpq⟩ := hn
    obtain rfl := Option.some.inj (hq'.symm.trans hq)
    obtain ⟨r, hr, hregion⟩ := exists_region h.aligned (h.paired_iff.mpr hpq)
    exact ⟨p, q', r, hr, hregion, hpq, (hside hregion hpq).mpr rfl, a, ha, hq, hm⟩

/-- A delete affects the targets aligned with the children of its parent. -/
theorem deleted_affects {u : Bool} {s : NodeRef} (hval : op.val = deleteFields u s) (hs : D.source.parent s = some p) :
    n ∈ downstreamSiblings op ctx.alignment ↔ ∃ a, D.source.parent a = some p ∧ D.Aligned a n := by
  have hne : s ≠ "" := by
    rw [h.source_parent] at hs
    exact CanonicalTree.ref_ne_empty (parentOf_mem hs)
  have hside : ∀ {p' q : NodeRef} {r : AlignedRegion}, IsRegion ctx.source ctx.target ctx.graph ap p' q r →
      D.Paired p' q → (touches op r = true ↔ p' = p) := by
    intro p' q r hregion hpq
    rw [touches_delete hval hne, hregion.partitions.source_once.mem_iff, h.mem_source_children hpq, hs, Option.some.injEq]
    exact eq_comm
  rw [siblings_iff h]
  constructor
  · intro hn
    obtain ⟨p', q, r, -, hregion, hpq, htouches, a, ha, hq, hm⟩ := hn
    obtain rfl := (hside hregion hpq).mp htouches
    exact ⟨a, ha, hm, p', q, ha, hq, hpq⟩
  · intro hn
    obtain ⟨a, ha, hm, p', q, ha', hq, hpq⟩ := hn
    obtain rfl := Option.some.inj (ha'.symm.trans ha)
    obtain ⟨r, hr, hregion⟩ := exists_region h.aligned (h.paired_iff.mpr hpq)
    exact ⟨p', q, r, hr, hregion, hpq, (hside hregion hpq).mpr rfl, a, ha, hq, hm⟩

/-- The sources of a reorder are the children matched below the two parents. -/
theorem mem_reorderOf (hpq : D.Paired p q) {c : NodeRef} : c ∈ (reorderOf ctx p q).sourceNodeRefs ↔
    D.source.parent c = some p ∧ ∃ d, D.target.parent d = some q ∧ D.Matched c d := by
  unfold reorderOf
  simp only [List.mem_map, Prod.exists, exists_and_right, exists_eq_right, mem_matchedPairs, h.mem_source_children hpq,
    h.mem_target_children hpq, h.matched_iff, exists_and_left]

/-- A reorder affects the children it reorders, and the aligned children of these. -/
theorem reordered_affects (hpq : D.Paired p q) (hval : op.val = reorderOf ctx p q) :
    n ∈ downstreamSiblings op ctx.alignment ↔ ∃ a, D.Aligned a n ∧
      ((D.source.parent a = some p ∧ D.target.parent n = some q) ∨
        ∃ c d, D.source.parent c = some p ∧ D.target.parent d = some q ∧ D.Matched c d ∧ D.source.parent a = some c) := by
  rw [siblings_iff h]
  constructor
  · intro hn
    obtain ⟨p', q', r, -, hregion, hpq', htouches, a, ha, hq, hm⟩ := hn
    refine ⟨a, ⟨hm, p', q', ha, hq, hpq'⟩, ?_⟩
    rcases (touches_reorder hval).mp htouches with ⟨c, hc, hin⟩ | ⟨pair, hpair, c, hc, hin⟩
    · rw [hregion.source_eq] at hc
      obtain rfl := Option.some.inj hc
      obtain ⟨hp, d, hd, hcd⟩ := (mem_reorderOf h hpq).mp hin
      exact Or.inr ⟨p', d, hp, hd, hcd, ha⟩
    · obtain ⟨a', t', ha', ht', hm', hx⟩ := h.matched_position hregion hpq' hpair
      rw [hx] at hc
      obtain rfl := Option.some.inj hc
      obtain ⟨hp, d, hd, hcd⟩ := (mem_reorderOf h hpq).mp hin
      obtain rfl := Option.some.inj (ha'.symm.trans hp)
      obtain rfl := D.target_unique hm' hcd
      exact Or.inl ⟨ha, hq.trans (ht'.symm.trans hd)⟩
  · intro hn
    obtain ⟨a, ⟨hm, p', q', ha, hq, hpq'⟩, hplace⟩ := hn
    obtain ⟨r, hr, hregion⟩ := exists_region h.aligned (h.paired_iff.mpr hpq')
    refine ⟨p', q', r, hr, hregion, hpq', (touches_reorder hval).mpr ?_, a, ha, hq, hm⟩
    rcases hplace with ⟨hp, hq''⟩ | ⟨c, d, hc, hd, hcd, hac⟩
    · obtain ⟨pair, hpair, hx⟩ := h.exists_matched hregion hpq' ha hq hm
      exact Or.inr ⟨pair, hpair, a, by rw [hx]; rfl, (mem_reorderOf h hpq).mpr ⟨hp, n, hq'', hm⟩⟩
    · obtain rfl := Option.some.inj (ha.symm.trans hac)
      exact Or.inl ⟨p', hregion.source_eq, (mem_reorderOf h hpq).mpr ⟨hc, d, hd, hcd⟩⟩

end Affected

/-! ## Root operations -/

section Roots
variable {command : ReconcileTreesCommand} (h : Admitted command) (evidence : EvidenceIndex)

/-- An insert of `t` is reported, and a rule applies to it. -/
def InsertCascades (t : NodeRef) : Prop :=
  .insert ∈ command.operationProfile.enabledOperations ∧ command.suppressionProfile.rulesFor .insert ≠ [] ∧
    Absent (h.comparison evidence).swap (fun b a => certainty evidence command.matchingProfile a b)
      command.operationProfile t

def DeleteCascades (s : NodeRef) : Prop :=
  .delete ∈ command.operationProfile.enabledOperations ∧ command.suppressionProfile.rulesFor .delete ≠ [] ∧
    Absent (h.comparison evidence) (certainty evidence command.matchingProfile) command.operationProfile s

def ReorderCascades (p q : NodeRef) : Prop :=
  .reorder ∈ command.operationProfile.enabledOperations ∧ command.suppressionProfile.rulesFor .reorder ≠ [] ∧
    (h.comparison evidence).Paired p q ∧ OrderInverted command evidence p q

/-- A move of `s` and `t` is reported, with the confidence that a rule asks for. -/
def MoveCascades (s t : NodeRef) : Prop :=
  .move ∈ command.operationProfile.enabledOperations ∧
    Moved (h.comparison evidence) (certainty evidence command.matchingProfile) command.operationProfile s t ∧
    ∃ rule ∈ command.suppressionProfile.rulesFor .move, rule.threshold ≤ certainty evidence command.matchingProfile s t

end Roots

section Effects
variable [PyRuntime] {command : ReconcileTreesCommand} {evidence : EvidenceIndex} {result : ReconciliationResult}

omit [PyRuntime] in
/-- An operation of full confidence reaches every threshold. -/
theorem fires_of_full {profile : SuppressionProfile} {op : StructuralOperation} (hfull : op.val.confidence.value = 1)
    (hrule : profile.rulesFor op.val.type ≠ []) : Fires profile op := by
  obtain ⟨rule, hrule⟩ := List.exists_mem_of_ne_nil _ hrule
  exact ⟨rule, hrule, hfull ▸ rule.threshold_range.2⟩

/-- What an operation affects is in an effect of it, if a rule applies. -/
theorem exists_effect (hs : Stages command evidence result) {op : StructuralOperation}
    (hop : op ∈ result.operations.operations) (hfires : Fires command.suppressionProfile op) {affected : List NodeRef}
    (haffects : Affects (normalizedSource command) result.alignment op affected) (hne : affected ≠ []) :
    ∃ effect ∈ result.suppression.suppressedEffects, effect.val.rootOperationId = op.val.operationId ∧
      ∀ n, n ∈ effect.val.affectedNodeRefs ↔ n ∈ affected := by
  obtain ⟨effect, heffect, ⟨rule, -, -, counter, affected', check, -, hval⟩, hmem⟩ :=
    suppress_fires hs.suppressed hop hfires haffects hne
  exact ⟨effect, heffect, by rw [hval]; rfl, hmem⟩

variable (h : Admitted command) (hs : Stages command evidence result)

include h hs

/-- Operations of a run with one id are of one type. -/
theorem same_type {op op' : StructuralOperation} (hop : op ∈ result.operations.operations)
    (hop' : op' ∈ result.operations.operations) (hid : op'.val.operationId = op.val.operationId) :
    op'.val.type = op.val.type :=
  ((hs.reported h op').mp hop').type_eq ((hs.reported h op).mp hop) hid

theorem insertCascades_iff {t : NodeRef} : InsertCascades h evidence t ↔ ∃ op ∈ result.operations.operations,
    (∃ u, op.val = insertFields u t) ∧ Fires command.suppressionProfile op := by
  constructor
  · intro hx
    obtain ⟨hen, hrule, habsent⟩ := hx
    classical
    obtain ⟨op, hop, hval⟩ := hs.exists_op h
      (.inserted (u := decide ((h.comparison evidence).swap.Open t)) habsent decide_eq_true_iff hen)
    exact ⟨op, hop, ⟨_, hval⟩, fires_of_full (by rw [hval]; rfl) (by rw [hval]; exact hrule)⟩
  · intro hx
    obtain ⟨op, hop, ⟨u, hval⟩, rule, hrule, -⟩ := hx
    have hreported := (hs.reported h op).mp hop
    have htype : op.val.type = .insert := by rw [hval]; rfl
    obtain ⟨t', u', habsent, -, hen, hval'⟩ := reported_inserted_iff.mp ⟨hreported, List.mem_singleton.mpr htype⟩
    obtain rfl := insertFields_id_inj (congrArg StructuralOperationFields.operationId (hval.symm.trans hval'))
    exact ⟨hen, List.ne_nil_of_mem (htype ▸ hrule), habsent⟩

theorem deleteCascades_iff {s : NodeRef} : DeleteCascades h evidence s ↔ ∃ op ∈ result.operations.operations,
    (∃ u, op.val = deleteFields u s) ∧ Fires command.suppressionProfile op := by
  constructor
  · intro hx
    obtain ⟨hen, hrule, habsent⟩ := hx
    classical
    obtain ⟨op, hop, hval⟩ := hs.exists_op h
      (.deleted (u := decide ((h.comparison evidence).Open s)) habsent decide_eq_true_iff hen)
    exact ⟨op, hop, ⟨_, hval⟩, fires_of_full (by rw [hval]; rfl) (by rw [hval]; exact hrule)⟩
  · intro hx
    obtain ⟨op, hop, ⟨u, hval⟩, rule, hrule, -⟩ := hx
    have hreported := (hs.reported h op).mp hop
    have htype : op.val.type = .delete := by rw [hval]; rfl
    obtain ⟨s', u', habsent, -, hen, hval'⟩ := reported_deleted_iff.mp ⟨hreported, List.mem_singleton.mpr htype⟩
    obtain rfl := deleteFields_id_inj (congrArg StructuralOperationFields.operationId (hval.symm.trans hval'))
    exact ⟨hen, List.ne_nil_of_mem (htype ▸ hrule), habsent⟩

theorem reorderCascades_iff {p q : NodeRef} : ReorderCascades h evidence p q ↔
    (h.comparison evidence).Paired p q ∧ ∃ op ∈ result.operations.operations,
      op.val = reorderOf (context command result) p q ∧ Fires command.suppressionProfile op := by
  unfold ReorderCascades
  rw [← shuffled_iff hs]
  constructor
  · intro hx
    obtain ⟨hen, hrule, hpq, hsh⟩ := hx
    obtain ⟨op, hop, hval⟩ := hs.exists_op h (.reordered hpq hsh hen)
    exact ⟨hpq, op, hop, hval, fires_of_full (by rw [hval]; rfl) (by rw [hval]; exact hrule)⟩
  · intro hx
    obtain ⟨hpq, op, hop, hval, rule, hrule, -⟩ := hx
    have hreported := (hs.reported h op).mp hop
    have htype : op.val.type = .reorder := by rw [hval]; rfl
    obtain ⟨p', q', hpq', hsh, hen, hval'⟩ := reported_reordered_iff.mp ⟨hreported, List.mem_singleton.mpr htype⟩
    have he := hval'.symm.trans hval
    obtain ⟨rfl, rfl⟩ := (hs.agrees h).reorderOf_unique hpq' hpq hsh
      (congrArg StructuralOperationFields.sourceNodeRefs he) (congrArg StructuralOperationFields.targetNodeRefs he)
    exact ⟨hen, List.ne_nil_of_mem (htype ▸ hrule), hpq, hsh⟩

theorem moveCascades_iff {s t : NodeRef} : MoveCascades h evidence s t ↔ ∃ op ∈ result.operations.operations,
    op.val = moveOf (context command result) s t ∧ Fires command.suppressionProfile op := by
  have hconfidence : ∀ {s t : NodeRef}, (h.comparison evidence).Matched s t →
      (moveOf (context command result) s t).confidence.value = certainty evidence command.matchingProfile s t :=
    fun hm => (hs.agrees h).confirmedConfidence_eq hm
  constructor
  · intro hx
    obtain ⟨hen, hm, rule, hrule, hreaches⟩ := hx
    obtain ⟨op, hop, hval⟩ := hs.exists_op h (.moved hm hen)
    have htype : op.val.type = .move := by rw [hval]; rfl
    exact ⟨op, hop, hval, rule, htype ▸ hrule, by rw [hval, hconfidence hm.1.1]; exact hreaches⟩
  · intro hx
    obtain ⟨op, hop, hval, rule, hrule, hreaches⟩ := hx
    have hreported := (hs.reported h op).mp hop
    have htype : op.val.type = .move := by rw [hval]; rfl
    obtain ⟨s', t', hm, hen, hval'⟩ := reported_moved_iff.mp ⟨hreported, List.mem_singleton.mpr htype⟩
    have he := hval.symm.trans hval'
    obtain rfl : s = s' := List.singleton_inj.mp (congrArg StructuralOperationFields.sourceNodeRefs he)
    obtain rfl : t = t' := List.singleton_inj.mp (congrArg StructuralOperationFields.targetNodeRefs he)
    rw [hval, hconfidence hm.1.1] at hreaches
    exact ⟨hen, hm, rule, htype ▸ hrule, hreaches⟩

end Effects

/-! ## Effects of siblings -/

/-- The operation displaces the pair of the region: an insert or a delete in the region comes before
    it, a reorder is the one of the region. -/
def Displaces (command : ReconcileTreesCommand) (op : StructuralOperationFields) (region : AlignedRegion)
    (pair : AlignedPairFields) : Prop :=
  match op.type with
  | .insert => ∃ t ∈ op.targetNodeRefs, t ∈ targetSide region ∧ ∃ q ∈ region.val.targetParentRef,
      ∃ n ∈ pair.targetNodeRef, [t, n].Sublist (command.targetTree.childrenOf q)
  | .delete => ∃ s ∈ op.sourceNodeRefs, s ∈ sourceSide region ∧ ∃ p ∈ region.val.sourceParentRef,
      ∃ a ∈ pair.sourceNodeRef, [s, a].Sublist (command.sourceTree.childrenOf p)
  | _ => region.matched.map (·.val.sourceNodeRef) = op.sourceNodeRefs.map some ∧
      region.matched.map (·.val.targetNodeRef) = op.targetNodeRefs.map some

/-- Every effect of an insert, a delete or a reorder covers aligned siblings that it displaces. -/
def CoversDisplaced (command : ReconcileTreesCommand) (result : ReconciliationResult) : Prop :=
  ∀ effect ∈ result.suppression.suppressedEffects, ∃ op ∈ result.operations.operations,
    op.val.operationId = effect.val.rootOperationId ∧ (op.val.type ∈ [OperationType.insert, .delete, .reorder] →
      ∀ n ∈ effect.val.affectedNodeRefs, ∃ region ∈ result.alignment.val.regions, ∃ pair ∈ region.matched,
        pair.val.targetNodeRef = some n ∧ Displaces command op.val region pair.val)

/-- The aligned siblings of an inserted or a deleted node come after it, and reordered nodes have no
    aligned children. -/
structure SiblingsFollow {command : ReconcileTreesCommand} (h : Admitted command) (evidence : EvidenceIndex) : Prop where
  inserted : ∀ t, InsertCascades h evidence t → ∀ q a n, command.targetTree.parentOf t = some q →
    command.targetTree.parentOf n = some q → (h.comparison evidence).Aligned a n →
    [t, n].Sublist (command.targetTree.childrenOf q)
  deleted : ∀ s, DeleteCascades h evidence s → ∀ p a n, command.sourceTree.parentOf s = some p →
    command.sourceTree.parentOf a = some p → (h.comparison evidence).Aligned a n →
    [s, a].Sublist (command.sourceTree.childrenOf p)
  reordered : ∀ p q, ReorderCascades h evidence p q → ∀ c d, command.sourceTree.parentOf c = some p →
    command.targetTree.parentOf d = some q → (h.comparison evidence).Matched c d →
    ∀ a n, command.sourceTree.parentOf a = some c → ¬ (h.comparison evidence).Aligned a n

section Siblings
variable [PyRuntime] {command : ReconcileTreesCommand} {evidence : EvidenceIndex} {result : ReconciliationResult}
  (h : Admitted command) (hs : Stages command evidence result)

include h hs

/-- A matched pair of a region stands below its parents. -/
theorem region_of_matched {region : AlignedRegion} (hr : region ∈ result.alignment.val.regions) {pair : AlignedPair}
    (hpair : pair ∈ region.matched) : ∃ p q, IsRegion (normalizedSource command) (normalizedTarget command) result.matchGraph
      command.alignmentProfile p q region ∧ (h.comparison evidence).Paired p q ∧
      ∃ a n, command.sourceTree.parentOf a = some p ∧ command.targetTree.parentOf n = some q ∧
        (h.comparison evidence).Matched a n ∧ pair.val = alignedPosition (a, n) := by
  obtain ⟨p, q, hpq, hregion⟩ := region_parents hs.aligned hr
  replace hpq := (hs.agrees h).paired_iff.mp hpq
  obtain ⟨a, n, ha, hn, hm, hx⟩ := (hs.agrees h).matched_position hregion hpq hpair
  rw [h.source_parent] at ha
  rw [h.target_parent] at hn
  exact ⟨p, q, hregion, hpq, a, n, ha, hn, hm, hx⟩

/-- An operation that affects siblings has an effect, which covers them all in their regions. -/
theorem exists_covering (hcovers : CoversDisplaced command result) {op : StructuralOperation}
    (hop : op ∈ result.operations.operations) (htype : op.val.type ∈ [OperationType.insert, .delete, .reorder])
    (hfires : Fires command.suppressionProfile op) (hne : downstreamSiblings op result.alignment ≠ []) :
    ∃ op' ∈ result.operations.operations, op'.val.operationId = op.val.operationId ∧ op'.val.type = op.val.type ∧
      ∀ a n p q, command.sourceTree.parentOf a = some p → command.targetTree.parentOf n = some q →
        (h.comparison evidence).Matched a n → n ∈ downstreamSiblings op result.alignment → ∃ region : AlignedRegion,
          IsRegion (normalizedSource command) (normalizedTarget command) result.matchGraph command.alignmentProfile p q region ∧
          (h.comparison evidence).Paired p q ∧ Displaces command op'.val region (alignedPosition (a, n)) := by
  have hmove : op.val.type ≠ .move := fun he => absurd (he ▸ htype) (by decide)
  obtain ⟨effect, heffect, hroot, hmem⟩ := exists_effect hs hop hfires (.beside hmove) hne
  obtain ⟨op', hop', hid, hdisplaced⟩ := hcovers effect heffect
  have htype' := same_type h hs hop hop' (hid.trans hroot)
  refine ⟨op', hop', hid.trans hroot, htype', fun a n p q ha hn hm haffected => ?_⟩
  obtain ⟨region, hr, pair, hpair, hpn, hd⟩ := hdisplaced (htype'.symm ▸ htype) n ((hmem n).mpr haffected)
  obtain ⟨p', q', hregion, hpq, a', n', ha', hn', hm', hx⟩ := region_of_matched h hs hr hpair
  rw [hx] at hpn hd
  obtain rfl := Option.some.inj hpn
  obtain rfl := (h.comparison evidence).source_unique hm hm'
  obtain rfl := Option.some.inj (ha.symm.trans ha')
  obtain rfl := Option.some.inj (hn.symm.trans hn')
  exact ⟨region, hregion, hpq, hd⟩

/-- An insert is followed by its aligned siblings, if the effects cover what it displaces. -/
theorem inserted_follow (hcovers : CoversDisplaced command result) {t : NodeRef} (ht : InsertCascades h evidence t)
    {q a n : NodeRef} (htq : command.targetTree.parentOf t = some q) (hnq : command.targetTree.parentOf n = some q)
    (ha : (h.comparison evidence).Aligned a n) : [t, n].Sublist (command.targetTree.childrenOf q) := by
  obtain ⟨op, hop, ⟨u, hval⟩, hfires⟩ := (insertCascades_iff h hs).mp ht
  have htype : op.val.type = .insert := by rw [hval]; rfl
  rw [← h.target_parent evidence] at htq
  have hn : n ∈ downstreamSiblings op result.alignment :=
    (inserted_affects (hs.agrees h) hval htq).mpr ⟨by rw [h.target_parent]; exact hnq, a, ha⟩
  obtain ⟨op', hop', hid, htype', hcovered⟩ :=
    exists_covering h hs hcovers hop (by rw [htype]; decide) hfires (List.ne_nil_of_mem hn)
  rw [htype] at htype'
  obtain ⟨t', u', -, -, -, hval'⟩ :=
    reported_inserted_iff.mp ⟨(hs.reported h op').mp hop', List.mem_singleton.mpr htype'⟩
  obtain rfl : t' = t := insertFields_id_inj (by rw [← hval', ← hval]; exact hid)
  obtain ⟨hm, p, q', hap, -⟩ := ha
  rw [h.source_parent] at hap
  obtain ⟨region, hregion, -, hd⟩ := hcovered a n p q hap hnq hm hn
  unfold Displaces at hd
  rw [htype'] at hd
  obtain ⟨x, hx, -, y, hy, m, hm', hsub⟩ := hd
  rw [hval'] at hx
  rw [hregion.target_eq] at hy
  obtain rfl := List.mem_singleton.mp hx
  obtain rfl := Option.some.inj hy
  obtain rfl := Option.some.inj hm'
  exact hsub

theorem deleted_follow (hcovers : CoversDisplaced command result) {s : NodeRef} (hd : DeleteCascades h evidence s)
    {p a n : NodeRef} (hsp : command.sourceTree.parentOf s = some p) (hap : command.sourceTree.parentOf a = some p)
    (ha : (h.comparison evidence).Aligned a n) : [s, a].Sublist (command.sourceTree.childrenOf p) := by
  obtain ⟨op, hop, ⟨u, hval⟩, hfires⟩ := (deleteCascades_iff h hs).mp hd
  have htype : op.val.type = .delete := by rw [hval]; rfl
  rw [← h.source_parent evidence] at hsp
  have hn : n ∈ downstreamSiblings op result.alignment :=
    (deleted_affects (hs.agrees h) hval hsp).mpr ⟨a, by rw [h.source_parent]; exact hap, ha⟩
  obtain ⟨op', hop', hid, htype', hcovered⟩ :=
    exists_covering h hs hcovers hop (by rw [htype]; decide) hfires (List.ne_nil_of_mem hn)
  rw [htype] at htype'
  obtain ⟨s', u', -, -, -, hval'⟩ :=
    reported_deleted_iff.mp ⟨(hs.reported h op').mp hop', List.mem_singleton.mpr htype'⟩
  obtain rfl : s' = s := deleteFields_id_inj (by rw [← hval', ← hval]; exact hid)
  obtain ⟨hm, p', q, -, hnq, -⟩ := ha
  rw [h.target_parent] at hnq
  obtain ⟨region, hregion, -, hd⟩ := hcovered a n p q hap hnq hm hn
  unfold Displaces at hd
  rw [htype'] at hd
  obtain ⟨x, hx, -, y, hy, b, hb, hsub⟩ := hd
  rw [hval'] at hx
  rw [hregion.source_eq] at hy
  obtain rfl := List.mem_singleton.mp hx
  obtain rfl := Option.some.inj hy
  obtain rfl := Option.some.inj hb
  exact hsub

/-- Reordered nodes have no aligned children, if the effects cover the reordered nodes only. -/
theorem reordered_leaves (hcovers : CoversDisplaced command result) {p q c d : NodeRef}
    (hreorder : ReorderCascades h evidence p q) (hc : command.sourceTree.parentOf c = some p)
    (hd : command.targetTree.parentOf d = some q) (hm : (h.comparison evidence).Matched c d) {a n : NodeRef}
    (hac : command.sourceTree.parentOf a = some c) : ¬ (h.comparison evidence).Aligned a n := by
  intro ha
  obtain ⟨hpq, op, hop, hval, hfires⟩ := (reorderCascades_iff h hs).mp hreorder
  have htype : op.val.type = .reorder := by rw [hval]; rfl
  have hc' := (h.source_parent evidence c).trans hc
  have hd' := (h.target_parent evidence d).trans hd
  have hac' := (h.source_parent evidence a).trans hac
  have hbelow : n ∈ downstreamSiblings op result.alignment :=
    (reordered_affects (hs.agrees h) hpq hval).mpr ⟨a, ha, Or.inr ⟨c, d, hc', hd', hm, hac'⟩⟩
  have hbeside : d ∈ downstreamSiblings op result.alignment :=
    (reordered_affects (hs.agrees h) hpq hval).mpr ⟨c, ⟨hm, p, q, hc', hd', hpq⟩, Or.inl ⟨hc', hd'⟩⟩
  obtain ⟨op', hop', hid, htype', hcovered⟩ :=
    exists_covering h hs hcovers hop (by rw [htype]; decide) hfires (List.ne_nil_of_mem hbelow)
  obtain ⟨han, x, y, hax, hny, hxy⟩ := ha
  obtain rfl := Option.some.inj (hax.symm.trans hac')
  obtain ⟨r, hr, -, hdr⟩ := hcovered x d p q hc hd hm hbeside
  obtain ⟨r', hr', hpq', hdr'⟩ := hcovered a n x y hac ((h.target_parent evidence n).symm.trans hny) han hbelow
  unfold Displaces at hdr hdr'
  rw [htype', htype] at hdr hdr'
  -- both nodes are matched in the region of the reordered siblings, so they have one parent
  obtain ⟨pair, hpair, hx⟩ := (hs.agrees h).exists_matched hr' hpq' hax hny han
  have hin : some a ∈ r.matched.map (·.val.sourceNodeRef) := by
    rw [hdr.1, ← hdr'.1]
    exact List.mem_map.mpr ⟨pair, hpair, by rw [hx]; rfl⟩
  obtain ⟨pair', hpair', hx'⟩ := List.mem_map.mp hin
  obtain ⟨a', n', ha', -, -, hval'⟩ := (hs.agrees h).matched_position hr hpq hpair'
  rw [hval'] at hx'
  obtain rfl := Option.some.inj hx'
  obtain rfl := Option.some.inj (hax.symm.trans ha')
  exact Hierarchy.parent_ne_self hc'

/-- Aligned nodes are a matched pair of the region of their parents. -/
theorem aligned_region {a n : NodeRef} (ha : (h.comparison evidence).Aligned a n) :
    ∃ region ∈ result.alignment.val.regions, ∃ pair ∈ region.matched, pair.val = alignedPosition (a, n) ∧
      ∃ p q, command.sourceTree.parentOf a = some p ∧ command.targetTree.parentOf n = some q ∧
        (h.comparison evidence).Paired p q ∧ IsRegion (normalizedSource command) (normalizedTarget command)
          result.matchGraph command.alignmentProfile p q region := by
  obtain ⟨hm, p, q, hap, hnq, hpq⟩ := ha
  obtain ⟨region, hr, hregion⟩ := exists_region hs.aligned ((hs.agrees h).paired_iff.mpr hpq)
  obtain ⟨pair, hpair, hx⟩ := (hs.agrees h).exists_matched hregion hpq hap hnq hm
  rw [h.source_parent] at hap
  rw [h.target_parent] at hnq
  exact ⟨region, hr, pair, hpair, hx, p, q, hap, hnq, hpq, hregion⟩

theorem insert_displaces (hfollow : SiblingsFollow h evidence) {op : StructuralOperation} {t n : NodeRef} {u : Bool}
    (hval : op.val = insertFields u t) (ht : InsertCascades h evidence t)
    (hn : n ∈ downstreamSiblings op result.alignment) : ∃ region ∈ result.alignment.val.regions,
      ∃ pair ∈ region.matched, pair.val.targetNodeRef = some n ∧ Displaces command op.val region pair.val := by
  obtain ⟨q, p, ⟨-, htq, -⟩, -⟩ := ht.2.2
  obtain ⟨hnq, a, ha⟩ := (inserted_affects (hs.agrees h) hval htq).mp hn
  replace htq : command.targetTree.parentOf t = some q := (h.target_parent evidence t).symm.trans htq
  rw [h.target_parent] at hnq
  obtain ⟨region, hr, pair, hpair, hx, p', q', -, hnq', hpq, hregion⟩ := aligned_region h hs ha
  obtain rfl := Option.some.inj (hnq'.symm.trans hnq)
  refine ⟨region, hr, pair, hpair, by rw [hx]; rfl, ?_⟩
  have hchild : t ∈ (normalizedTarget command).childrenOf q' :=
    ((hs.agrees h).mem_target_children hpq).mpr ((h.target_parent evidence t).trans htq)
  have hside : t ∈ targetSide region := hregion.partitions.target_once.mem_iff.mpr hchild
  rw [hx, hval]
  exact ⟨t, List.mem_singleton.mpr rfl, hside, q', hregion.target_eq, n, rfl, hfollow.inserted t ht q' a n htq hnq ha⟩

theorem delete_displaces (hfollow : SiblingsFollow h evidence) {op : StructuralOperation} {s n : NodeRef} {u : Bool}
    (hval : op.val = deleteFields u s) (hd : DeleteCascades h evidence s)
    (hn : n ∈ downstreamSiblings op result.alignment) : ∃ region ∈ result.alignment.val.regions,
      ∃ pair ∈ region.matched, pair.val.targetNodeRef = some n ∧ Displaces command op.val region pair.val := by
  obtain ⟨p, q, ⟨-, hsp, -⟩, -⟩ := hd.2.2
  obtain ⟨a, hap, ha⟩ := (deleted_affects (hs.agrees h) hval hsp).mp hn
  replace hsp : command.sourceTree.parentOf s = some p := (h.source_parent evidence s).symm.trans hsp
  rw [h.source_parent] at hap
  obtain ⟨region, hr, pair, hpair, hx, p', q', hap', -, hpq, hregion⟩ := aligned_region h hs ha
  obtain rfl := Option.some.inj (hap'.symm.trans hap)
  refine ⟨region, hr, pair, hpair, by rw [hx]; rfl, ?_⟩
  have hchild : s ∈ (normalizedSource command).childrenOf p' :=
    ((hs.agrees h).mem_source_children hpq).mpr ((h.source_parent evidence s).trans hsp)
  have hside : s ∈ sourceSide region := hregion.partitions.source_once.mem_iff.mpr hchild
  rw [hx, hval]
  exact ⟨s, List.mem_singleton.mpr rfl, hside, p', hregion.source_eq, a, rfl, hfollow.deleted s hd p' a n hsp hap ha⟩

theorem reorder_displaces (hfollow : SiblingsFollow h evidence) {op : StructuralOperation} {p q n : NodeRef}
    (hval : op.val = reorderOf (context command result) p q) (hreorder : ReorderCascades h evidence p q)
    (hn : n ∈ downstreamSiblings op result.alignment) : ∃ region ∈ result.alignment.val.regions,
      ∃ pair ∈ region.matched, pair.val.targetNodeRef = some n ∧ Displaces command op.val region pair.val := by
  obtain ⟨a, ha, hplace⟩ := (reordered_affects (hs.agrees h) hreorder.2.2.1 hval).mp hn
  rcases hplace with ⟨hap, hnq⟩ | ⟨c, d, hc, hd, hm, hac⟩
  · rw [h.source_parent] at hap
    rw [h.target_parent] at hnq
    obtain ⟨region, hr, pair, hpair, hx, p', q', hap', hnq', -, hregion⟩ := aligned_region h hs ha
    obtain rfl := Option.some.inj (hap'.symm.trans hap)
    obtain rfl := Option.some.inj (hnq'.symm.trans hnq)
    have hmatched := matched_eq hregion
    have hsources := congrArg (List.map AlignedPairFields.sourceNodeRef) hmatched
    have htargets := congrArg (List.map AlignedPairFields.targetNodeRef) hmatched
    rw [List.map_map, List.map_map] at hsources htargets
    refine ⟨region, hr, pair, hpair, by rw [hx]; rfl, ?_⟩
    rw [hval]
    refine ⟨hsources.trans ?_, htargets.trans ?_⟩
    · simp [reorderOf, alignedPosition, context]
    · simp [reorderOf, alignedPosition, context]
  · rw [h.source_parent] at hc hac
    rw [h.target_parent] at hd
    exact absurd ha (hfollow.reordered p q hreorder c d hc hd hm a n hac)

end Siblings

/-- The effects cover displaced siblings only, exactly when the aligned siblings of what is inserted
    or deleted come after it, and what is reordered has no aligned children. -/
theorem displaced_iff [PyRuntime] {command : ReconcileTreesCommand} {evidence : EvidenceIndex} {result : ReconciliationResult}
    (hc : Completes command result) (h : Admitted command)
    (he : extract (normalizedSource command) (normalizedTarget command) = .ok evidence) :
    CoversDisplaced command result ↔ SiblingsFollow h evidence := by
  have hs := stages_of_complete hc.1 hc.2 he
  constructor
  · intro hcovers
    constructor
    · intro t ht q a n htq hnq ha
      exact inserted_follow h hs hcovers ht htq hnq ha
    · intro s hd p a n hsp hap ha
      exact deleted_follow h hs hcovers hd hsp hap ha
    · intro p q hreorder c d hc hd hm a n hac
      exact reordered_leaves h hs hcovers hreorder hc hd hm hac
  · intro hfollow effect heffect
    obtain ⟨op, hop, rule, hrule, hreaches, counter, affected, check, haffects, hval⟩ :=
      suppress_run hs.suppressed effect heffect
    have hfires : Fires command.suppressionProfile op := ⟨rule, hrule, hreaches⟩
    refine ⟨op, hop, by rw [hval]; rfl, fun htype n hn => ?_⟩
    have hmove : op.val.type ≠ .move := fun ht => absurd (ht ▸ htype) (by decide)
    obtain rfl := haffects.unique (.beside hmove)
    rw [hval] at hn
    replace hn := (mem_sortedBy id).mp hn
    have hreported := (hs.reported h op).mp hop
    generalize hx : op.val = x at hreported htype
    cases hreported with
    | @inserted t u ha hu hen =>
      rw [← hx]
      exact insert_displaces h hs hfollow hx ((insertCascades_iff h hs).mpr ⟨op, hop, ⟨u, hx⟩, hfires⟩) hn
    | @deleted s u ha hu hen =>
      rw [← hx]
      exact delete_displaces h hs hfollow hx ((deleteCascades_iff h hs).mpr ⟨op, hop, ⟨u, hx⟩, hfires⟩) hn
    | @reordered p q hpq hsh hen =>
      rw [← hx]
      exact reorder_displaces h hs hfollow hx ((reorderCascades_iff h hs).mpr ⟨hpq, op, hop, hx, hfires⟩) hn
    | moved hm hen => exact absurd (congrArg StructuralOperationFields.type hx) hmove
    | @aligned s t ha hen =>
      rcases matchOf_kept (context command result) s t with hk | hk
      · exact absurd (hk ▸ htype) (by decide)
      · exact absurd (hk ▸ htype) (by decide)

/-- A topic gets a new title, and another one is inserted after it. -/
def widenedBook : ReconcileTreesCommand :=
  defaultCommand
    (buildTree "book" [⟨"book", "map", none, [], []⟩, ⟨"intro", "topic", some "book", [("id", .str "i")], [("title", .str "Intro")]⟩,
      ⟨"usage", "topic", some "book", [("id", .str "u")], []⟩])
    (buildTree "book" [⟨"book", "map", none, [], []⟩, ⟨"intro", "topic", some "book", [("id", .str "i")], [("title", .str "Preface")]⟩,
      ⟨"setup", "topic", some "book", [("id", .str "s")], []⟩, ⟨"usage", "topic", some "book", [("id", .str "u")], []⟩])

theorem widenedBook_displaced_iff : ∃ result evidence, ∃ h : Admitted widenedBook, @Completes asciiRuntime widenedBook result ∧
    result.suppression.suppressedEffects.length = 1 ∧ (CoversDisplaced widenedBook result ↔ SiblingsFollow h evidence) := by
  have hrun : Outcome.Returns (@reconcile asciiRuntime widenedBook) fun result => result.complete = true ∧
      result.suppression.suppressedEffects.length = 1 := by
    decide +kernel
  obtain ⟨result, evidence, h, hc, hlen, he⟩ := @exists_completes asciiRuntime _ _ hrun
  exact ⟨result, evidence, h, hc, hlen, @displaced_iff asciiRuntime _ _ _ hc h he⟩

/-- The effect of the insert covers the topic before it. -/
theorem widenedBook_covers_before : Outcome.Returns (@reconcile asciiRuntime widenedBook) fun result =>
    result.complete = true ∧ (∃ effect ∈ result.suppression.suppressedEffects,
      effect.val.rootOperationId = "op:insert:setup" ∧ "intro" ∈ effect.val.affectedNodeRefs) ∧
    ¬ CoversDisplaced widenedBook result := by
  have hrun : Outcome.Returns (@reconcile asciiRuntime widenedBook) fun result => result.complete = true ∧
      (∃ effect ∈ result.suppression.suppressedEffects,
        effect.val.rootOperationId = "op:insert:setup" ∧ "intro" ∈ effect.val.affectedNodeRefs) ∧
      (∀ op ∈ result.operations.operations, op.val.operationId = "op:insert:setup" →
        op.val.type = .insert ∧ op.val.targetNodeRefs = ["setup"]) ∧
      ∀ region ∈ result.alignment.val.regions, ∀ q ∈ region.val.targetParentRef,
        ¬ ["setup", "intro"].Sublist (widenedBook.targetTree.childrenOf q) := by
    decide +kernel
  obtain ⟨result, hrun, hcomplete, hcovered, hinsert, horder⟩ := hrun
  refine ⟨result, hrun, hcomplete, hcovered, fun hcovers => ?_⟩
  obtain ⟨effect, heffect, hroot, hn⟩ := hcovered
  obtain ⟨op, hop, hid, hdisplaced⟩ := hcovers effect heffect
  obtain ⟨htype, htargets⟩ := hinsert op hop (hid.trans hroot)
  obtain ⟨region, hr, pair, -, hpn, hd⟩ := hdisplaced (by rw [htype]; decide) "intro" hn
  unfold Displaces at hd
  rw [htype] at hd
  obtain ⟨t, ht, -, q, hq, n, hn, hsub⟩ := hd
  rw [htargets] at ht
  obtain rfl := List.mem_singleton.mp ht
  obtain rfl := Option.some.inj (hpn.symm.trans hn)
  exact horder region hr q hq hsub

end Reconciliation.Reports
