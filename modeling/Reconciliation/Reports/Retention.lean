/-
  Reconciliation.Reports.Retention — what the effects of moves cover, and which defects stay visible.

  - A move affects all that lies below its source (`moved_affects`), so its effect covers what it
    carried along only, exactly when nothing there lost its match or has it elsewhere
    (`carried_iff`). A topic deleted from a part that moves is covered (`trimmedPart_covers_deleted`).
  - A defect is retained when it is the source of an update and lies below a moved node
    (`retained_iff`), while the effects cover the siblings of other operations as well
    (`covered_cases`). So no defect is lost exactly when none lies beside such an operation
    (`defects_iff`); one beside an insert is lost (`widenedBook_drops_update`).
-/
import Reconciliation.Reports.Cascades

namespace Reconciliation.Reports

open Reconciliation.Base Reconciliation.Contracts Reconciliation.Evidence Reconciliation.Matching
  Reconciliation.Alignment Reconciliation.Classification Reconciliation.Suppression Reconciliation.Engine
  Reconciliation.Builders Reconciliation.Validation Reconciliation.Normalization

/-! ## Effects of moves -/

/-- Every effect of a move covers nodes below the moved one whose confirmed targets it carried along. -/
def CoversCarried (command : ReconcileTreesCommand) (result : ReconciliationResult) : Prop :=
  ∀ effect ∈ result.suppression.suppressedEffects, ∃ op ∈ result.operations.operations,
    op.val.operationId = effect.val.rootOperationId ∧ (op.val.type = .move → ∃ s t, op.val.sourceNodeRefs = [s] ∧
      op.val.targetNodeRefs = [t] ∧ ∀ n ∈ effect.val.affectedNodeRefs, Descends command.sourceTree s n ∧
        ∃ m, result.matchGraph.Confirmed n m ∧ Descends command.targetTree t m)

/-- The node has no match, or one that does not lie below `t`. -/
inductive Strays (D : Comparison NodeRef NodeRef) (target : CanonicalTree) (t n : NodeRef) : Prop
  | unmatched (hno : ∀ m, ¬ D.Matched n m)
  | elsewhere {m : NodeRef} (hm : D.Matched n m) (hout : ¬ Descends target t m)

theorem not_strays_iff {D : Comparison NodeRef NodeRef} {target : CanonicalTree} {t n : NodeRef} :
    ¬ Strays D target t n ↔ ∃ m, D.Matched n m ∧ Descends target t m := by
  constructor
  · intro hno
    by_cases hm : ∃ m, D.Matched n m
    · obtain ⟨m, hm⟩ := hm
      exact ⟨m, hm, Classical.byContradiction fun hout => hno (.elsewhere hm hout)⟩
    · exact absurd (.unmatched (not_exists.mp hm)) hno
  · intro hm hstrays
    obtain ⟨m, hm, hbelow⟩ := hm
    cases hstrays with
    | unmatched hno => exact hno m hm
    | elsewhere hm' hout => exact hout (D.target_unique hm hm' ▸ hbelow)

section Moves
variable {command : ReconcileTreesCommand} {evidence : EvidenceIndex} {result : ReconciliationResult}

theorem descends_normalize {profile : NormalizationProfile} {tree : CanonicalTree} {a b : NodeRef} :
    Descends (normalizeTree tree profile) a b ↔ Descends tree a b := by
  unfold Descends
  simp only [parentOf_normalize]

variable [PyRuntime] (h : Admitted command) (hs : Stages command evidence result)

include h hs

/-- A move affects all that lies below its source. -/
theorem moved_affects {op : StructuralOperation} (hop : op ∈ result.operations.operations) {s t : NodeRef}
    (hval : op.val = moveOf (context command result) s t) : ∃ affected,
      Affects (normalizedSource command) result.alignment op affected ∧
        ∀ n, n ∈ affected ↔ Descends command.sourceTree s n := by
  have htype : op.val.type = .move := by rw [hval]; rfl
  have hreported := (hs.reported h op).mp hop
  obtain ⟨s', t', hm, -, hval'⟩ := reported_moved_iff.mp ⟨hreported, List.mem_singleton.mpr htype⟩
  obtain rfl : s = s' :=
    List.singleton_inj.mp (congrArg StructuralOperationFields.sourceNodeRefs (hval.symm.trans hval'))
  obtain ⟨affected, hrun, hmem⟩ := descendants_run h.source_rooted (corresponding_known hs.extracted hm.1.1).1
  exact ⟨affected, .below htype (by rw [hval]; rfl) hrun, fun n => (hmem n).trans descends_normalize⟩

/-- Moves of a run with one id are of one pair. -/
theorem same_move {op op' : StructuralOperation} (hop : op ∈ result.operations.operations)
    (hop' : op' ∈ result.operations.operations) (hid : op'.val.operationId = op.val.operationId) {s t : NodeRef}
    (hval : op.val = moveOf (context command result) s t) : op'.val = moveOf (context command result) s t := by
  have htype : op.val.type = .move := by rw [hval]; rfl
  have htype' := (same_type h hs hop hop' hid).trans htype
  obtain ⟨s₁, t₁, hm₁, -, hval₁⟩ :=
    reported_moved_iff.mp ⟨(hs.reported h op).mp hop, List.mem_singleton.mpr htype⟩
  obtain ⟨s₂, t₂, hm₂, -, hval₂⟩ :=
    reported_moved_iff.mp ⟨(hs.reported h op').mp hop', List.mem_singleton.mpr htype'⟩
  rw [hval₁, hval₂, moveOf_id, moveOf_id, String.append_right_inj] at hid
  obtain ⟨rfl, rfl⟩ := (hs.agrees h).arrow_inj (Or.inr hm₂.1.1) (Or.inr hm₁.1.1) hid
  rw [hval₂, ← hval₁, hval]

end Moves

/-- The effects of moves cover what these carried along only, exactly when nothing below a moved
    node strays. -/
theorem carried_iff [PyRuntime] {command : ReconcileTreesCommand} {evidence : EvidenceIndex} {result : ReconciliationResult}
    (hc : Completes command result) (h : Admitted command)
    (he : extract (normalizedSource command) (normalizedTarget command) = .ok evidence) :
    CoversCarried command result ↔ ∀ s t, MoveCascades h evidence s t → ∀ n, Descends command.sourceTree s n →
      ¬ Strays (h.comparison evidence) command.targetTree t n := by
  have hs := stages_of_complete hc.1 hc.2 he
  constructor
  · intro hcovers s t hmove n hn
    obtain ⟨op, hop, hval, hfires⟩ := (moveCascades_iff h hs).mp hmove
    obtain ⟨affected, haffects, hmem⟩ := moved_affects h hs hop hval
    obtain ⟨effect, heffect, hroot, haffected⟩ :=
      exists_effect hs hop hfires haffects (List.ne_nil_of_mem ((hmem n).mpr hn))
    obtain ⟨op', hop', hid, hcarried⟩ := hcovers effect heffect
    have hval' := same_move h hs hop hop' (hid.trans hroot) hval
    obtain ⟨s', t', hs', ht', hcarried⟩ := hcarried (by rw [hval']; rfl)
    rw [hval'] at hs' ht'
    obtain rfl : s = s' := List.singleton_inj.mp hs'
    obtain rfl : t = t' := List.singleton_inj.mp ht'
    obtain ⟨-, m, hm, hbelow⟩ := hcarried n ((haffected n).mpr ((hmem n).mpr hn))
    exact not_strays_iff.mpr ⟨m, (confirmed_iff hs.matched).mp hm, hbelow⟩
  · intro hcarried effect heffect
    obtain ⟨op, hop, rule, hrule, hreaches, counter, affected, check, haffects, hval⟩ :=
      suppress_run hs.suppressed effect heffect
    refine ⟨op, hop, by rw [hval]; rfl, fun htype => ?_⟩
    obtain ⟨s, t, -, -, hmove⟩ :=
      reported_moved_iff.mp ⟨(hs.reported h op).mp hop, List.mem_singleton.mpr htype⟩
    obtain ⟨affected', haffects', hmem⟩ := moved_affects h hs hop hmove
    obtain rfl := haffects.unique haffects'
    refine ⟨s, t, by rw [hmove]; rfl, by rw [hmove]; rfl, fun n hn => ?_⟩
    rw [hval] at hn
    have hbelow := (hmem n).mp ((mem_sortedBy id).mp hn)
    have hcascades := (moveCascades_iff h hs).mpr ⟨op, hop, hmove, rule, hrule, hreaches⟩
    obtain ⟨m, hm, hm'⟩ := not_strays_iff.mp (hcarried s t hcascades n hbelow)
    exact ⟨hbelow, m, (confirmed_iff hs.matched).mpr hm, hm'⟩

/-- A part moves into an appendix, and loses one of its two topics. -/
def trimmedPart : ReconcileTreesCommand :=
  defaultCommand
    (buildTree "book" [⟨"book", "map", none, [], []⟩, ⟨"part", "part", some "book", [("id", .str "p")], []⟩,
      ⟨"setup", "topic", some "part", [("id", .str "s")], []⟩, ⟨"errata", "topic", some "part", [("id", .str "e")], []⟩])
    (buildTree "book" [⟨"book", "map", none, [], []⟩, ⟨"appendix", "appendix", some "book", [], []⟩,
      ⟨"part", "part", some "appendix", [("id", .str "p")], []⟩, ⟨"setup", "topic", some "part", [("id", .str "s")], []⟩])

theorem trimmedPart_carried_iff : ∃ result evidence, ∃ h : Admitted trimmedPart, @Completes asciiRuntime trimmedPart result ∧
    (∃ op ∈ result.operations.operations, op.val.type = .move) ∧ (CoversCarried trimmedPart result ↔
      ∀ s t, MoveCascades h evidence s t → ∀ n, Descends trimmedPart.sourceTree s n →
        ¬ Strays (h.comparison evidence) trimmedPart.targetTree t n) := by
  have hrun : Outcome.Returns (@reconcile asciiRuntime trimmedPart) fun result => result.complete = true ∧
      ∃ op ∈ result.operations.operations, op.val.type = .move := by
    decide +kernel
  obtain ⟨result, evidence, h, hc, hmove, he⟩ := @exists_completes asciiRuntime _ _ hrun
  exact ⟨result, evidence, h, hc, hmove, @carried_iff asciiRuntime _ _ _ hc h he⟩

/-- The effect of the move covers the topic that is deleted. -/
theorem trimmedPart_covers_deleted : Outcome.Returns (@reconcile asciiRuntime trimmedPart) fun result =>
    result.complete = true ∧ SourceIn result [.delete] "errata" ∧ (∃ effect ∈ result.suppression.suppressedEffects,
      effect.val.rootOperationId = "op:move:part->part" ∧ "errata" ∈ effect.val.affectedNodeRefs) ∧
    ¬ CoversCarried trimmedPart result := by
  have hrun : Outcome.Returns (@reconcile asciiRuntime trimmedPart) fun result => result.complete = true ∧
      SourceIn result [.delete] "errata" ∧ (∃ effect ∈ result.suppression.suppressedEffects,
        effect.val.rootOperationId = "op:move:part->part" ∧ "errata" ∈ effect.val.affectedNodeRefs) ∧
      (∀ op ∈ result.operations.operations, op.val.operationId = "op:move:part->part" → op.val.type = .move) ∧
      ∀ c ∈ result.matchGraph.candidates, c.val.sourceNodeRef ≠ "errata" := by
    decide +kernel
  obtain ⟨result, hrun, hcomplete, hdeleted, hcovered, hmove, hunmatched⟩ := hrun
  refine ⟨result, hrun, hcomplete, hdeleted, hcovered, fun hcovers => ?_⟩
  obtain ⟨effect, heffect, hroot, hn⟩ := hcovered
  obtain ⟨op, hop, hid, hcarried⟩ := hcovers effect heffect
  obtain ⟨s, t, -, -, hcarried⟩ := hcarried (hmove op hop (hid.trans hroot))
  obtain ⟨-, m, ⟨c, hc, -, hs, -⟩, -⟩ := hcarried "errata" hn
  exact hunmatched c hc hs

/-! ## Independent defects -/

/-- An updated node that some effect covers is among the retained defects. -/
def DefectsRetained (result : ReconciliationResult) : Prop :=
  ∀ op ∈ result.operations.operations, op.val.type = .update → ∀ effect ∈ result.suppression.suppressedEffects,
    (∃ ref ∈ op.val.sourceNodeRefs ++ op.val.targetNodeRefs, ref ∈ effect.val.affectedNodeRefs) →
    ∃ ref ∈ op.val.sourceNodeRefs ++ op.val.targetNodeRefs, ref ∈ result.suppression.retainedDefectNodeRefs

section Defects
variable {command : ReconcileTreesCommand} (h : Admitted command) (evidence : EvidenceIndex)

/-- An update of the pair is reported. -/
def Updates (s t : NodeRef) : Prop :=
  .update ∈ command.operationProfile.enabledOperations ∧ (h.comparison evidence).Aligned s t ∧
    contentChanged (normalizedSource command) (normalizedTarget command) s t = true

/-- The node lies below a moved one whose move has an effect. -/
def CarriedAlong (n : NodeRef) : Prop := ∃ s t, MoveCascades h evidence s t ∧ Descends command.sourceTree s n

/-- The node is an aligned sibling of what is inserted, deleted or reordered, or below what is reordered. -/
inductive Beside (n : NodeRef) : Prop
  | inserted {t q a : NodeRef} (ht : InsertCascades h evidence t) (htq : command.targetTree.parentOf t = some q)
    (hnq : command.targetTree.parentOf n = some q) (ha : (h.comparison evidence).Aligned a n)
  | deleted {s p a : NodeRef} (hd : DeleteCascades h evidence s) (hsp : command.sourceTree.parentOf s = some p)
    (hap : command.sourceTree.parentOf a = some p) (ha : (h.comparison evidence).Aligned a n)
  | reordered {p q a : NodeRef} (hr : ReorderCascades h evidence p q) (ha : (h.comparison evidence).Aligned a n)
    (hap : command.sourceTree.parentOf a = some p) (hnq : command.targetTree.parentOf n = some q)
  | under {p q c d a : NodeRef} (hr : ReorderCascades h evidence p q) (ha : (h.comparison evidence).Aligned a n)
    (hc : command.sourceTree.parentOf c = some p) (hd : command.targetTree.parentOf d = some q)
    (hm : (h.comparison evidence).Matched c d) (hac : command.sourceTree.parentOf a = some c)

end Defects

section Retained
variable [PyRuntime] {command : ReconcileTreesCommand} {evidence : EvidenceIndex} {result : ReconciliationResult}
  (h : Admitted command) (hs : Stages command evidence result)

include hs

/-- What an effect of an operation covers: the nodes the operation affects. -/
theorem covered_iff {n : NodeRef} : (∃ effect ∈ result.suppression.suppressedEffects, n ∈ effect.val.affectedNodeRefs) ↔
    ∃ op ∈ result.operations.operations, Fires command.suppressionProfile op ∧
      ∃ affected, Affects (normalizedSource command) result.alignment op affected ∧ n ∈ affected := by
  constructor
  · intro hx
    obtain ⟨effect, heffect, hn⟩ := hx
    obtain ⟨op, hop, rule, hrule, hreaches, counter, affected, check, haffects, hval⟩ :=
      suppress_run hs.suppressed effect heffect
    rw [hval] at hn
    exact ⟨op, hop, ⟨rule, hrule, hreaches⟩, affected, haffects, (mem_sortedBy id).mp hn⟩
  · intro hx
    obtain ⟨op, hop, hfires, affected, haffects, hn⟩ := hx
    obtain ⟨effect, heffect, -, hmem⟩ := exists_effect hs hop hfires haffects (List.ne_nil_of_mem hn)
    exact ⟨effect, heffect, (hmem n).mpr hn⟩

include h

theorem carriedAlong_iff {n : NodeRef} : CarriedAlong h evidence n ↔ ∃ op ∈ result.operations.operations,
    op.val.type = .move ∧ Fires command.suppressionProfile op ∧
      ∃ affected, Affects (normalizedSource command) result.alignment op affected ∧ n ∈ affected := by
  constructor
  · intro hx
    obtain ⟨s, t, hmove, hn⟩ := hx
    obtain ⟨op, hop, hval, hfires⟩ := (moveCascades_iff h hs).mp hmove
    obtain ⟨affected, haffects, hmem⟩ := moved_affects h hs hop hval
    exact ⟨op, hop, by rw [hval]; rfl, hfires, affected, haffects, (hmem n).mpr hn⟩
  · intro hx
    obtain ⟨op, hop, htype, hfires, affected, haffects, hn⟩ := hx
    obtain ⟨s, t, -, -, hval⟩ := reported_moved_iff.mp ⟨(hs.reported h op).mp hop, List.mem_singleton.mpr htype⟩
    obtain ⟨affected', haffects', hmem⟩ := moved_affects h hs hop hval
    obtain rfl := haffects.unique haffects'
    exact ⟨s, t, (moveCascades_iff h hs).mpr ⟨op, hop, hval, hfires⟩, (hmem n).mp hn⟩

theorem beside_iff {n : NodeRef} : Beside h evidence n ↔ ∃ op ∈ result.operations.operations,
    op.val.type ≠ .move ∧ Fires command.suppressionProfile op ∧ n ∈ downstreamSiblings op result.alignment := by
  have hagrees := hs.agrees h
  constructor
  · intro hx
    cases hx with
    | inserted ht htq hnq ha =>
      obtain ⟨op, hop, ⟨u, hval⟩, hfires⟩ := (insertCascades_iff h hs).mp ht
      rw [← h.target_parent evidence] at htq hnq
      exact ⟨op, hop, by rw [hval]; simp [insertFields], hfires, (inserted_affects hagrees hval htq).mpr ⟨hnq, _, ha⟩⟩
    | deleted hd hsp hap ha =>
      obtain ⟨op, hop, ⟨u, hval⟩, hfires⟩ := (deleteCascades_iff h hs).mp hd
      rw [← h.source_parent evidence] at hsp hap
      exact ⟨op, hop, by rw [hval]; simp [deleteFields], hfires, (deleted_affects hagrees hval hsp).mpr ⟨_, hap, ha⟩⟩
    | reordered hr ha hap hnq =>
      obtain ⟨hpq, op, hop, hval, hfires⟩ := (reorderCascades_iff h hs).mp hr
      rw [← h.source_parent evidence] at hap
      rw [← h.target_parent evidence] at hnq
      exact ⟨op, hop, by rw [hval]; simp [reorderOf], hfires,
        (reordered_affects hagrees hpq hval).mpr ⟨_, ha, Or.inl ⟨hap, hnq⟩⟩⟩
    | under hr ha hc hd hm hac =>
      obtain ⟨hpq, op, hop, hval, hfires⟩ := (reorderCascades_iff h hs).mp hr
      rw [← h.source_parent evidence] at hc hac
      rw [← h.target_parent evidence] at hd
      exact ⟨op, hop, by rw [hval]; simp [reorderOf], hfires,
        (reordered_affects hagrees hpq hval).mpr ⟨_, ha, Or.inr ⟨_, _, hc, hd, hm, hac⟩⟩⟩
  · intro hx
    obtain ⟨op, hop, hmove, hfires, hn⟩ := hx
    have hreported := (hs.reported h op).mp hop
    generalize hval : op.val = x at hreported
    cases hreported with
    | @inserted t u ha hu hen =>
      have ht := (insertCascades_iff h hs).mpr ⟨op, hop, ⟨u, hval⟩, hfires⟩
      obtain ⟨q, p, ⟨-, htq, -⟩, -⟩ := ha
      obtain ⟨hnq, a, ha⟩ := (inserted_affects hagrees hval htq).mp hn
      exact .inserted ht ((h.target_parent evidence t).symm.trans htq) ((h.target_parent evidence n).symm.trans hnq) ha
    | @deleted s u ha hu hen =>
      have hd := (deleteCascades_iff h hs).mpr ⟨op, hop, ⟨u, hval⟩, hfires⟩
      obtain ⟨p, q, ⟨-, hsp, -⟩, -⟩ := ha
      obtain ⟨a, hap, ha⟩ := (deleted_affects hagrees hval hsp).mp hn
      exact .deleted hd ((h.source_parent evidence s).symm.trans hsp) ((h.source_parent evidence a).symm.trans hap) ha
    | @reordered p q hpq hsh hen =>
      have hr := (reorderCascades_iff h hs).mpr ⟨hpq, op, hop, hval, hfires⟩
      obtain ⟨a, ha, hplace⟩ := (reordered_affects hagrees hpq hval).mp hn
      rcases hplace with ⟨hap, hnq⟩ | ⟨c, d, hc, hd, hm, hac⟩
      · exact .reordered hr ha ((h.source_parent evidence a).symm.trans hap) ((h.target_parent evidence n).symm.trans hnq)
      · exact .under hr ha ((h.source_parent evidence c).symm.trans hc) ((h.target_parent evidence d).symm.trans hd) hm
          ((h.source_parent evidence a).symm.trans hac)
    | moved hm hen => exact absurd (congrArg StructuralOperationFields.type hval) hmove
    | @aligned s t ha hen =>
      obtain ⟨region, -, htouches, -⟩ := mem_downstreamSiblings.mp hn
      unfold touches at htouches
      rcases matchOf_kept (context command result) s t with hk | hk
      · simp [hval, hk] at htouches
      · simp [hval, hk] at htouches

/-- Some effect covers a node exactly when it lies below a moved node or beside another operation. -/
theorem covered_cases {n : NodeRef} :
    (∃ effect ∈ result.suppression.suppressedEffects, n ∈ effect.val.affectedNodeRefs) ↔
      CarriedAlong h evidence n ∨ Beside h evidence n := by
  rw [covered_iff hs, carriedAlong_iff h hs, beside_iff h hs]
  constructor
  · intro hx
    obtain ⟨op, hop, hfires, affected, haffects, hn⟩ := hx
    by_cases hmove : op.val.type = .move
    · exact Or.inl ⟨op, hop, hmove, hfires, affected, haffects, hn⟩
    · obtain rfl := haffects.unique (.beside hmove)
      exact Or.inr ⟨op, hop, hmove, hfires, hn⟩
  · intro hx
    rcases hx with ⟨op, hop, -, hfires, affected, haffects, hn⟩ | ⟨op, hop, hmove, hfires, hn⟩
    · exact ⟨op, hop, hfires, affected, haffects, hn⟩
    · exact ⟨op, hop, hfires, _, .beside hmove, hn⟩

theorem updates_iff {s t : NodeRef} : Updates h evidence s t ↔ ∃ op ∈ result.operations.operations,
    op.val.type = .update ∧ op.val.sourceNodeRefs = [s] ∧ op.val.targetNodeRefs = [t] := by
  have htype : (matchOf (context command result) s t).type = .update ↔
      contentChanged (normalizedSource command) (normalizedTarget command) s t = true := by
    rw [matchOf_type]
    show (if contentChanged (normalizedSource command) (normalizedTarget command) s t = true then _ else _) = _ ↔ _
    split <;> simp [*]
  constructor
  · intro hx
    obtain ⟨hen, ha, hchanged⟩ := hx
    obtain ⟨op, hop, hval⟩ := hs.exists_op h (.aligned ha (by rw [htype.mpr hchanged]; exact hen))
    exact ⟨op, hop, by rw [hval]; exact htype.mpr hchanged, by rw [hval]; rfl, by rw [hval]; rfl⟩
  · intro hx
    obtain ⟨op, hop, hupdate, hsource, htarget⟩ := hx
    obtain ⟨s', t', ha, hen, hval⟩ :=
      reported_kept_iff.mp ⟨(hs.reported h op).mp hop, by rw [hupdate]; decide⟩
    rw [hval] at hsource htarget
    obtain rfl : s' = s := List.singleton_inj.mp hsource
    obtain rfl : t' = t := List.singleton_inj.mp htarget
    exact ⟨hupdate ▸ hen, ha, htype.mp (hval ▸ hupdate)⟩

/-- A defect is retained exactly when it is the source of an update and lies below a moved node. -/
theorem retained_iff {n : NodeRef} : n ∈ result.suppression.retainedDefectNodeRefs ↔
    CarriedAlong h evidence n ∧ ∃ t, Updates h evidence n t := by
  have hdefects : ∀ affected, n ∈ findIndependentDefects affected result.operations ↔
      n ∈ affected ∧ ∃ t, Updates h evidence n t := by
    intro affected
    unfold findIndependentDefects
    simp only [List.mem_flatMap, List.mem_filter, decide_eq_true_eq, updates_iff h hs]
    constructor
    · intro hx
      obtain ⟨op, ⟨hop, hupdate⟩, hn, hin⟩ := hx
      obtain ⟨s, t, -, -, hval⟩ :=
        reported_kept_iff.mp ⟨(hs.reported h op).mp hop, by rw [hupdate]; decide⟩
      rw [hval] at hn
      obtain rfl := List.mem_singleton.mp hn
      exact ⟨hin, t, op, hop, hupdate, by rw [hval]; rfl, by rw [hval]; rfl⟩
    · intro hx
      obtain ⟨hin, t, op, hop, hupdate, hsource, -⟩ := hx
      exact ⟨op, ⟨hop, hupdate⟩, by rw [hsource]; exact List.mem_singleton.mpr rfl, hin⟩
  rw [suppress_retained hs.suppressed, carriedAlong_iff h hs]
  unfold RetainedFor
  simp only [hdefects]
  constructor
  · intro hx
    obtain ⟨op, hop, hmove, hfires, affected, haffects, hn, hupdate⟩ := hx
    exact ⟨⟨op, hop, hmove, hfires, affected, haffects, hn⟩, hupdate⟩
  · intro hx
    obtain ⟨⟨op, hop, hmove, hfires, affected, haffects, hn⟩, hupdate⟩ := hx
    exact ⟨op, hop, hmove, hfires, affected, haffects, hn, hupdate⟩

end Retained

/-- The defects are retained exactly when no update outside the moved subtrees has a covered node. -/
theorem defects_iff [PyRuntime] {command : ReconcileTreesCommand} {evidence : EvidenceIndex} {result : ReconciliationResult}
    (hc : Completes command result) (h : Admitted command)
    (he : extract (normalizedSource command) (normalizedTarget command) = .ok evidence) :
    DefectsRetained result ↔ ∀ s t, Updates h evidence s t → ¬ CarriedAlong h evidence s →
      (Beside h evidence s ∨ CarriedAlong h evidence t ∨ Beside h evidence t) →
      CarriedAlong h evidence t ∧ ∃ t', Updates h evidence t t' := by
  have hs := stages_of_complete hc.1 hc.2 he
  constructor
  · intro hretained s t hupdate hstays hcovered
    obtain ⟨op, hop, htype, hsource, htarget⟩ := (updates_iff h hs).mp hupdate
    have hrefs : op.val.sourceNodeRefs ++ op.val.targetNodeRefs = [s, t] := by rw [hsource, htarget]; rfl
    have hcover : ∃ ref ∈ [s, t], CarriedAlong h evidence ref ∨ Beside h evidence ref := by
      rcases hcovered with hb | hb
      · exact ⟨s, by simp, Or.inr hb⟩
      · exact ⟨t, by simp, hb⟩
    obtain ⟨ref, href, hcover⟩ := hcover
    obtain ⟨effect, heffect, hin⟩ := (covered_cases h hs).mpr hcover
    obtain ⟨n, hn, hkept⟩ := hretained op hop htype effect heffect ⟨ref, hrefs ▸ href, hin⟩
    rw [hrefs] at hn
    have hkept := (retained_iff h hs).mp hkept
    rcases List.mem_pair.mp hn with rfl | rfl
    · exact absurd hkept.1 hstays
    · exact hkept
  · intro hcond op hop htype effect heffect hcovered
    obtain ⟨s, t, -, -, hval⟩ := reported_kept_iff.mp ⟨(hs.reported h op).mp hop, by rw [htype]; decide⟩
    have hrefs : op.val.sourceNodeRefs ++ op.val.targetNodeRefs = [s, t] := by rw [hval]; rfl
    have hupdate : Updates h evidence s t :=
      (updates_iff h hs).mpr ⟨op, hop, htype, by rw [hval]; rfl, by rw [hval]; rfl⟩
    rw [hrefs] at hcovered ⊢
    by_cases hcarried : CarriedAlong h evidence s
    · exact ⟨s, by simp, (retained_iff h hs).mpr ⟨hcarried, t, hupdate⟩⟩
    · obtain ⟨ref, href, hin⟩ := hcovered
      have hcover := (covered_cases h hs).mp ⟨effect, heffect, hin⟩
      have hplace : Beside h evidence s ∨ CarriedAlong h evidence t ∨ Beside h evidence t := by
        rcases List.mem_pair.mp href with rfl | rfl
        · exact Or.inl (hcover.resolve_left hcarried)
        · exact Or.inr hcover
      exact ⟨t, by simp, (retained_iff h hs).mpr (hcond s t hupdate hcarried hplace)⟩

theorem widenedBook_defects_iff : ∃ result evidence, ∃ h : Admitted widenedBook, @Completes asciiRuntime widenedBook result ∧
    (∃ op ∈ result.operations.operations, op.val.type = .update) ∧ (DefectsRetained result ↔
      ∀ s t, Updates h evidence s t → ¬ CarriedAlong h evidence s →
        (Beside h evidence s ∨ CarriedAlong h evidence t ∨ Beside h evidence t) →
        CarriedAlong h evidence t ∧ ∃ t', Updates h evidence t t') := by
  have hrun : Outcome.Returns (@reconcile asciiRuntime widenedBook) fun result => result.complete = true ∧
      ∃ op ∈ result.operations.operations, op.val.type = .update := by
    decide +kernel
  obtain ⟨result, evidence, h, hc, hupdate, he⟩ := @exists_completes asciiRuntime _ _ hrun
  exact ⟨result, evidence, h, hc, hupdate, @defects_iff asciiRuntime _ _ _ hc h he⟩

/-- The topic with the new title is covered by the effect of the insert, and nothing is retained. -/
theorem widenedBook_drops_update : widenedBook.suppressionProfile.independentDefectCheck = true ∧
    Outcome.Returns (@reconcile asciiRuntime widenedBook) fun result => result.complete = true ∧
      (∃ op ∈ result.operations.operations, op.val.type = .update ∧ op.val.sourceNodeRefs = ["intro"] ∧
        op.val.targetNodeRefs = ["intro"]) ∧
      (∃ effect ∈ result.suppression.suppressedEffects, "intro" ∈ effect.val.affectedNodeRefs) ∧
      result.suppression.retainedDefectNodeRefs = [] ∧ ¬ DefectsRetained result := by
  have hrun : Outcome.Returns (@reconcile asciiRuntime widenedBook) fun result => result.complete = true ∧
      (∃ op ∈ result.operations.operations, op.val.type = .update ∧ op.val.sourceNodeRefs = ["intro"] ∧
        op.val.targetNodeRefs = ["intro"]) ∧
      (∃ effect ∈ result.suppression.suppressedEffects, "intro" ∈ effect.val.affectedNodeRefs) ∧
      result.suppression.retainedDefectNodeRefs = [] := by
    decide +kernel
  obtain ⟨result, hrun, hcomplete, hupdate, hcovered, hnone⟩ := hrun
  refine ⟨rfl, result, hrun, hcomplete, hupdate, hcovered, hnone, fun hretained => ?_⟩
  obtain ⟨op, hop, htype, hsource, -⟩ := hupdate
  obtain ⟨effect, heffect, hin⟩ := hcovered
  obtain ⟨ref, -, hkept⟩ := hretained op hop htype effect heffect ⟨"intro", by simp [hsource], hin⟩
  rw [hnone] at hkept
  cases hkept

end Reconciliation.Reports
