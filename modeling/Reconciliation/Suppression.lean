/-
  Reconciliation.Suppression — the effects that follow from an operation, kept apart for
  audit, and the defects inside them that stay visible.

  A rule fires for an operation of its type that reaches its threshold and affects some
  node: every effect is recorded for such an operation (`suppress_run`), and every such
  operation has an effect (`suppress_fires`); the defects retained are the updates below the
  moved nodes among them (`suppress_retained`). The walk below a moved node always ends over a
  rooted tree, and finds what lies strictly below (`descendants_run`), every effect the loop
  builds passes its validator, and so a suppression is always returned (`suppress_total`). The
  effects are numbered, so their ids are told apart (`suppress_ids`).
-/
import Reconciliation.Base.Sequence
import Reconciliation.Classification.Classifiers

namespace Reconciliation.Suppression

open Reconciliation.Base Reconciliation.Contracts Reconciliation.Classification Reconciliation.Validation

/-! ## Affected nodes -/

/-- `result.add(current)`. -/
def addRef (result : List NodeRef) (current : NodeRef) : List NodeRef :=
  if current ∈ result then result else current :: result

/-- All strict descendants, each once. -/
def descendants (tree : CanonicalTree) (nodeRef : NodeRef) : Except PyError (List NodeRef) := do
  let node ← tree.node nodeRef
  drain .diverged (fun current => (tree.node current).map fun n => n.childRefs.reverse) addRef tree.nodes.size
    node.childRefs.reverse []

/-- The affected nodes with an update of their own. -/
def findIndependentDefects (affected : List NodeRef) (operations : StructuralOperationSet) : List NodeRef :=
  (operations.operations.filter fun op => op.val.type = .update).flatMap fun op =>
    op.val.sourceNodeRefs.filter (· ∈ affected)

/-- The operation concerns the region: it inserts or deletes in it, or reorders it. -/
def touches (op : StructuralOperation) (region : AlignedRegion) : Bool :=
  match op.val.type with
  | .insert => decide (∃ ref ∈ op.val.targetNodeRefs.head?,
      ref ∈ region.val.pairs.filterMap fun p => truthy p.val.targetNodeRef)
  | .delete => decide (∃ ref ∈ op.val.sourceNodeRefs.head?,
      ref ∈ region.val.pairs.filterMap fun p => truthy p.val.sourceNodeRef)
  | .reorder =>
    decide (∃ ref ∈ region.val.sourceParentRef, ref ∈ op.val.sourceNodeRefs) ||
      region.matched.any fun p => decide (∃ ref ∈ p.val.sourceNodeRef, ref ∈ op.val.sourceNodeRefs)
  | _ => false

/-- The targets matched in the regions the operation concerns, each once. -/
def downstreamSiblings (op : StructuralOperation) (alignment : AlignmentResult) : List NodeRef :=
  (alignment.val.regions.flatMap fun region =>
    if region.matched.length < 1 then []
    else if touches op region then region.matched.filterMap (·.val.targetNodeRef) else []).dedup

/-! ## Suppressing -/

/-- What the loop carries. -/
structure Progress where
  effects : List SuppressedEffect
  retained : List NodeRef
  effectCounter : Nat

def effectFields (counter : Nat) (op : StructuralOperation) (rule : SuppressionRule) (affected : List NodeRef)
    (check : IndependentDefectCheck) : SuppressedEffectFields where
  effectId := "effect-" ++ toString counter
  rootOperationId := op.val.operationId
  suppressionRuleId := rule.ruleId
  category := rule.effectCategory
  affectedNodeRefs := sortedBy id affected
  confidence := ⟨op.val.confidence.value, false, none, op.val.confidence.range⟩
  independentDefectCheck := check

/-- Record what a rule suppresses, unless nothing is affected. -/
def record (progress : Progress) (op : StructuralOperation) (rule : SuppressionRule) (affected retained : List NodeRef)
    (check : IndependentDefectCheck) : Except PyError Progress :=
  if affected = [] then .ok progress
  else do
    let counter := progress.effectCounter + 1
    let effect ← Checked.build SuppressedEffectFields.check (effectFields counter op rule affected check)
    return ⟨progress.effects ++ [effect], progress.retained ++ retained, counter⟩

def applyRule (source : CanonicalTree) (operations : StructuralOperationSet) (alignment : AlignmentResult)
    (op : StructuralOperation) (progress : Progress) (rule : SuppressionRule) : Except PyError Progress :=
  if op.val.confidence.value < rule.threshold then .ok progress
  else if op.val.type = .move then
    match op.val.sourceNodeRefs with
    | [] => .error .indexError
    | movedSource :: _ => do
      let affected ← descendants source movedSource
      record progress op rule affected (findIndependentDefects affected operations) .passed
  else record progress op rule (downstreamSiblings op alignment) [] .notApplicable

def applyRules (source : CanonicalTree) (operations : StructuralOperationSet) (alignment : AlignmentResult)
    (profile : SuppressionProfile) (progress : Progress) (op : StructuralOperation) : Except PyError Progress :=
  (profile.rulesFor op.val.type).foldlM (applyRule source operations alignment op) progress

def suppress (source : CanonicalTree) (operations : StructuralOperationSet) (alignment : AlignmentResult)
    (profile : SuppressionProfile) : Except PyError SuppressionResult := do
  let progress ← operations.operations.foldlM (applyRules source operations alignment profile) ⟨[], [], 0⟩
  return ⟨progress.effects, sortedBy id progress.retained.dedup⟩

/-! ## When a suppression is returned -/

/-- Before the first pop below a node, its children are on the stack. -/
theorem draining_children {tree : CanonicalTree} (h : Rooted tree) {ref : NodeRef} (href : ref ∈ tree.nodes.keys)
    {stack : List NodeRef} (hperm : stack.Perm (tree.childrenOf ref)) : Draining h.forest ref [ref] stack where
  nodup := by
    rw [List.singleton_append, List.nodup_cons]
    refine ⟨fun hin => ?_, hperm.nodup_iff.mpr (Rooted.children_nodup tree)⟩
    exact Forest.not_below_child (F := h.forest) href .refl (hperm.mem_iff.mp hin)
  below := by
    intro a ha
    rcases List.mem_cons.mp ha with rfl | ha
    · exact .refl
    · exact Forest.Below.refl.step (hperm.mem_iff.mp ha)
  parent_popped := by
    intro a ha hne
    rcases List.mem_cons.mp ha with rfl | ha
    · exact absurd rfl hne
    · exact ⟨ref, by simp, h.parent_of_child ref href a (hperm.mem_iff.mp ha)⟩

theorem mem_foldl_addRef {visited : List NodeRef} {result : List NodeRef} {ref : NodeRef} :
    ref ∈ visited.foldl addRef result ↔ ref ∈ result ∨ ref ∈ visited := by
  induction visited generalizing result with
  | nil => simp
  | cons current visited ih =>
    rw [List.foldl_cons, ih, List.mem_cons, ← or_assoc]
    refine or_congr_left ?_
    unfold addRef
    split
    · rename_i hin
      exact ⟨Or.inl, fun h => h.elim id fun he => he ▸ hin⟩
    · rw [List.mem_cons, or_comm]

/-- `b` lies strictly below `a`. -/
def Descends (tree : CanonicalTree) (a b : NodeRef) : Prop :=
  Relation.TransGen (fun p c => tree.parentOf c = some p) a b

theorem Descends.mem {tree : CanonicalTree} {a b : NodeRef} (h : Descends tree a b) : b ∈ tree.nodes.keys := by
  cases h with
  | single hp => exact parentOf_mem hp
  | tail _ hp => exact parentOf_mem hp

/-- What a node opens up. -/
def opensChildren (tree : CanonicalTree) (ref : NodeRef) : Except PyError (List NodeRef) :=
  (tree.node ref).map fun n => n.childRefs.reverse

theorem opensChildren_ok {tree : CanonicalTree} {ref : NodeRef} (href : ref ∈ tree.nodes.keys) :
    opensChildren tree ref = .ok (tree.childrenOf ref).reverse := by
  obtain ⟨node, hn⟩ := tree.nodes.mem_keys.mp href
  unfold opensChildren
  rw [CanonicalTree.node_ok.mpr hn, CanonicalTree.childrenOf_eq hn]
  rfl

/-- The walk below a node ends, and pops no node twice, nor the node itself. -/
theorem descendants_visits {tree : CanonicalTree} (h : Rooted tree) {ref : NodeRef} (href : ref ∈ tree.nodes.keys) :
    ∃ visited, descendants tree ref = .ok (visited.foldl addRef []) ∧
      Trail (opensChildren tree) (tree.childrenOf ref).reverse visited ∧
      (∀ i ∈ visited, i ∈ tree.nodes.keys) ∧ (ref :: visited).Nodup := by
  obtain ⟨node, hn⟩ := tree.nodes.mem_keys.mp href
  have hopens : ∀ i, i ∈ h.forest.members → ∃ more, opensChildren tree i = .ok more ∧
      (more.map id).Perm (h.forest.children i) := by
    intro i hi
    refine ⟨_, opensChildren_ok hi, ?_⟩
    rw [List.map_id]
    exact List.reverse_perm _
  have hstart : Draining h.forest ref [ref] ((tree.childrenOf ref).reverse.map id) := by
    rw [List.map_id]
    exact draining_children h href (List.reverse_perm _)
  have hrun : ∃ visited : List NodeRef, drain PyError.diverged (opensChildren tree) addRef tree.nodes.size
      (tree.childrenOf ref).reverse [] = .ok (visited.foldl addRef []) ∧
      Trail (opensChildren tree) (tree.childrenOf ref).reverse visited ∧ (∀ i ∈ visited, h.forest.Below ref i) ∧
      (visited.map id).Nodup ∧ ∀ i ∈ visited, i ∉ [ref] :=
    drain_visits href hopens hstart (by simp [Rooted.forest, Dict.keys, Dict.size])
  obtain ⟨visited, hdrain, htrail, hbelow, hnodup, hnew⟩ := hrun
  rw [List.map_id] at hnodup
  refine ⟨visited, ?_, htrail, fun i hi => (hbelow i hi).mem href, List.nodup_cons.mpr ⟨fun hin => hnew ref hin (by simp), hnodup⟩⟩
  unfold descendants
  rw [CanonicalTree.node_ok.mpr hn]
  rw [CanonicalTree.childrenOf_eq hn] at hdrain
  exact hdrain

/-- The walk below a node ends, and finds exactly what lies strictly below. -/
theorem descendants_run {tree : CanonicalTree} (h : Rooted tree) {ref : NodeRef} (href : ref ∈ tree.nodes.keys) :
    ∃ affected, descendants tree ref = .ok affected ∧ ∀ a, a ∈ affected ↔ Descends tree ref a := by
  obtain ⟨visited, hrun, htrail, hknown, -⟩ := descendants_visits h href
  have hchildren : ∀ {i : NodeRef}, i ∈ tree.nodes.keys → ∀ c, c ∈ (tree.childrenOf i).reverse ↔ tree.parentOf c = some i :=
    fun hi c => by rw [List.mem_reverse, h.mem_children_iff hi]
  refine ⟨visited.foldl addRef [], hrun, fun a => ?_⟩
  rw [mem_foldl_addRef, or_iff_right List.not_mem_nil]
  constructor
  · intro ha
    refine (htrail.keeps (P := fun a => a ∈ tree.nodes.keys ∧ Descends tree ref a) (fun i more hi hmore j hj => ?_)
      (fun c hc => ?_) a ha).2
    · rw [opensChildren_ok hi.1, Except.ok.injEq] at hmore
      have hp := (hchildren hi.1 j).mp (hmore ▸ hj)
      exact ⟨parentOf_mem hp, hi.2.tail hp⟩
    · have hp := (hchildren href c).mp hc
      exact ⟨parentOf_mem hp, .single hp⟩
  · intro ha
    induction ha with
    | single hp => exact htrail.starts ((hchildren href _).mpr hp)
    | tail _ hp ih =>
      obtain ⟨more, hmore, hsub⟩ := htrail.closed _ ih
      rw [opensChildren_ok (hknown _ ih), Except.ok.injEq] at hmore
      exact hsub (hmore ▸ (hchildren (hknown _ ih) _).mpr hp)

/-- Every effect the loop builds passes its validator. -/
theorem effectFields_check (counter : Nat) (op : StructuralOperation) (rule : SuppressionRule) (affected : List NodeRef)
    {check : IndependentDefectCheck} (hcheck : check ≠ .defectRetained) :
    (effectFields counter op rule affected check).check = .ok () := by
  rw [SuppressedEffect.check_ok]
  have hop : op.val.operationId ≠ "" := (StructuralOperation.check_ok.mp op.accepted).1
  have hid : "effect-" ++ toString counter ≠ "" := by simp
  exact ⟨hid, hop, rule.ruleId_ne, rule.effectCategory_ne, hcheck⟩

theorem record_total (progress : Progress) (op : StructuralOperation) (rule : SuppressionRule)
    (affected retained : List NodeRef) {check : IndependentDefectCheck} (hcheck : check ≠ .defectRetained) :
    ∃ progress', record progress op rule affected retained check = .ok progress' := by
  unfold record
  by_cases ha : affected = []
  · exact ⟨progress, if_pos ha⟩
  · obtain ⟨effect, heffect⟩ :=
      Checked.build_total (effectFields_check (progress.effectCounter + 1) op rule affected hcheck)
    exact ⟨_, by rw [if_neg ha, Outcome.bind_ok]; exact ⟨effect, heffect, rfl⟩⟩

section Total
variable {source : CanonicalTree} {operations : StructuralOperationSet} {alignment : AlignmentResult}
  {profile : SuppressionProfile}

theorem applyRule_total (hs : Rooted source) {op : StructuralOperation}
    (hmove : op.val.type = .move → ∃ s rest, op.val.sourceNodeRefs = s :: rest ∧ s ∈ source.nodes.keys)
    (rule : SuppressionRule) (progress : Progress) :
    ∃ progress', applyRule source operations alignment op progress rule = .ok progress' := by
  unfold applyRule
  by_cases hlow : op.val.confidence.value < rule.threshold
  · exact ⟨progress, if_pos hlow⟩
  · rw [if_neg hlow]
    by_cases htype : op.val.type = .move
    · obtain ⟨s, rest, hrefs, hknown⟩ := hmove htype
      obtain ⟨affected, hrun, -⟩ := descendants_run hs hknown
      simp only [htype, if_true, hrefs, hrun, bind, Except.bind]
      exact record_total progress op rule affected _ (by simp)
    · rw [if_neg htype]
      exact record_total progress op rule _ _ (by simp)

/-- A suppression is always returned. -/
theorem suppress_total (hs : Rooted source) (hmoves : ∀ op ∈ operations.operations, op.val.type = .move →
    ∃ s rest, op.val.sourceNodeRefs = s :: rest ∧ s ∈ source.nodes.keys) :
    ∃ result, suppress source operations alignment profile = .ok result := by
  obtain ⟨progress, hp⟩ := Outcome.foldlM_total (f := applyRules source operations alignment profile)
    (l := operations.operations) (fun op hop progress =>
      Outcome.foldlM_total (fun rule _ progress => applyRule_total hs (hmoves op hop) rule progress) progress) ⟨[], [], 0⟩
  exact ⟨_, by unfold suppress; rw [hp]; rfl⟩

end Total

/-! ## Where the effects come from -/

section Effects
variable {source : CanonicalTree} {operations : StructuralOperationSet} {alignment : AlignmentResult}
  {profile : SuppressionProfile}

/-- The nodes an operation affects: those below a moved node, or else the siblings in its regions. -/
inductive Affects (source : CanonicalTree) (alignment : AlignmentResult) (op : StructuralOperation) : List NodeRef → Prop
  | below {s : NodeRef} {rest affected : List NodeRef} (htype : op.val.type = .move)
    (hrefs : op.val.sourceNodeRefs = s :: rest) (hrun : descendants source s = .ok affected) :
    Affects source alignment op affected
  | beside (htype : op.val.type ≠ .move) : Affects source alignment op (downstreamSiblings op alignment)

theorem Affects.unique {op : StructuralOperation} {affected affected' : List NodeRef}
    (h : Affects source alignment op affected) (h' : Affects source alignment op affected') : affected = affected' := by
  cases h with
  | below htype hrefs hrun =>
    cases h' with
    | below htype' hrefs' hrun' =>
      obtain ⟨rfl, -⟩ := List.cons.inj (hrefs.symm.trans hrefs')
      exact Except.ok.inj (hrun.symm.trans hrun')
    | beside htype' => exact absurd htype htype'
  | beside htype =>
    cases h' with
    | below htype' hrefs' hrun' => exact absurd htype' htype
    | beside htype' => rfl

/-- The effect is the one recorded for the operation under a rule of the profile it reaches. -/
def RecordedFor (source : CanonicalTree) (alignment : AlignmentResult) (profile : SuppressionProfile)
    (effect : SuppressedEffect) (op : StructuralOperation) : Prop :=
  ∃ rule ∈ profile.rulesFor op.val.type, rule.threshold ≤ op.val.confidence.value ∧
    ∃ counter affected check, Affects source alignment op affected ∧
      effect.val = effectFields counter op rule affected check

/-- A rule of the profile applies to the operation. -/
def Fires (profile : SuppressionProfile) (op : StructuralOperation) : Prop :=
  ∃ rule ∈ profile.rulesFor op.val.type, rule.threshold ≤ op.val.confidence.value

/-- An update below a moved node for which a rule applies. -/
def RetainedFor (source : CanonicalTree) (operations : StructuralOperationSet) (alignment : AlignmentResult)
    (profile : SuppressionProfile) (ref : NodeRef) : Prop :=
  ∃ op ∈ operations.operations, op.val.type = .move ∧ Fires profile op ∧
    ∃ affected, Affects source alignment op affected ∧ ref ∈ findIndependentDefects affected operations

/-- What a step adds, it keeps: the progress only grows. -/
def Extends (progress progress' : Progress) : Prop :=
  progress.effects ⊆ progress'.effects ∧ progress.retained ⊆ progress'.retained

theorem Extends.trans {p q r : Progress} (h : Extends p q) (h' : Extends q r) : Extends p r :=
  ⟨List.Subset.trans h.1 h'.1, List.Subset.trans h.2 h'.2⟩

/-- What recording does. -/
theorem record_cases {progress progress' : Progress} {op : StructuralOperation} {rule : SuppressionRule}
    {affected retained : List NodeRef} {check : IndependentDefectCheck}
    (h : record progress op rule affected retained check = .ok progress') :
    (affected = [] ∧ progress' = progress) ∨
      (affected ≠ [] ∧ ∃ effect : SuppressedEffect,
        effect.val = effectFields (progress.effectCounter + 1) op rule affected check ∧
        progress' = ⟨progress.effects ++ [effect], progress.retained ++ retained, progress.effectCounter + 1⟩) := by
  unfold record at h
  by_cases ha : affected = []
  · rw [if_pos ha] at h
    cases h
    exact Or.inl ⟨ha, rfl⟩
  · rw [if_neg ha] at h
    simp only [Outcome.bind_ok, Outcome.pure_ok, Checked.build_ok] at h
    obtain ⟨built, hval, rfl⟩ := h
    exact Or.inr ⟨ha, built, hval, rfl⟩

/-- What applying a rule does: nothing when it does not reach its threshold, else it records what the
    operation affects. -/
theorem applyRule_cases {progress progress' : Progress} {op : StructuralOperation} {rule : SuppressionRule}
    (h : applyRule source operations alignment op progress rule = .ok progress') :
    (op.val.confidence.value < rule.threshold ∧ progress' = progress) ∨
      (rule.threshold ≤ op.val.confidence.value ∧ ∃ affected retained check, Affects source alignment op affected ∧
        (∀ ref, ref ∈ retained ↔ op.val.type = .move ∧ ref ∈ findIndependentDefects affected operations) ∧
        record progress op rule affected retained check = .ok progress') := by
  unfold applyRule at h
  by_cases hlow : op.val.confidence.value < rule.threshold
  · rw [if_pos hlow] at h
    cases h
    exact Or.inl ⟨hlow, rfl⟩
  rw [if_neg hlow] at h
  refine Or.inr ⟨not_lt.mp hlow, ?_⟩
  by_cases htype : op.val.type = .move
  · rw [if_pos htype] at h
    cases hrefs : op.val.sourceNodeRefs with
    | nil => simp [hrefs] at h
    | cons s rest =>
      simp only [hrefs, Outcome.bind_ok] at h
      obtain ⟨affected, hrun, h⟩ := h
      exact ⟨affected, _, _, .below htype hrefs hrun, fun ref => (and_iff_right htype).symm, h⟩
  · rw [if_neg htype] at h
    exact ⟨_, _, _, .beside htype, fun ref => by simp [htype], h⟩

theorem applyRule_extends {progress progress' : Progress} {op : StructuralOperation} {rule : SuppressionRule}
    (h : applyRule source operations alignment op progress rule = .ok progress') : Extends progress progress' := by
  rcases applyRule_cases h with ⟨-, rfl⟩ | ⟨-, affected, retained, check, -, -, hrecord⟩
  · exact ⟨List.Subset.refl _, List.Subset.refl _⟩
  · rcases record_cases hrecord with ⟨-, rfl⟩ | ⟨-, effect, -, rfl⟩
    · exact ⟨List.Subset.refl _, List.Subset.refl _⟩
    · exact ⟨List.subset_append_left _ _, List.subset_append_left _ _⟩

theorem applyRules_extends {progress progress' : Progress} {op : StructuralOperation} {rules : List SuppressionRule}
    (h : rules.foldlM (applyRule source operations alignment op) progress = .ok progress') : Extends progress progress' :=
  Outcome.foldlM_keeps (P := Extends progress) (fun _ _ _ _ hp hstep => hp.trans (applyRule_extends hstep))
    ⟨List.Subset.refl _, List.Subset.refl _⟩ h

/-- Every rule for every operation was applied, and what it added stayed. -/
theorem suppress_applied {result : SuppressionResult} (h : suppress source operations alignment profile = .ok result)
    {op : StructuralOperation} (hop : op ∈ operations.operations) {rule : SuppressionRule}
    (hrule : rule ∈ profile.rulesFor op.val.type) : ∃ progress progress' : Progress,
      applyRule source operations alignment op progress rule = .ok progress' ∧
        progress'.effects ⊆ result.suppressedEffects ∧ progress'.retained ⊆ result.retainedDefectNodeRefs := by
  unfold suppress at h
  simp only [Outcome.bind_ok, Outcome.pure_ok] at h
  obtain ⟨final, hrun, rfl⟩ := h
  obtain ⟨-, after, mid, mid', -, -, hops, hafter⟩ := Outcome.foldlM_ran hrun hop
  obtain ⟨-, rest, progress, progress', -, -, hstep, hrest⟩ := Outcome.foldlM_ran hops hrule
  have hfinal : Extends mid' final :=
    Outcome.foldlM_keeps (P := Extends mid') (fun _ _ _ _ hp hstep => hp.trans (applyRules_extends hstep))
      ⟨List.Subset.refl _, List.Subset.refl _⟩ hafter
  have hextends := (applyRules_extends hrest).trans hfinal
  refine ⟨progress, progress', hstep, hextends.1, fun ref href => ?_⟩
  exact (mem_sortedBy id).mpr (List.mem_dedup.mpr (hextends.2 href))

/-- What every applied rule keeps holds when the loop ends. -/
theorem suppress_keeps {P : Progress → Prop} (hstart : P ⟨[], [], 0⟩)
    (hstep : ∀ op ∈ operations.operations, ∀ rule ∈ profile.rulesFor op.val.type, ∀ p p', P p →
      applyRule source operations alignment op p rule = .ok p' → P p')
    {result : SuppressionResult} (h : suppress source operations alignment profile = .ok result) :
    ∃ final, P final ∧ result = ⟨final.effects, sortedBy id final.retained.dedup⟩ := by
  unfold suppress at h
  simp only [Outcome.bind_ok, Outcome.pure_ok] at h
  obtain ⟨final, hrun, rfl⟩ := h
  refine ⟨final, Outcome.foldlM_keeps (P := P) (fun op hop p p' hp hops => ?_) hstart hrun, rfl⟩
  exact Outcome.foldlM_keeps (fun rule hrule q q' hq hrules => hstep op hop rule hrule q q' hq hrules) hp hops

/-- Every suppressed effect is recorded for an operation, under a rule it reaches. -/
theorem suppress_run {result : SuppressionResult} (h : suppress source operations alignment profile = .ok result) :
    ∀ effect ∈ result.suppressedEffects, ∃ op ∈ operations.operations, RecordedFor source alignment profile effect op := by
  have hstep : ∀ op ∈ operations.operations, ∀ rule ∈ profile.rulesFor op.val.type, ∀ p p' : Progress,
      (∀ effect ∈ p.effects, ∃ op ∈ operations.operations, RecordedFor source alignment profile effect op) →
      applyRule source operations alignment op p rule = .ok p' →
      ∀ effect ∈ p'.effects, ∃ op ∈ operations.operations, RecordedFor source alignment profile effect op := by
    intro op hop rule hrule p p' hp hrun effect he
    rcases applyRule_cases hrun with ⟨-, rfl⟩ | ⟨hreaches, affected, retained, check, haffects, -, hrecord⟩
    · exact hp effect he
    · rcases record_cases hrecord with ⟨-, rfl⟩ | ⟨-, added, hval, rfl⟩
      · exact hp effect he
      · rcases List.mem_append.mp he with he | he
        · exact hp effect he
        · obtain rfl := List.mem_singleton.mp he
          exact ⟨op, hop, rule, hrule, hreaches, _, affected, check, haffects, hval⟩
  obtain ⟨final, hfinal, rfl⟩ := suppress_keeps (fun effect he => by cases he) hstep h
  exact hfinal

/-- What an operation affects is recorded, when there is a rule it reaches. -/
theorem suppress_fires {result : SuppressionResult} (h : suppress source operations alignment profile = .ok result)
    {op : StructuralOperation} (hop : op ∈ operations.operations) (hfires : Fires profile op) {affected : List NodeRef}
    (haffects : Affects source alignment op affected) (hne : affected ≠ []) : ∃ effect ∈ result.suppressedEffects,
      RecordedFor source alignment profile effect op ∧ ∀ ref, ref ∈ effect.val.affectedNodeRefs ↔ ref ∈ affected := by
  obtain ⟨rule, hrule, hreaches⟩ := hfires
  obtain ⟨progress, progress', hstep, heffects, -⟩ := suppress_applied h hop hrule
  rcases applyRule_cases hstep with ⟨hlow, -⟩ | ⟨-, affected', retained, check, haffects', -, hrecord⟩
  · exact absurd hreaches (not_le.mpr hlow)
  · obtain rfl := haffects.unique haffects'
    rcases record_cases hrecord with ⟨hnil, -⟩ | ⟨-, effect, hval, rfl⟩
    · exact absurd hnil hne
    · refine ⟨effect, heffects (List.mem_append_right _ List.mem_cons_self),
        ⟨rule, hrule, hreaches, _, affected, check, haffects, hval⟩, fun ref => ?_⟩
      rw [hval]
      exact mem_sortedBy id

/-- The retained defects are the updates below the moved nodes for which a rule applies. -/
theorem suppress_retained {result : SuppressionResult} (h : suppress source operations alignment profile = .ok result)
    {ref : NodeRef} :
    ref ∈ result.retainedDefectNodeRefs ↔ RetainedFor source operations alignment profile ref := by
  constructor
  · intro href
    have hstep : ∀ op ∈ operations.operations, ∀ rule ∈ profile.rulesFor op.val.type, ∀ p p' : Progress,
        (∀ ref ∈ p.retained, RetainedFor source operations alignment profile ref) →
        applyRule source operations alignment op p rule = .ok p' →
        ∀ ref ∈ p'.retained, RetainedFor source operations alignment profile ref := by
      intro op hop rule hrule p p' hp hrun ref href
      rcases applyRule_cases hrun with ⟨-, rfl⟩ | ⟨hreaches, affected, retained, check, haffects, hretained, hrecord⟩
      · exact hp ref href
      · rcases record_cases hrecord with ⟨-, rfl⟩ | ⟨-, added, -, rfl⟩
        · exact hp ref href
        · rcases List.mem_append.mp href with href | href
          · exact hp ref href
          · obtain ⟨hmove, hdefect⟩ := (hretained ref).mp href
            exact ⟨op, hop, hmove, ⟨rule, hrule, hreaches⟩, affected, haffects, hdefect⟩
    obtain ⟨final, hfinal, rfl⟩ := suppress_keeps (fun ref he => by cases he) hstep h
    exact hfinal ref (List.mem_dedup.mp ((mem_sortedBy id).mp href))
  · intro hop
    obtain ⟨op, hop, hmove, ⟨rule, hrule, hreaches⟩, affected, haffects, hdefect⟩ := hop
    obtain ⟨progress, progress', hstep, -, hretains⟩ := suppress_applied h hop hrule
    rcases applyRule_cases hstep with ⟨hlow, -⟩ | ⟨-, affected', retained, check, haffects', hretained, hrecord⟩
    · exact absurd hreaches (not_le.mpr hlow)
    · obtain rfl := haffects.unique haffects'
      have hin : ref ∈ retained := (hretained ref).mpr ⟨hmove, hdefect⟩
      rcases record_cases hrecord with ⟨rfl, -⟩ | ⟨-, effect, -, rfl⟩
      · simp [findIndependentDefects] at hdefect
      · exact hretains (List.mem_append_right _ hin)

/-- The effects are numbered from 1 up to the counter. -/
def Numbered (progress : Progress) : Prop := progress.effects.map (·.val.effectId) =
  (List.range progress.effectCounter).map fun i => "effect-" ++ toString (i + 1)

theorem applyRule_numbered {progress progress' : Progress} {op : StructuralOperation} {rule : SuppressionRule}
    (hnumbered : Numbered progress) (h : applyRule source operations alignment op progress rule = .ok progress') :
    Numbered progress' := by
  rcases applyRule_cases h with ⟨-, rfl⟩ | ⟨-, affected, retained, check, -, -, hrecord⟩
  · exact hnumbered
  · rcases record_cases hrecord with ⟨-, rfl⟩ | ⟨-, effect, hval, rfl⟩
    · exact hnumbered
    · unfold Numbered at hnumbered ⊢
      rw [List.map_append, hnumbered, List.range_succ, List.map_append]
      simp [hval, effectFields]

/-- No two suppressed effects share an id. -/
theorem suppress_ids {result : SuppressionResult} (h : suppress source operations alignment profile = .ok result) :
    (result.suppressedEffects.map (·.val.effectId)).Nodup := by
  obtain ⟨final, hnumbered, rfl⟩ := suppress_keeps (P := Numbered) rfl
    (fun op _ rule _ p p' hp hstep => applyRule_numbered hp hstep) h
  show (final.effects.map (·.val.effectId)).Nodup
  rw [hnumbered]
  exact numbered_nodup "effect-" final.effectCounter

theorem mem_downstreamSiblings {op : StructuralOperation} {ref : NodeRef} : ref ∈ downstreamSiblings op alignment ↔
    ∃ region ∈ alignment.val.regions, touches op region = true ∧
      ∃ pair ∈ region.matched, pair.val.targetNodeRef = some ref := by
  unfold downstreamSiblings
  rw [List.mem_dedup, List.mem_flatMap]
  refine exists_congr fun region => and_congr_right fun _ => ?_
  constructor
  · intro href
    split at href
    · cases href
    · split at href
      · rename_i htouches
        exact ⟨htouches, List.mem_filterMap.mp href⟩
      · cases href
  · intro hmatched
    obtain ⟨htouches, pair, hpair, ht⟩ := hmatched
    rw [if_neg (Nat.not_lt.mpr (List.length_pos_of_mem hpair)), if_pos htouches]
    exact List.mem_filterMap.mpr ⟨pair, hpair, ht⟩

end Effects

end Reconciliation.Suppression
