/-
  Reconciliation.Validation.TreeValidator — whole-tree and cross-profile validation.

  `validateTreeResult` collects the violations in the order of the source: per node, its
  children and its parent link, then extra roots, then containment cycles. The walk along
  the parent links always ends (`validateTree_outcome`), and the trees that pass are the
  `Rooted` ones: links resolve and agree, only the root has no parent, no parent chain is
  infinite (`validateTreeResult_nil_iff`). A rooted tree is a `Forest`, and by its parent links
  a `Hierarchy`.
-/
import Reconciliation.Base.Comparison
import Reconciliation.Contracts.Profiles

namespace Reconciliation.Validation

open Reconciliation.Base Reconciliation.Contracts

/-! ## Trees -/

def reprOption : Option NodeRef → Piece
  | some ref => .quoted ref
  | none => .text "None"

def childViolations (tree : CanonicalTree) (nodeRef childRef : NodeRef) : List TreeViolation :=
  match tree.nodes.get? childRef with
  | none =>
    [⟨"DANGLING_CHILD_REF", [.text "node ", .quoted nodeRef, .text " references unknown child ", .quoted childRef],
      some nodeRef⟩]
  | some child =>
    if child.parentRef ≠ some nodeRef then
      [⟨"PARENT_CHILD_DISAGREEMENT",
        [.text "child ", .quoted childRef, .text " of ", .quoted nodeRef, .text " does not point back to it (parent_ref=",
          reprOption child.parentRef, .text ")"],
        some childRef⟩]
    else []

def parentViolations (tree : CanonicalTree) (nodeRef : NodeRef) (node : CanonicalNode) : List TreeViolation :=
  match node.parentRef with
  | none => []
  | some parentRef =>
    match tree.nodes.get? parentRef with
    | none =>
      [⟨"DANGLING_PARENT_REF",
        [.text "node ", .quoted nodeRef, .text " references unknown parent ", .quoted parentRef], some nodeRef⟩]
    | some parent =>
      if nodeRef ∉ parent.childRefs then
        [⟨"MISSING_FROM_PARENT_CHILDREN",
          [.text "node ", .quoted nodeRef, .text " is not listed among the children of its parent ", .quoted parentRef],
          some nodeRef⟩]
      else []

def rootViolations (tree : CanonicalTree) : List TreeViolation :=
  let parentless := (tree.nodes.sorted.entries.filter fun e => e.2.parentRef = none).map Prod.fst
  (parentless.filter (· ≠ tree.rootNodeRef)).map fun ref =>
    ⟨"MULTIPLE_ROOTS", [.text "node ", .quoted ref, .text " has no parent but is not the declared root"], some ref⟩

/-- The walk from one node along its parent links. -/
def cycleViolations (tree : CanonicalTree) (nodeRef : NodeRef) : Except PyError (List TreeViolation) :=
  match chase tree.parentOf (tree.nodes.size + 1) [] (some nodeRef) with
  | none => .error .diverged
  | some false => .ok []
  | some true =>
    .ok [⟨"CONTAINMENT_CYCLE", [.text "containment cycle detected involving node ", .quoted nodeRef], some nodeRef⟩]

def detectCycles (tree : CanonicalTree) : Except PyError (List TreeViolation) := do
  let found ← tree.nodes.sorted.keys.mapM (cycleViolations tree)
  return found.flatten

def validateTreeResult (tree : CanonicalTree) : Except PyError (List TreeViolation) := do
  let links := tree.nodes.sorted.entries.flatMap fun e =>
    e.2.childRefs.flatMap (childViolations tree e.1) ++ parentViolations tree e.1 e.2
  let cycles ← detectCycles tree
  return links ++ rootViolations tree ++ cycles

def validateTree (tree : CanonicalTree) (correlationId : Option String) : Except PyError Unit := do
  match ← validateTreeResult tree with
  | [] => return ()
  | first :: rest =>
    throw (.documented (.invalidTree (.text "canonical tree failed validation: " :: first.message) correlationId
      (first :: rest)))

/-! ## Profiles -/

def validateProfiles (matching : MatchingProfile) (operation : OperationProfile) (suppression : SuppressionProfile) :
    List ProfileViolation :=
  (suppression.rules.filter fun rule => rule.rootOperation ∉ operation.enabledOperations).map (fun rule =>
    ⟨"SUPPRESSION_RULE_DISABLED_OPERATION",
      [.text "suppression rule ", .quoted rule.ruleId,
        .text (" targets operation " ++ rule.rootOperation.value ++ " which is not enabled")]⟩) ++
  (matching.featureWeights.filter fun weight => weight.feature ∉ matching.evidencePriority).map fun weight =>
    ⟨"WEIGHT_WITHOUT_PRIORITY",
      [.text ("feature weight " ++ weight.feature.value ++ " is not present in evidence_priority")]⟩

def raiseIfInvalid (violations : List ProfileViolation) (correlationId : Option String) : Except PyError Unit :=
  match violations with
  | [] => .ok ()
  | first :: rest =>
    .error (.documented (.invalidProfile (.text "profile validation failed: " :: first.message) correlationId
      (first :: rest)))

theorem raiseIfInvalid_outcome (violations : List ProfileViolation) (cid : Option String) :
    raiseIfInvalid violations cid = .ok () ∨ ∃ e, raiseIfInvalid violations cid = .error (.documented e) := by
  cases violations with
  | nil => exact Or.inl rfl
  | cons first rest => exact Or.inr ⟨_, rfl⟩

/-! ## What a valid tree is -/

/-- Links resolve and agree, only the root has no parent, and no parent chain is infinite. -/
structure Rooted (tree : CanonicalTree) : Prop where
  child_known : ∀ ref ∈ tree.nodes.keys, ∀ c ∈ tree.childrenOf ref, c ∈ tree.nodes.keys
  parent_of_child : ∀ ref ∈ tree.nodes.keys, ∀ c ∈ tree.childrenOf ref, tree.parentOf c = some ref
  child_of_parent : ∀ ref ∈ tree.nodes.keys, ∀ p, tree.parentOf ref = some p →
    p ∈ tree.nodes.keys ∧ ref ∈ tree.childrenOf p
  only_root : ∀ ref ∈ tree.nodes.keys, tree.parentOf ref = none → ref = tree.rootNodeRef
  grounded : ∀ ref ∈ tree.nodes.keys, Acc (Follows tree.parentOf) ref

section
variable {tree : CanonicalTree}

theorem parentOf_mem {ref p : NodeRef} (h : tree.parentOf ref = some p) : ref ∈ tree.nodes.keys := by
  obtain ⟨node, hn, -⟩ := Option.bind_eq_some_iff.mp h
  exact tree.nodes.mem_keys.mpr ⟨node, hn⟩

/-- The walk along the parent links is decided within its bound. -/
theorem chase_parents (tree : CanonicalTree) (ref : NodeRef) :
    ∃ back, chase tree.parentOf (tree.nodes.size + 1) [] (some ref) = some back := by
  have hsize : tree.nodes.keys.length < tree.nodes.size + 1 + ([] : List NodeRef).length := by
    simp [Dict.keys, Dict.size]
  exact chase_decides (fun a b hb => parentOf_mem hb) List.nodup_nil (by simp) hsize

theorem cycleViolations_ok (tree : CanonicalTree) (ref : NodeRef) : ∃ vs, cycleViolations tree ref = .ok vs := by
  obtain ⟨back, h⟩ := chase_parents tree ref
  unfold cycleViolations
  rw [h]
  cases back with
  | true => exact ⟨_, rfl⟩
  | false => exact ⟨_, rfl⟩

theorem detectCycles_ok (tree : CanonicalTree) : ∃ vs, detectCycles tree = .ok vs := by
  obtain ⟨found, h⟩ := Outcome.mapM_total (l := tree.nodes.sorted.keys) fun ref _ => cycleViolations_ok tree ref
  exact ⟨found.flatten, by unfold detectCycles; rw [h]; rfl⟩

theorem validateTreeResult_ok (tree : CanonicalTree) : ∃ vs, validateTreeResult tree = .ok vs := by
  obtain ⟨cycles, h⟩ := detectCycles_ok tree
  unfold validateTreeResult
  rw [h]
  exact ⟨_, rfl⟩

theorem validateTree_iff {cid : Option String} :
    validateTree tree cid = .ok () ↔ validateTreeResult tree = .ok [] := by
  obtain ⟨vs, h⟩ := validateTreeResult_ok tree
  unfold validateTree
  rw [h]
  cases vs with
  | nil => simp [bind, Except.bind, pure, Except.pure]
  | cons v vs => simp [bind, Except.bind]

/-- Validation accepts the tree or raises the documented error. -/
theorem validateTree_outcome (tree : CanonicalTree) (cid : Option String) :
    validateTree tree cid = .ok () ∨ ∃ e, validateTree tree cid = .error (.documented e) := by
  obtain ⟨vs, h⟩ := validateTreeResult_ok tree
  unfold validateTree
  rw [h]
  cases vs with
  | nil => exact Or.inl rfl
  | cons v vs => exact Or.inr ⟨_, rfl⟩

/-- The three parts of a validation without findings are empty. -/
theorem validateTreeResult_nil : validateTreeResult tree = .ok [] ↔
    (∀ e ∈ tree.nodes.entries, (∀ c ∈ e.2.childRefs, childViolations tree e.1 c = []) ∧
        parentViolations tree e.1 e.2 = []) ∧
      rootViolations tree = [] ∧ ∀ ref ∈ tree.nodes.keys, cycleViolations tree ref = .ok [] := by
  obtain ⟨cycles, hcycles⟩ := detectCycles_ok tree
  have hnone : cycles = [] ↔ ∀ ref ∈ tree.nodes.keys, cycleViolations tree ref = .ok [] := by
    unfold detectCycles at hcycles
    simp only [Outcome.bind_ok, Outcome.pure_ok] at hcycles
    obtain ⟨found, hfound, rfl⟩ := hcycles
    rw [List.flatten_eq_nil_iff]
    constructor
    · intro hall ref href
      obtain ⟨vs, hvs⟩ := cycleViolations_ok tree ref
      have hin : vs ∈ found := (Outcome.mapM_mem hfound).mpr ⟨ref, by simpa [Dict.keys] using href, hvs⟩
      rw [hvs, hall vs hin]
    · intro hall vs hvs
      obtain ⟨ref, href, hrun⟩ := (Outcome.mapM_mem hfound).mp hvs
      rw [hall ref (by simpa [Dict.keys] using href)] at hrun
      exact (Except.ok.inj hrun).symm
  unfold validateTreeResult
  simp only [hcycles, bind, Except.bind, pure, Except.pure, Except.ok.injEq, List.append_eq_nil_iff,
    List.flatMap_eq_nil_iff, Dict.mem_sorted, hnone, and_assoc]

theorem childViolations_nil {ref c : NodeRef} :
    childViolations tree ref c = [] ↔ c ∈ tree.nodes.keys ∧ tree.parentOf c = some ref := by
  unfold childViolations
  cases hc : tree.nodes.get? c with
  | none => simp [tree.nodes.mem_keys, hc]
  | some child => simp [tree.nodes.mem_keys, hc, CanonicalTree.parentOf_eq hc]

theorem parentViolations_nil {ref : NodeRef} {node : CanonicalNode} : parentViolations tree ref node = [] ↔
    ∀ p, node.parentRef = some p → p ∈ tree.nodes.keys ∧ ref ∈ tree.childrenOf p := by
  unfold parentViolations
  cases hp : node.parentRef with
  | none => simp
  | some p =>
    simp only [Option.some.injEq, forall_eq']
    cases hparent : tree.nodes.get? p with
    | none => simp [tree.nodes.mem_keys, hparent]
    | some parent => simp [tree.nodes.mem_keys, hparent, CanonicalTree.childrenOf_eq hparent]

theorem rootViolations_nil : rootViolations tree = [] ↔
    ∀ ref ∈ tree.nodes.keys, tree.parentOf ref = none → ref = tree.rootNodeRef := by
  unfold rootViolations
  simp only [List.map_eq_nil_iff, List.filter_eq_nil_iff, List.mem_map, List.mem_filter, Dict.mem_sorted]
  constructor
  · intro hroots ref href hp
    obtain ⟨node, hn⟩ := tree.nodes.mem_keys.mp href
    rw [CanonicalTree.parentOf_eq hn] at hp
    by_contra hne
    exact hroots ref ⟨(ref, node), ⟨tree.nodes.get?_eq_some.mp hn, by simp [hp]⟩, rfl⟩ (by simp [hne])
  · intro honly ref hin
    obtain ⟨⟨ref', node⟩, ⟨he, hp⟩, rfl⟩ := hin
    have hn := tree.nodes.get?_eq_some.mpr he
    have hroot := honly ref' (tree.nodes.mem_keys.mpr ⟨node, hn⟩)
      (by rw [CanonicalTree.parentOf_eq hn]; simpa using hp)
    simp [hroot]

/-- No finding on a walk: the chain of parents it follows is finite. -/
theorem cycleViolations_nil {ref : NodeRef} :
    cycleViolations tree ref = .ok [] ↔ Acc (Follows tree.parentOf) ref := by
  obtain ⟨back, h⟩ := chase_parents tree ref
  rw [← chase_ends_iff h]
  unfold cycleViolations
  rw [h]
  cases back with
  | true => simp
  | false => simp

/-- The validator finds nothing exactly in the rooted trees. -/
theorem validateTreeResult_nil_iff : validateTreeResult tree = .ok [] ↔ Rooted tree := by
  have hentry : ∀ {ref node}, tree.nodes.get? ref = some node → (ref, node) ∈ tree.nodes.entries :=
    fun hn => tree.nodes.get?_eq_some.mp hn
  simp only [validateTreeResult_nil, childViolations_nil, parentViolations_nil, rootViolations_nil,
    cycleViolations_nil]
  constructor
  · intro h
    obtain ⟨hlinks, hroots, hgrounded⟩ := h
    have hchild : ∀ ref ∈ tree.nodes.keys, ∀ c ∈ tree.childrenOf ref,
        c ∈ tree.nodes.keys ∧ tree.parentOf c = some ref := by
      intro ref href c hc
      obtain ⟨node, hn⟩ := tree.nodes.mem_keys.mp href
      rw [CanonicalTree.childrenOf_eq hn] at hc
      exact (hlinks _ (hentry hn)).1 c hc
    refine ⟨fun ref href c hc => (hchild ref href c hc).1, fun ref href c hc => (hchild ref href c hc).2, ?_, hroots,
      hgrounded⟩
    intro ref href p hp
    obtain ⟨node, hn⟩ := tree.nodes.mem_keys.mp href
    rw [CanonicalTree.parentOf_eq hn] at hp
    exact (hlinks _ (hentry hn)).2 p hp
  · intro h
    refine ⟨fun e he => ?_, h.only_root, h.grounded⟩
    have hn := tree.nodes.get?_eq_some.mpr he
    have href : e.1 ∈ tree.nodes.keys := tree.nodes.mem_keys.mpr ⟨e.2, hn⟩
    constructor
    · intro c hc
      rw [← CanonicalTree.childrenOf_eq hn] at hc
      exact ⟨h.child_known e.1 href c hc, h.parent_of_child e.1 href c hc⟩
    · intro p hp
      rw [← CanonicalTree.parentOf_eq hn] at hp
      exact h.child_of_parent e.1 href p hp

theorem rooted_of_validateTree {cid : Option String} (h : validateTree tree cid = .ok ()) : Rooted tree :=
  validateTreeResult_nil_iff.mp (validateTree_iff.mp h)

end

/-! ## The forest of a valid tree -/

namespace Rooted
variable {tree : CanonicalTree}

theorem children_nodup (tree : CanonicalTree) {ref : NodeRef} : (tree.childrenOf ref).Nodup := by
  unfold CanonicalTree.childrenOf
  cases tree.nodes.get? ref with
  | none => exact List.nodup_nil
  | some node => exact node.childRefs_nodup

def forest (h : Rooted tree) : Forest NodeRef where
  members := tree.nodes.keys
  children := tree.childrenOf
  parent := tree.parentOf
  child_mem := h.child_known
  parent_of_child := h.parent_of_child
  child_of_parent := h.child_of_parent
  children_nodup := fun _ _ => children_nodup tree
  grounded := h.grounded

theorem mem_of_parent (h : Rooted tree) {ref p : NodeRef} (hp : tree.parentOf ref = some p) :
    p ∈ tree.nodes.keys ∧ ref ∈ tree.childrenOf p := h.child_of_parent ref (parentOf_mem hp) p hp

/-- A child of a node names that node as its parent, and conversely. -/
theorem mem_children_iff (h : Rooted tree) {p c : NodeRef} (hp : p ∈ tree.nodes.keys) :
    c ∈ tree.childrenOf p ↔ tree.parentOf c = some p :=
  ⟨h.parent_of_child p hp c, fun hc => (h.mem_of_parent hc).2⟩

/-- A node of the tree is the root or has a parent. -/
theorem root_or_parent (h : Rooted tree) {ref : NodeRef} (href : ref ∈ tree.nodes.keys) :
    ref = tree.rootNodeRef ∨ ∃ p, tree.parentOf ref = some p := by
  cases hp : tree.parentOf ref with
  | none => exact Or.inl (h.only_root ref href hp)
  | some p => exact Or.inr ⟨p, rfl⟩

/-- Induction from the root down. -/
theorem induction_down (h : Rooted tree) {P : NodeRef → Prop} (hroot : P tree.rootNodeRef)
    (hchild : ∀ p ∈ tree.nodes.keys, ∀ c ∈ tree.childrenOf p, P p → P c) : ∀ ref ∈ tree.nodes.keys, P ref :=
  h.forest.induction_down (fun ref href hp => h.only_root ref href hp ▸ hroot) hchild

/-- A rooted tree by its parent links. -/
def hierarchy (h : Rooted tree) : Hierarchy NodeRef where
  root := tree.rootNodeRef
  parent := tree.parentOf
  root_top := tree.parentOf_root
  parent_node := fun _ _ hp => h.root_or_parent (h.mem_of_parent hp).1
  grounded := by
    intro ref
    cases hp : tree.parentOf ref with
    | none => exact Acc.intro ref fun p hlink => absurd (hp.symm.trans hlink) (by simp)
    | some p => exact h.grounded ref (parentOf_mem hp)

theorem node_iff (h : Rooted tree) {ref : NodeRef} : h.hierarchy.Node ref ↔ ref ∈ tree.nodes.keys := by
  constructor
  · intro hn
    rcases hn with rfl | ⟨p, hp⟩
    · exact tree.root_mem
    · exact parentOf_mem hp
  · exact h.root_or_parent

end Rooted

end Reconciliation.Validation
