/-
  Reconciliation.Metrics — the depth of a tree and the limits checked before a run.

  The walk that measures a rooted tree ends, pops no node twice (`treeDepth_visits`) and meets
  every node at its depth (`treeDepth_spec`), so the checks pass exactly when no limit is exceeded
  (`checkPreLimits_ok`), and otherwise raise the documented error (`checkPreLimits_outcome`).
-/
import Reconciliation.Validation.TreeValidator

namespace Reconciliation.Metrics

open Reconciliation.Base Reconciliation.Contracts Reconciliation.Validation

/-! ## Limits -/

/-- The maximum depth of a tree, its root at depth 1. -/
def treeDepth (tree : CanonicalTree) : Except PyError Nat :=
  drain .diverged (fun (i : NodeRef × Nat) => (tree.node i.1).map fun n => (n.childRefs.map fun c => (c, i.2 + 1)).reverse)
    (fun depth i => max depth i.2) tree.nodes.size [(tree.rootNodeRef, 1)] 0

def checkNodeCount (total : Nat) (limit : Option Nat) (correlationId : Option String) : Except PyError Unit :=
  match limit with
  | none => .ok ()
  | some limit =>
    if limit < total then
      .error (.documented (.resourceLimitExceeded [.text "combined node count exceeds configured limit"] correlationId
        [("total_nodes", total), ("limit", limit)]))
    else .ok ()

def checkTreeDepth (source target : CanonicalTree) (limit : Option Nat) (correlationId : Option String) :
    Except PyError Unit :=
  match limit with
  | none => .ok ()
  | some limit => do
    let sourceDepth ← treeDepth source
    let targetDepth ← treeDepth target
    let deepest := max sourceDepth targetDepth
    if limit < deepest then
      throw (.documented (.resourceLimitExceeded [.text "tree depth exceeds configured limit"] correlationId
        [("depth", deepest), ("limit", limit)]))

def checkPreLimits (source target : CanonicalTree) (limits : ResourceLimits) (correlationId : Option String) :
    Except PyError Unit := do
  checkNodeCount (source.nodes.size + target.nodes.size) limits.maxNodeCount correlationId
  checkTreeDepth source target limits.maxTreeDepth correlationId

/-! ## The checks end -/

/-- Before the first pop, only the root is on the stack. -/
theorem draining_root {tree : CanonicalTree} (h : Rooted tree) :
    Draining h.forest tree.rootNodeRef [] [tree.rootNodeRef] where
  nodup := by simp
  below := by
    intro a ha
    rw [List.nil_append, List.mem_singleton] at ha
    exact ha ▸ .refl
  parent_popped := by
    intro a ha hne
    rw [List.nil_append, List.mem_singleton] at ha
    exact absurd ha hne

/-- Some node lies deeper than the limit, the root at depth 1. -/
def Deeper (tree : CanonicalTree) (limit : Nat) : Prop :=
  ∃ route ref, Route tree.childrenOf tree.rootNodeRef route ref ∧ limit < route.length + 1

theorem lt_foldl_max {items : List (NodeRef × Nat)} {limit depth : Nat} :
    limit < items.foldl (fun depth i => max depth i.2) depth ↔ limit < depth ∨ ∃ i ∈ items, limit < i.2 := by
  induction items generalizing depth with
  | nil => simp
  | cons i items ih => simp [ih, or_assoc]

/-- What a node opens up: its children, one level deeper. -/
def opensDeeper (tree : CanonicalTree) (i : NodeRef × Nat) : Except PyError (List (NodeRef × Nat)) :=
  (tree.node i.1).map fun n => (n.childRefs.map fun c => (c, i.2 + 1)).reverse

theorem opensDeeper_ok {tree : CanonicalTree} {i : NodeRef × Nat} (hi : i.1 ∈ tree.nodes.keys) :
    opensDeeper tree i = .ok ((tree.childrenOf i.1).map fun c => (c, i.2 + 1)).reverse := by
  obtain ⟨node, hn⟩ := tree.nodes.mem_keys.mp hi
  unfold opensDeeper
  rw [CanonicalTree.node_ok.mpr hn, CanonicalTree.childrenOf_eq hn]
  rfl

/-- Over a rooted tree the walk ends, and pops no node twice. -/
theorem treeDepth_visits {tree : CanonicalTree} (h : Rooted tree) : ∃ visited : List (NodeRef × Nat),
    treeDepth tree = .ok (visited.foldl (fun depth i => max depth i.2) 0) ∧
      Trail (opensDeeper tree) [(tree.rootNodeRef, 1)] visited ∧
      (∀ i ∈ visited, i.1 ∈ tree.nodes.keys) ∧ (visited.map Prod.fst).Nodup := by
  have hopens : ∀ i : NodeRef × Nat, i.1 ∈ h.forest.members → ∃ more, opensDeeper tree i = .ok more ∧
      (more.map Prod.fst).Perm (h.forest.children i.1) := by
    intro i hi
    refine ⟨_, opensDeeper_ok hi, ?_⟩
    rw [List.map_reverse, List.map_map]
    simp [Function.comp_def, List.reverse_perm, Rooted.forest]
  have hrun : ∃ visited : List (NodeRef × Nat), treeDepth tree = .ok (visited.foldl (fun depth i => max depth i.2) 0) ∧
      Trail (opensDeeper tree) [(tree.rootNodeRef, 1)] visited ∧ (∀ i ∈ visited, h.forest.Below tree.rootNodeRef i.1) ∧
      (visited.map Prod.fst).Nodup ∧ ∀ i ∈ visited, i.1 ∉ ([] : List NodeRef) :=
    drain_visits tree.root_mem hopens (draining_root h) (by simp [Rooted.forest, Dict.keys, Dict.size])
  obtain ⟨visited, hrun, htrail, hbelow, hnodup, -⟩ := hrun
  exact ⟨visited, hrun, htrail, fun i hi => (hbelow i hi).mem tree.root_mem, hnodup⟩

/-- Over a rooted tree the walk meets each node at its depth. -/
theorem treeDepth_spec {tree : CanonicalTree} (h : Rooted tree) :
    ∃ depth, treeDepth tree = .ok depth ∧ ∀ limit, limit < depth ↔ Deeper tree limit := by
  obtain ⟨visited, hrun, htrail, hknown, -⟩ := treeDepth_visits h
  have hroute : ∀ i ∈ visited, ∃ route, Route tree.childrenOf tree.rootNodeRef route i.1 ∧ i.2 = route.length + 1 := by
    refine htrail.keeps (fun i more hi hmore j hj => ?_) (fun i hi => ?_)
    · obtain ⟨route, hroute, hd⟩ := hi
      obtain ⟨node, hn, rfl⟩ := Outcome.map_ok.mp hmore
      obtain ⟨c, hc, rfl⟩ := List.mem_map.mp (List.mem_reverse.mp hj)
      rw [← CanonicalTree.childrenOf_eq (CanonicalTree.node_ok.mp hn)] at hc
      exact ⟨i.1 :: route, hroute.down hc, by simp [hd]⟩
    · rw [List.mem_singleton.mp hi]
      exact ⟨[], .here, rfl⟩
  have hmet : ∀ {route ref}, Route tree.childrenOf tree.rootNodeRef route ref → (ref, route.length + 1) ∈ visited := by
    intro route ref hr
    induction hr with
    | here => exact htrail.starts (by simp)
    | @down route p c _ hc ih =>
      obtain ⟨more, hmore, hsub⟩ := htrail.closed _ ih
      rw [opensDeeper_ok (hknown _ ih), Except.ok.injEq] at hmore
      exact hsub (hmore ▸ List.mem_reverse.mpr (List.mem_map.mpr ⟨c, hc, rfl⟩))
  refine ⟨_, hrun, fun limit => ?_⟩
  rw [lt_foldl_max]
  constructor
  · intro hlt
    obtain ⟨i, hi, hlt⟩ := hlt.resolve_left (Nat.not_lt_zero limit)
    obtain ⟨route, hr, hd⟩ := hroute i hi
    exact ⟨route, i.1, hr, hd ▸ hlt⟩
  · intro hdeep
    obtain ⟨route, ref, hr, hlt⟩ := hdeep
    exact Or.inr ⟨_, hmet hr, hlt⟩

theorem checkNodeCount_ok {total : Nat} {limit : Option Nat} {cid : Option String} :
    checkNodeCount total limit cid = .ok () ↔ ∀ l ∈ limit, ¬ l < total := by
  unfold checkNodeCount
  cases limit <;> simp

theorem checkTreeDepth_ok {source target : CanonicalTree} (hs : Rooted source) (ht : Rooted target)
    {limit : Option Nat} {cid : Option String} :
    checkTreeDepth source target limit cid = .ok () ↔ ∀ l ∈ limit, ¬ Deeper source l ∧ ¬ Deeper target l := by
  obtain ⟨sourceDepth, hds, hsource⟩ := treeDepth_spec hs
  obtain ⟨targetDepth, hdt, htarget⟩ := treeDepth_spec ht
  unfold checkTreeDepth
  cases limit with
  | none => simp
  | some limit => simp [hds, hdt, bind, Except.bind, pure, Except.pure, ← hsource, ← htarget]

/-- Over rooted trees the checks pass exactly when no limit is exceeded. -/
theorem checkPreLimits_ok {source target : CanonicalTree} (hs : Rooted source) (ht : Rooted target)
    {limits : ResourceLimits} {cid : Option String} : checkPreLimits source target limits cid = .ok () ↔
      (∀ l ∈ limits.maxNodeCount, ¬ l < source.nodes.size + target.nodes.size) ∧
        ∀ l ∈ limits.maxTreeDepth, ¬ Deeper source l ∧ ¬ Deeper target l := by
  rw [checkPreLimits, Outcome.bind_ok]
  constructor
  · intro h
    obtain ⟨⟨⟩, hcount, hdepth⟩ := h
    exact ⟨checkNodeCount_ok.mp hcount, (checkTreeDepth_ok hs ht).mp hdepth⟩
  · intro h
    exact ⟨(), checkNodeCount_ok.mpr h.1, (checkTreeDepth_ok hs ht).mpr h.2⟩

/-- The limits hold, or the documented error says which does not. -/
theorem checkPreLimits_outcome {source target : CanonicalTree} (hs : Rooted source) (ht : Rooted target)
    (limits : ResourceLimits) (cid : Option String) :
    checkPreLimits source target limits cid = .ok () ∨ ∃ message context,
      checkPreLimits source target limits cid = .error (.documented (.resourceLimitExceeded message cid context)) := by
  obtain ⟨sourceDepth, hds, -⟩ := treeDepth_spec hs
  obtain ⟨targetDepth, hdt, -⟩ := treeDepth_spec ht
  have hdepth : checkTreeDepth source target limits.maxTreeDepth cid = .ok () ∨ ∃ message context,
      checkTreeDepth source target limits.maxTreeDepth cid =
        .error (.documented (.resourceLimitExceeded message cid context)) := by
    unfold checkTreeDepth
    cases limits.maxTreeDepth with
    | none => exact Or.inl rfl
    | some limit =>
      simp only [hds, hdt, bind, Except.bind, pure, Except.pure]
      by_cases hlt : limit < max sourceDepth targetDepth
      · rw [if_pos hlt]
        exact Or.inr ⟨_, _, rfl⟩
      · rw [if_neg hlt]
        exact Or.inl rfl
  have hcount : checkNodeCount (source.nodes.size + target.nodes.size) limits.maxNodeCount cid = .ok () ∨
      ∃ message context, checkNodeCount (source.nodes.size + target.nodes.size) limits.maxNodeCount cid =
        .error (.documented (.resourceLimitExceeded message cid context)) := by
    unfold checkNodeCount
    cases limits.maxNodeCount with
    | none => exact Or.inl rfl
    | some limit =>
      simp only
      by_cases hlt : limit < source.nodes.size + target.nodes.size
      · rw [if_pos hlt]
        exact Or.inr ⟨_, _, rfl⟩
      · rw [if_neg hlt]
        exact Or.inl rfl
  unfold checkPreLimits
  rcases hcount with hc | ⟨message, context, hc⟩
  · rw [hc]
    exact hdepth
  · rw [hc]
    exact Or.inr ⟨message, context, rfl⟩

end Reconciliation.Metrics
