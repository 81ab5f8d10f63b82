/-
  Reconciliation.Reports.MapOrder — the insertion order of maps never shows.

  Two trees are `Reordered` when their node maps, and the identity and content properties of
  each node, hold the same entries in any order. Every stage either sorts what it iterates
  over or only looks entries up, so the engine ends the same way on reordered trees, with the
  same result or the same error (`map_order`).
-/
import Reconciliation.Builders
import Reconciliation.Contracts.Alike
import Reconciliation.Reports.Occurrences

namespace Reconciliation.Reports

open Reconciliation.Base Reconciliation.Contracts Reconciliation.Validation Reconciliation.Metrics
  Reconciliation.Normalization Reconciliation.Evidence Reconciliation.Matching Reconciliation.Alignment
  Reconciliation.Classification Reconciliation.Suppression Reconciliation.Engine Reconciliation.Builders

/-! ## Reordered trees -/

/-- The same node, up to the order of its identity and content properties. -/
structure ReorderedNode (node node' : CanonicalNode) : Prop extends SameLinks node node' where
  identity : node.identityProperties.entries.Perm node'.identityProperties.entries
  content : node.contentProperties.entries.Perm node'.contentProperties.entries
  structural_eq : node.structuralProperties = node'.structuralProperties
  extension_eq : node.extensionProperties = node'.extensionProperties

/-- The same tree, up to the order of its maps. -/
def Reordered (tree tree' : CanonicalTree) : Prop := Alike ReorderedNode tree tree'

theorem reordered_refl (tree : CanonicalTree) : Reordered tree tree where
  root := rfl
  nodes := ⟨_, .refl _, List.forall₂_same.mpr fun _ _ => ⟨rfl, ⟨rfl, rfl, rfl⟩, .refl _, .refl _, rfl, rfl⟩⟩

/-- What the stages read of two normalized nodes is the same, up to the order of the identity properties. -/
structure SameRead (node node' : CanonicalNode) : Prop extends SameLinks node node' where
  identity : node.identityProperties.entries.Perm node'.identityProperties.entries
  content_eq : node.contentProperties = node'.contentProperties

/-! ## Validation and limits -/

section Validated
variable {tree tree' source source' target target' : CanonicalTree}

theorem childViolations_alike (h : Alike SameLinks tree tree') (ref c : NodeRef) :
    childViolations tree ref c = childViolations tree' ref c := by
  unfold childViolations
  have hget := h.get c
  revert hget
  generalize tree.nodes.get? c = a
  generalize tree'.nodes.get? c = b
  intro hget
  cases hget with
  | none => rfl
  | some hab => simp only [hab.parent_eq]

theorem parentViolations_alike (h : Alike SameLinks tree tree') (ref : NodeRef) {node node' : CanonicalNode}
    (hn : SameLinks node node') : parentViolations tree ref node = parentViolations tree' ref node' := by
  unfold parentViolations
  rw [hn.parent_eq]
  cases node'.parentRef with
  | none => rfl
  | some p =>
    have hget := h.get p
    revert hget
    simp only
    generalize tree.nodes.get? p = a
    generalize tree'.nodes.get? p = b
    intro hget
    cases hget with
    | none => rfl
    | some hab => simp only [hab.children_eq]

theorem rootViolations_alike (h : Alike SameLinks tree tree') : rootViolations tree = rootViolations tree' := by
  have hparentless : (tree.nodes.sorted.entries.filter fun e => e.2.parentRef = none).map Prod.fst =
      (tree'.nodes.sorted.entries.filter fun e => e.2.parentRef = none).map Prod.fst := by
    have hfilter := List.rel_filter (p := fun e => decide (e.2.parentRef = none)) (q := fun e => decide (e.2.parentRef = none))
      (fun e e' he => by simp [he.2.parent_eq]) h.sorted
    exact map_eq_of_forall₂ (hfilter.imp fun _ _ he => he.1)
  unfold rootViolations
  rw [hparentless, h.root]

theorem validateTree_alike (h : Alike SameLinks tree tree') (cid : Option String) :
    validateTree tree cid = validateTree tree' cid := by
  have hlinks : (tree.nodes.sorted.entries.flatMap fun e =>
        e.2.childRefs.flatMap (childViolations tree e.1) ++ parentViolations tree e.1 e.2) =
      tree'.nodes.sorted.entries.flatMap fun e =>
        e.2.childRefs.flatMap (childViolations tree' e.1) ++ parentViolations tree' e.1 e.2 := by
    refine congrArg List.flatten (map_eq_of_forall₂ (h.sorted.imp fun e e' he => ?_))
    rw [he.1, he.2.children_eq, funext (childViolations_alike h e'.1), parentViolations_alike h e'.1 he.2]
  have hcycles : detectCycles tree = detectCycles tree' := by
    unfold detectCycles cycleViolations
    rw [h.keys_eq, h.parentOf_eq, h.size_eq]
  unfold validateTree validateTreeResult
  rw [hlinks, hcycles, rootViolations_alike h]

theorem checkPreLimits_alike (hs : Alike SameLinks source source') (ht : Alike SameLinks target target')
    (limits : ResourceLimits) (cid : Option String) :
    checkPreLimits source target limits cid = checkPreLimits source' target' limits cid := by
  have hdepth : ∀ {tree tree' : CanonicalTree}, Alike SameLinks tree tree' → treeDepth tree = treeDepth tree' := by
    intro tree tree' h
    unfold treeDepth
    have hopens : (fun i : NodeRef × Nat => (tree.node i.1).map fun n => (n.childRefs.map fun c => (c, i.2 + 1)).reverse) =
        fun i => (tree'.node i.1).map fun n => (n.childRefs.map fun c => (c, i.2 + 1)).reverse :=
      funext fun i => h.map_congr (fun a b hab => by rw [hab.children_eq]) i.1
    rw [hopens, h.size_eq, h.root]
  unfold checkPreLimits checkTreeDepth
  rw [hdepth hs, hdepth ht, hs.size_eq, ht.size_eq]

end Validated

/-! ## Normalization and evidence -/

section Extracted
variable {tree tree' : CanonicalTree}

theorem normalize_reordered (h : Reordered tree tree') (profile : NormalizationProfile) :
    Alike SameRead (normalizeTree tree profile) (normalizeTree tree' profile) where
  root := h.root
  nodes := by
    refine ⟨_, List.Perm.refl _, ?_⟩
    refine List.forall₂_map_left_iff.mpr (List.forall₂_map_right_iff.mpr (h.sorted.imp fun e e' he => ⟨he.1, ?_⟩))
    refine ⟨⟨he.2.type_eq, he.2.parent_eq, he.2.children_eq⟩, he.2.identity, ?_⟩
    show normalizeContent profile e.1 e.2.contentProperties = normalizeContent profile e'.1 e'.2.contentProperties
    unfold normalizeContent
    rw [he.1, Dict.sorted_eq_of_perm he.2.content]

theorem firstPresent_read {node node' : CanonicalNode} (h : SameRead node node') (keys : List String) :
    firstPresent node keys = firstPresent node' keys := by
  have hvalue : ∀ key, presentValue node key = presentValue node' key := by
    intro key
    unfold presentValue
    rw [Dict.get?_eq_of_perm h.identity key, h.content_eq]
  induction keys with
  | nil => rfl
  | cons key rest ih => rw [firstPresent, firstPresent, hvalue key, ih]

theorem nodeEvidence_read [PyRuntime] (h : Alike SameRead tree tree') (ref : NodeRef) {node node' : CanonicalNode}
    (hn : SameRead node node') : nodeEvidence tree ref node = nodeEvidence tree' ref node' := by
  have hchildren : childSignature tree node = childSignature tree' node' := by
    unfold childSignature
    rw [hn.children_eq, funext fun c => h.map_congr (fun a b hab => hab.type_eq) c]
  have hsignature : signature node = signature node' := by
    unfold signature
    rw [hn.type_eq, hn.content_eq, Dict.sorted_eq_of_perm hn.identity]
  unfold nodeEvidence
  rw [hchildren, hsignature, hn.type_eq, firstPresent_read hn, firstPresent_read hn]

theorem extractTree_read [PyRuntime] (h : Alike SameRead tree tree') : extractTree tree = extractTree tree' := by
  have hevidence : tree.nodes.sorted.mapValM (nodeEvidence tree) = tree'.nodes.sorted.mapValM (nodeEvidence tree') := by
    refine Dict.mapValM_congr (h.sorted.imp fun e e' he => ⟨he.1, ?_⟩)
    rw [he.1]
    exact nodeEvidence_read h e'.1 he.2
  unfold extractTree
  split
  · rename_i e he
    split
    · rename_i e' he'
      rw [hevidence, he'] at he
      cases he
      rfl
    · rename_i out hout
      rw [hevidence, hout] at he
      cases he
  · rename_i out hout
    split
    · rename_i e' he'
      rw [hevidence, he'] at hout
      cases hout
    · rename_i out' hout'
      rw [hevidence, hout'] at hout
      cases hout
      rfl

end Extracted

/-! ## Alignment, classification and suppression -/

section Staged
variable {source source' target target' : CanonicalTree} (hs : Alike SameRead source source')
  (ht : Alike SameRead target target')

include hs ht

theorem align_read (graph : MatchGraph) (profile : AlignmentProfile) :
    align source target graph profile = align source' target' graph profile := by
  have hparents : parentPairs source target graph = parentPairs source' target' graph := by
    unfold parentPairs
    rw [hs.root, ht.root]
  have hregion : ∀ ambS ambT, alignParent source target graph profile ambS ambT =
      alignParent source' target' graph profile ambS ambT := by
    intro ambS ambT
    funext parents
    unfold alignParent
    refine hs.bind_congr (fun a b hab => ?_) parents.1
    refine ht.bind_congr (fun c d hcd => ?_) parents.2
    rw [hab.type_eq, hab.children_eq, hcd.children_eq]
  unfold align
  simp only [hparents, hregion]

variable (graph : MatchGraph) (alignment : AlignmentResult) (profile : OperationProfile)

theorem isCrossParent_read (s t : NodeRef) :
    ClassificationContext.isCrossParent ⟨source, target, graph, alignment, profile⟩ s t =
      ClassificationContext.isCrossParent ⟨source', target', graph, alignment, profile⟩ s t := by
  have hcorrespond : ClassificationContext.parentsCorrespond ⟨source, target, graph, alignment, profile⟩ =
      ClassificationContext.parentsCorrespond ⟨source', target', graph, alignment, profile⟩ := by
    funext p q
    unfold ClassificationContext.parentsCorrespond
    rw [hs.root, ht.root]
  unfold ClassificationContext.isCrossParent
  refine hs.bind_congr (fun a b hab => ?_) s
  refine ht.bind_congr (fun c d hcd => ?_) t
  rw [hab.parent_eq, hcd.parent_eq, hcorrespond]

theorem movePairs_read : ClassificationContext.movePairs ⟨source, target, graph, alignment, profile⟩ =
    ClassificationContext.movePairs ⟨source', target', graph, alignment, profile⟩ := by
  have hpair : ClassificationContext.movePair ⟨source, target, graph, alignment, profile⟩ =
      ClassificationContext.movePair ⟨source', target', graph, alignment, profile⟩ := by
    funext p
    unfold ClassificationContext.movePair
    rw [isCrossParent_read hs ht]
    rfl
  unfold ClassificationContext.movePairs
  rw [hpair]
  rfl

theorem classify_read : classify ⟨source, target, graph, alignment, profile⟩ =
    classify ⟨source', target', graph, alignment, profile⟩ := by
  have hmatch : matchOperation ⟨source, target, graph, alignment, profile⟩ =
      matchOperation ⟨source', target', graph, alignment, profile⟩ := by
    funext pair
    unfold matchOperation
    split
    · rfl
    · cases pair.val.sourceNodeRef with
      | none => rfl
      | some sc =>
        cases pair.val.targetNodeRef with
        | none => rfl
        | some tc =>
          refine hs.bind_congr (fun a b hab => ?_) sc
          refine ht.bind_congr (fun c d hcd => ?_) tc
          rw [hab.content_eq, hcd.content_eq]
          rfl
  have hmove : moveOperation ⟨source, target, graph, alignment, profile⟩ =
      moveOperation ⟨source', target', graph, alignment, profile⟩ := by
    funext p
    unfold moveOperation
    refine ht.bind_congr (fun c d hcd => ?_) p.2
    refine hs.bind_congr (fun a b hab => ?_) p.1
    rw [hab.parent_eq, hcd.parent_eq]
    rfl
  unfold classify matchUpdate insertDelete move
  rw [hmatch, hmove, movePairs_read hs ht]
  rfl

omit ht in
theorem suppress_read (operations : StructuralOperationSet) (suppression : SuppressionProfile) :
    suppress source operations alignment suppression = suppress source' operations alignment suppression := by
  have hdescendants : descendants source = descendants source' := by
    funext ref
    unfold descendants
    refine hs.bind_congr (fun a b hab => ?_) ref
    rw [hab.children_eq, hs.size_eq, funext fun c => hs.map_congr (fun a b hab => by rw [hab.children_eq]) c]
  unfold suppress applyRules applyRule
  rw [hdescendants]

end Staged

/-! ## Runs -/

/-- The command about two other trees. -/
def withTrees (command : ReconcileTreesCommand) (source target : CanonicalTree) : ReconcileTreesCommand :=
  { command with sourceTree := source, targetTree := target }

section Runs
variable [PyRuntime] {command : ReconcileTreesCommand} {source target : CanonicalTree}

theorem runStages_reordered (hs : Reordered command.sourceTree source) (ht : Reordered command.targetTree target) :
    runStages (withTrees command source target) = runStages command := by
  have hsource := normalize_reordered hs command.normalizationProfile
  have htarget := normalize_reordered ht command.normalizationProfile
  have hextract : extract (normalizeTree command.sourceTree command.normalizationProfile)
      (normalizeTree command.targetTree command.normalizationProfile) =
    extract (normalizeTree source command.normalizationProfile) (normalizeTree target command.normalizationProfile) := by
    unfold extract
    rw [extractTree_read hsource, extractTree_read htarget]
  unfold runStages withTrees Normalization.normalize
  simp only [hextract, ← align_read hsource htarget, ← classify_read hsource htarget, ← suppress_read hsource,
    ← hs.size_eq, ← ht.size_eq]
  rfl

/-- The engine ends the same way on reordered trees. -/
theorem map_order (hs : Reordered command.sourceTree source) (ht : Reordered command.targetTree target) :
    reconcile (withTrees command source target) = reconcile command := by
  have hsource : Alike SameLinks command.sourceTree source := hs.mono fun _ _ h => h.toSameLinks
  have htarget : Alike SameLinks command.targetTree target := ht.mono fun _ _ h => h.toSameLinks
  have hincomplete : ∀ diagnostics, incompleteResult (withTrees command source target) diagnostics =
      incompleteResult command diagnostics := by
    intro diagnostics
    unfold incompleteResult withTrees
    rw [← hs.size_eq, ← ht.size_eq]
    rfl
  unfold reconcile validate
  simp only [runStages_reordered hs ht, hincomplete]
  simp only [withTrees, ← validateTree_alike hsource, ← validateTree_alike htarget,
    ← checkPreLimits_alike hsource htarget]
  rfl

end Runs

/-- A chapter with properties that are no ids, and a note. -/
def orderedBook : ReconcileTreesCommand :=
  defaultCommand
    (buildTree "book" [⟨"book", "map", none, [], []⟩,
      ⟨"setup", "topic", some "book", [("id", .str "s"), ("role", .str "task")], [("title", .str "Setup"), ("level", .int 1)]⟩,
      ⟨"note", "note", some "book", [], []⟩])
    (buildTree "book" [⟨"book", "map", none, [], []⟩, ⟨"note", "note", some "book", [], []⟩,
      ⟨"setup", "topic", some "book", [("id", .str "s")], [("title", .str "Set up"), ("level", .int 1)]⟩])

/-- The source with its node map and the properties of the chapter in another order. -/
def shuffledSource : CanonicalTree :=
  buildTree "book" [⟨"setup", "topic", some "book", [("role", .str "task"), ("id", .str "s")],
      [("level", .int 1), ("title", .str "Setup")]⟩,
    ⟨"note", "note", some "book", [], []⟩, ⟨"book", "map", none, [], []⟩]

theorem shuffledSource_reordered : Reordered orderedBook.sourceTree shuffledSource where
  root := rfl
  nodes := by
    refine ⟨orderedBook.sourceTree.nodes.entries.rotate 1, (List.rotate_perm _ 1).symm, ?_⟩
    refine .cons ⟨rfl, ⟨⟨rfl, rfl, rfl⟩, .swap _ _ _, .swap _ _ _, rfl, rfl⟩⟩ ?_
    refine .cons ⟨rfl, ⟨⟨rfl, rfl, rfl⟩, .refl _, .refl _, rfl, rfl⟩⟩ ?_
    exact .cons ⟨rfl, ⟨⟨rfl, rfl, rfl⟩, .refl _, .refl _, rfl, rfl⟩⟩ .nil

theorem orderedBook_order : @reconcile asciiRuntime (withTrees orderedBook shuffledSource orderedBook.targetTree) =
    @reconcile asciiRuntime orderedBook :=
  @map_order asciiRuntime _ _ _ shuffledSource_reordered (reordered_refl _)

end Reconciliation.Reports
