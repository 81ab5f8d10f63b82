/-
  Reconciliation.Reports.Normalized — what normalization promises, over one tree and over a run.

  A run over trees that are normalized already is the run over the trees themselves
  (`reconcile_normalized`). Of the promise on a tree all holds but the trace: a
  not-a-number is not equal to itself, so one whose white space may be collapsed is listed as
  changed, and listed again when the tree is normalized again (`normalizedOnce_iff`,
  `unsetRatio_listed`).
-/
import Reconciliation.Builders
import Reconciliation.Engine
import Reconciliation.NormalizationProofs

namespace Reconciliation.Reports

open Reconciliation.Base Reconciliation.Contracts Reconciliation.Normalization Reconciliation.Validation
  Reconciliation.Metrics Reconciliation.Engine Reconciliation.Builders

/-! ## Runs over normalized trees -/

def alreadyNormalized (command : ReconcileTreesCommand) : ReconcileTreesCommand :=
  { command with
    sourceTree := (normalize command.sourceTree command.normalizationProfile).tree
    targetTree := (normalize command.targetTree command.normalizationProfile).tree }

section Run
variable {tree : CanonicalTree} {profile : NormalizationProfile}

theorem size_normalize : (normalize tree profile).tree.nodes.size = tree.nodes.size := by
  show (tree.nodes.sorted.entries.map _).length = tree.nodes.entries.length
  rw [List.length_map]
  exact length_sortedBy Prod.fst tree.nodes.entries

theorem treeDepth_normalize : treeDepth (normalize tree profile).tree = treeDepth tree := by
  have hopen : ∀ (ref : NodeRef) (d : Nat),
      (((normalize tree profile).tree.node ref).map fun n => (n.childRefs.map fun c => (c, d + 1)).reverse) =
        (tree.node ref).map fun n => (n.childRefs.map fun c => (c, d + 1)).reverse := by
    intro ref d
    rw [show (normalize tree profile).tree = normalizeTree tree profile from rfl]
    unfold CanonicalTree.node
    rw [get_normalize]
    cases tree.nodes.get? ref <;> rfl
  unfold treeDepth
  simp only [hopen, size_normalize]
  rfl

variable [PyRuntime]

/-- The stages after normalization read only normalized trees. -/
theorem runStages_normalized (command : ReconcileTreesCommand) :
    runStages (alreadyNormalized command) = runStages command := by
  have hsource : (normalize (alreadyNormalized command).sourceTree (alreadyNormalized command).normalizationProfile).tree =
      (normalize command.sourceTree command.normalizationProfile).tree := normalizeTree_again _ _
  have htarget : (normalize (alreadyNormalized command).targetTree (alreadyNormalized command).normalizationProfile).tree =
      (normalize command.targetTree command.normalizationProfile).tree := normalizeTree_again _ _
  unfold runStages
  rw [hsource, htarget]
  simp only [alreadyNormalized, size_normalize]
  rfl

/-- Normalizing both trees beforehand does not show in the result. -/
theorem reconcile_normalized (command : ReconcileTreesCommand) (hs : Rooted command.sourceTree)
    (ht : Rooted command.targetTree) : reconcile (alreadyNormalized command) = reconcile command := by
  have haccepts : ∀ tree, Rooted tree → ∀ cid, validateTree tree cid = .ok () := fun tree htree cid =>
    validateTree_iff.mpr (validateTreeResult_nil_iff.mpr htree)
  have hvalid : validate (alreadyNormalized command) = validate command := by
    have hs' := haccepts (alreadyNormalized command).sourceTree (rooted_normalize hs)
    have ht' := haccepts (alreadyNormalized command).targetTree (rooted_normalize ht)
    unfold validate
    rw [haccepts _ hs, haccepts _ ht, hs', ht']
    rfl
  have hlimits : ∀ limits cid, checkPreLimits (alreadyNormalized command).sourceTree (alreadyNormalized command).targetTree
      limits cid = checkPreLimits command.sourceTree command.targetTree limits cid := by
    intro limits cid
    simp only [checkPreLimits, checkTreeDepth, alreadyNormalized, size_normalize, treeDepth_normalize]
  have hincomplete : ∀ diagnostics, incompleteResult (alreadyNormalized command) diagnostics =
      incompleteResult command diagnostics := by
    intro diagnostics
    simp only [incompleteResult, alreadyNormalized, size_normalize]
    rfl
  unfold reconcile
  rw [hvalid]
  simp only [hlimits, hincomplete, runStages_normalized]
  rfl

end Run

/-! ## The promise -/

/-- Every dict in a content value holds each of its keys once, as every Python dict does. -/
def DistinctKeysIn (tree : CanonicalTree) : Prop :=
  ∀ e ∈ tree.nodes.entries, ∀ p ∈ e.2.contentProperties.entries, p.2.DistinctKeys

/-- Some content value is a not-a-number that normalization compares with itself. -/
def HoldsLooseNan (tree : CanonicalTree) (profile : NormalizationProfile) : Prop :=
  ∃ ref node key value, tree.nodes.get? ref = some node ∧ node.contentProperties.get? key = some value ∧
    LooseNan profile key value

/-- The content value of a node under a key. -/
def contentOf (tree : CanonicalTree) (ref : NodeRef) (key : String) : Option CanonicalValue :=
  (tree.nodes.get? ref).bind fun node => node.contentProperties.get? key

/-- Normalization is idempotent, framed and fully traced. -/
structure NormalizedOnce [PyRuntime] (tree : CanonicalTree) (profile : NormalizationProfile) : Prop where
  /-- (1) normalizing again returns the same tree, with an empty trace -/
  again : normalize (normalize tree profile).tree profile = ⟨(normalize tree profile).tree, [], profile.version⟩
  /-- (2) the same nodes under the same root, each the same but for its content -/
  same_root : (normalize tree profile).tree.rootNodeRef = tree.rootNodeRef
  same_nodes : ∀ ref, ref ∈ (normalize tree profile).tree.nodes.keys ↔ ref ∈ tree.nodes.keys
  framed : ∀ ref node, tree.nodes.get? ref = some node →
    ∃ content, (normalize tree profile).tree.nodes.get? ref = some { node with contentProperties := content }
  valid : ∀ cid, validateTree (normalize tree profile).tree cid = .ok ()
  /-- (3) preserved values are unchanged -/
  preserved : ∀ ref key, key ∈ profile.preservePropertyKeys → contentOf (normalize tree profile).tree ref key = contentOf tree ref key
  /-- (4) an entry stands for each value excluded or changed and for no other, and only one -/
  traced : ∀ ref key value, contentOf tree ref key = some value →
    ((∃ e ∈ (normalize tree profile).trace, e.nodeRef = ref ∧ e.propertyKey = key) ↔
      (key ∈ profile.nonsemanticMetadataKeys ∨ contentOf (normalize tree profile).tree ref key ≠ some value))
  known : ∀ e ∈ (normalize tree profile).trace, ∃ value, contentOf tree e.nodeRef e.propertyKey = some value
  once : ((normalize tree profile).trace.map fun e => (e.nodeRef, e.propertyKey)).Nodup
  /-- (5) runs do not tell normalized trees from the given ones -/
  reconciled : ∀ command : ReconcileTreesCommand, command.sourceTree = tree → command.normalizationProfile = profile →
    validateTree command.targetTree command.executionContext.correlationId = .ok () →
      reconcile (alreadyNormalized command) = reconcile command

section Promise
variable {tree : CanonicalTree} {profile : NormalizationProfile} {ref : NodeRef} {key : String} {value : CanonicalValue}

theorem contentOf_some : contentOf tree ref key = some value ↔
    ∃ node, tree.nodes.get? ref = some node ∧ node.contentProperties.get? key = some value := Option.bind_eq_some_iff

theorem contentOf_normalize : contentOf (normalize tree profile).tree ref key =
    (contentOf tree ref key).bind fun value => (normalizeProperty profile ref key value).1 := by
  show ((normalizeTree tree profile).nodes.get? ref).bind _ = _
  rw [get_normalize, contentOf]
  cases tree.nodes.get? ref with
  | none => rfl
  | some node => exact get_normalizeContent profile ref node.contentProperties key

theorem distinctKeys_of_content (h : DistinctKeysIn tree) (hvalue : contentOf tree ref key = some value) :
    value.DistinctKeys := by
  obtain ⟨node, hnode, hvalue⟩ := contentOf_some.mp hvalue
  exact h _ ((Dict.get?_eq_some _).mp hnode) _ ((Dict.get?_eq_some _).mp hvalue)

/-- Nothing is listed exactly where nothing happens, loose not-a-numbers apart. -/
theorem listed_iff_changed (hkeys : DistinctKeysIn tree) (hvalue : contentOf tree ref key = some value)
    (hloose : ¬ LooseNan profile key value) :
    (∃ e ∈ (normalize tree profile).trace, e.nodeRef = ref ∧ e.propertyKey = key) ↔
      (key ∈ profile.nonsemanticMetadataKeys ∨ contentOf (normalize tree profile).tree ref key ≠ some value) := by
  obtain ⟨node, hnode, hcontent⟩ := contentOf_some.mp hvalue
  have hnew : contentOf (normalize tree profile).tree ref key = (normalizeProperty profile ref key value).1 := by
    rw [contentOf_normalize, hvalue]
    rfl
  rw [listed_iff hnode hcontent, hnew]
  constructor
  · intro hlisted
    refine Or.inr fun hkept => hlisted ?_
    exact (normalizeProperty_kept hkept).mpr hloose
  · intro hchanged hsilent
    have hkept := normalizeProperty_silent (distinctKeys_of_content hkeys hvalue) hsilent
    rcases hchanged with hout | hchanged
    · rw [normalizeProperty, if_pos hout] at hkept
      simp at hkept
    · exact hchanged hkept

/-- Normalizing again lists the loose not-a-numbers and nothing else. -/
theorem trace_again_iff : (normalize (normalize tree profile).tree profile).trace = [] ↔ ¬ HoldsLooseNan tree profile := by
  have hkept : ∀ ref key value, contentOf (normalize tree profile).tree ref key = some value →
      ((normalizeProperty profile ref key value).1 = some value ∧
        ∃ value', contentOf tree ref key = some value' ∧ (LooseNan profile key value ↔ LooseNan profile key value')) := by
    intro ref key value hvalue
    rw [contentOf_normalize] at hvalue
    obtain ⟨value', hvalue', hnormal⟩ := Option.bind_eq_some_iff.mp hvalue
    exact ⟨normalizeProperty_again hnormal, value', hvalue', looseNan_kept hnormal⟩
  constructor
  · intro hnone hloose
    obtain ⟨ref, node, key, value, hnode, hcontent, hnan⟩ := hloose
    have hvalue : contentOf (normalize tree profile).tree ref key = some value := by
      rw [contentOf_normalize, contentOf_some.mpr ⟨node, hnode, hcontent⟩]
      exact looseNan_stays hnan
    obtain ⟨node', hnode', hcontent'⟩ := contentOf_some.mp hvalue
    have hlisted : ∃ e ∈ (normalize (normalize tree profile).tree profile).trace, e.nodeRef = ref ∧ e.propertyKey = key :=
      (listed_iff hnode' hcontent').mpr fun hsilent =>
        (normalizeProperty_kept (hkept ref key value hvalue).1).mp hsilent hnan
    rw [hnone] at hlisted
    simp at hlisted
  · intro hnone
    refine List.eq_nil_iff_forall_not_mem.mpr fun e he => ?_
    obtain ⟨ref, node, key, value, hnode, hcontent, he⟩ := mem_trace.mp he
    obtain ⟨hstays, value', hvalue', hnan⟩ := hkept ref key value (contentOf_some.mpr ⟨node, hnode, hcontent⟩)
    obtain ⟨node', hnode', hcontent'⟩ := contentOf_some.mp hvalue'
    have hsilent := (normalizeProperty_kept hstays).mpr fun hloose =>
      hnone ⟨ref, node', key, value', hnode', hcontent', hnan.mp hloose⟩
    rw [hsilent] at he
    simp at he

/-- Normalization keeps its promise exactly on trees without a loose not-a-number. -/
theorem normalizedOnce_iff [PyRuntime] {cid : Option String} (hvalid : validateTree tree cid = .ok ())
    (hkeys : DistinctKeysIn tree) (profile : NormalizationProfile) :
    NormalizedOnce tree profile ↔ ¬ HoldsLooseNan tree profile := by
  have hrooted := rooted_of_validateTree hvalid
  constructor
  · intro h
    refine trace_again_iff.mp ?_
    rw [h.again]
  · intro hnone
    have hloose : ∀ ref key value, contentOf tree ref key = some value → ¬ LooseNan profile key value := by
      intro ref key value hvalue hnan
      obtain ⟨node, hnode, hcontent⟩ := contentOf_some.mp hvalue
      exact hnone ⟨ref, node, key, value, hnode, hcontent, hnan⟩
    exact {
      again := by
        have htree : (normalize (normalize tree profile).tree profile).tree = (normalize tree profile).tree :=
          normalizeTree_again tree profile
        rw [← trace_again_iff.mpr hnone]
        exact congrArg (fun t => NormalizedTree.mk t _ _) htree
      same_root := rfl
      same_nodes := fun ref => mem_keys_normalize
      framed := fun ref node hnode => ⟨normalizeContent profile ref node.contentProperties, by
        show (normalizeTree tree profile).nodes.get? ref = _
        rw [get_normalize, hnode]
        rfl⟩
      valid := fun cid => validateTree_iff.mpr (validateTreeResult_nil_iff.mpr (rooted_normalize hrooted))
      preserved := fun ref key hkey => by
        rw [contentOf_normalize]
        simp only [normalizeProperty_preserved hkey, Option.bind_fun_some]
      traced := fun ref key value hvalue => listed_iff_changed hkeys hvalue (hloose ref key value hvalue)
      known := fun e he => by
        obtain ⟨ref, node, key, value, hnode, hcontent, hlisted⟩ := mem_trace.mp he
        rcases normalizeProperty_listed profile ref key value with hsilent | ⟨rule, hone⟩
        · rw [hsilent] at hlisted
          simp at hlisted
        · rw [hone, List.mem_singleton] at hlisted
          subst hlisted
          exact ⟨value, contentOf_some.mpr ⟨node, hnode, hcontent⟩⟩
      once := trace_nodup tree profile
      reconciled := fun command hsource hprofile htarget => by
        subst hsource
        exact reconcile_normalized command hrooted (rooted_of_validateTree htarget) }

end Promise

/-! ## A value that is not equal to itself -/

def collapsing : NormalizationProfile where
  version := "v1"
  collapseWhitespace := true
  nonsemanticMetadataKeys := ["audit"]
  preservePropertyKeys := ["code"]
  version_ne := v1_ne
  no_conflict := by decide

/-- A document whose title has white space to spare. -/
def spacedTitle : CanonicalTree :=
  buildTree "r" [⟨"r", "map", none, [], [("audit", .str "x"), ("code", .str " A  B "), ("title", .str "  hello   world ")]⟩]

theorem normalizedOnce_spacedTitle : @NormalizedOnce asciiRuntime spacedTitle collapsing := by
  have hstrings : ∀ e ∈ spacedTitle.nodes.entries, ∀ p ∈ e.2.contentProperties.entries, ∃ s, p.2 = .str s := by
    intro e he
    rw [List.mem_singleton.mp he]
    intro p hp
    have hp : p = ("audit", .str "x") ∨ p = ("code", .str " A  B ") ∨ p = ("title", .str "  hello   world ") := by
      simpa [buildNode] using hp
    rcases hp with rfl | rfl | rfl <;> exact ⟨_, rfl⟩
  have hkeys : DistinctKeysIn spacedTitle := by
    intro e he p hp
    obtain ⟨s, hs⟩ := hstrings e he p hp
    rw [hs]
    simp [CanonicalValue.DistinctKeys]
  have hnone : ¬ HoldsLooseNan spacedTitle collapsing := by
    intro hloose
    obtain ⟨ref, node, key, value, hnode, hvalue, ⟨object, rfl⟩, -⟩ := hloose
    obtain ⟨s, hs⟩ := hstrings _ ((Dict.get?_eq_some _).mp hnode) _ ((Dict.get?_eq_some _).mp hvalue)
    cases hs
  exact (@normalizedOnce_iff spacedTitle asciiRuntime none (by decide +kernel) hkeys collapsing).mpr hnone

/-- A document with a ratio that is not a number. -/
def unsetRatio : CanonicalTree := buildTree "r" [⟨"r", "map", none, [], [("ratio", .float (.nan 0))]⟩]

/-- The ratio is kept, listed as changed, and listed again when the normalized tree is normalized. -/
theorem unsetRatio_listed : validateTree unsetRatio none = .ok () ∧ ¬ @NormalizedOnce asciiRuntime unsetRatio collapsing ∧
    (normalize unsetRatio collapsing).trace = [⟨"r", "ratio", "collapse-whitespace"⟩] ∧
    (normalize (normalize unsetRatio collapsing).tree collapsing).trace = [⟨"r", "ratio", "collapse-whitespace"⟩] := by
  have hagain : (normalize (normalize unsetRatio collapsing).tree collapsing).trace = [⟨"r", "ratio", "collapse-whitespace"⟩] := by
    decide +kernel
  refine ⟨by decide +kernel, fun h => ?_, by decide +kernel, hagain⟩
  rw [@NormalizedOnce.again asciiRuntime _ _ h] at hagain
  cases hagain

end Reconciliation.Reports
