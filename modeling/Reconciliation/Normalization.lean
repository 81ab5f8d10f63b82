/-
  Reconciliation.Normalization — removal of configured insignificant variation.

  Only content properties change: excluded keys are dropped, and white space is collapsed
  in the values of keys that are not preserved. Everything else of the tree is the same
  (`get_normalize`), so parents, children and types are, and a rooted tree stays rooted
  (`rooted_normalize`).
-/
import Reconciliation.Validation.TreeValidator

namespace Reconciliation.Normalization

open Reconciliation.Base Reconciliation.Contracts Reconciliation.Validation

/-! ## Normalizing -/

structure NormalizationTraceEntry where
  nodeRef : String
  propertyKey : String
  rule : String
  deriving DecidableEq

structure NormalizedTree where
  tree : CanonicalTree
  trace : List NormalizationTraceEntry
  profileVersion : String

mutual

/-- Collapse white space in string values, to any depth. -/
def normalizeValue : CanonicalValue → CanonicalValue
  | .str s => .str (collapseWhitespace s)
  | .list items => .list (normalizeItems items)
  | .dict entries => .dict (normalizeEntries entries)
  | value => value

def normalizeItems : List CanonicalValue → List CanonicalValue
  | [] => []
  | v :: rest => normalizeValue v :: normalizeItems rest

def normalizeEntries : List (String × CanonicalValue) → List (String × CanonicalValue)
  | [] => []
  | (k, v) :: rest => (k, normalizeValue v) :: normalizeEntries rest

end

/-- One content property: what stays of it, and the trace of what was done. -/
def normalizeProperty (profile : NormalizationProfile) (nodeRef : NodeRef) (key : String) (value : CanonicalValue) :
    Option CanonicalValue × List NormalizationTraceEntry :=
  if key ∈ profile.nonsemanticMetadataKeys then (none, [⟨nodeRef, key, "exclude-nonsemantic"⟩])
  else if profile.collapseWhitespace ∧ key ∉ profile.preservePropertyKeys then
    let normalized := normalizeValue value
    (some normalized, if normalized.pyEq value then [] else [⟨nodeRef, key, "collapse-whitespace"⟩])
  else (some value, [])

def normalizeContent (profile : NormalizationProfile) (nodeRef : NodeRef) (content : Properties) : Properties :=
  content.sorted.filterMapVal fun key value => (normalizeProperty profile nodeRef key value).1

def normalizeNode (profile : NormalizationProfile) (nodeRef : NodeRef) (node : CanonicalNode) : CanonicalNode :=
  { node with contentProperties := normalizeContent profile nodeRef node.contentProperties }

theorem get_normalizedNodes (tree : CanonicalTree) (profile : NormalizationProfile) (ref : NodeRef) :
    (tree.nodes.sorted.mapVal (normalizeNode profile)).get? ref =
      (tree.nodes.get? ref).map (normalizeNode profile ref) := by
  rw [Dict.get?_mapVal, Dict.get?_sorted]

def normalizeTree (tree : CanonicalTree) (profile : NormalizationProfile) : CanonicalTree where
  rootNodeRef := tree.rootNodeRef
  nodes := tree.nodes.sorted.mapVal (normalizeNode profile)
  root_present := by
    obtain ⟨root, h, hp⟩ := tree.root_present
    exact ⟨normalizeNode profile _ root, by rw [get_normalizedNodes, h]; rfl, hp⟩
  keys_agree := by
    intro e he
    obtain ⟨e', he', rfl⟩ := List.mem_map.mp he
    exact tree.keys_agree e' ((Dict.mem_sorted _).mp he')

def normalize (tree : CanonicalTree) (profile : NormalizationProfile) : NormalizedTree where
  tree := normalizeTree tree profile
  trace := tree.nodes.sorted.entries.flatMap fun e =>
    e.2.contentProperties.sorted.entries.flatMap fun p => (normalizeProperty profile e.1 p.1 p.2).2
  profileVersion := profile.version

/-! ## What normalization leaves alone -/

section Frame
variable {tree : CanonicalTree} {profile : NormalizationProfile} {ref : NodeRef}

theorem get_normalize (tree : CanonicalTree) (profile : NormalizationProfile) (ref : NodeRef) :
    (normalizeTree tree profile).nodes.get? ref = (tree.nodes.get? ref).map (normalizeNode profile ref) :=
  get_normalizedNodes tree profile ref

@[simp] theorem parentOf_normalize : (normalizeTree tree profile).parentOf ref = tree.parentOf ref := by
  unfold CanonicalTree.parentOf
  rw [get_normalize]
  cases tree.nodes.get? ref <;> rfl

@[simp] theorem childrenOf_normalize : (normalizeTree tree profile).childrenOf ref = tree.childrenOf ref := by
  unfold CanonicalTree.childrenOf
  rw [get_normalize]
  cases tree.nodes.get? ref <;> rfl

@[simp] theorem mem_keys_normalize : ref ∈ (normalizeTree tree profile).nodes.keys ↔ ref ∈ tree.nodes.keys := by
  rw [Dict.mem_keys, Dict.mem_keys, get_normalize]
  cases tree.nodes.get? ref <;> simp

theorem rooted_normalize (h : Rooted tree) : Rooted (normalizeTree tree profile) := by
  have hparent : (normalizeTree tree profile).parentOf = tree.parentOf := funext fun ref => parentOf_normalize
  refine ⟨?_, ?_, ?_, ?_, ?_⟩
  · intro ref href c hc
    rw [mem_keys_normalize] at href ⊢
    rw [childrenOf_normalize] at hc
    exact h.child_known ref href c hc
  · intro ref href c hc
    rw [mem_keys_normalize] at href
    rw [childrenOf_normalize] at hc
    rw [parentOf_normalize]
    exact h.parent_of_child ref href c hc
  · intro ref href p hp
    rw [mem_keys_normalize] at href ⊢
    rw [parentOf_normalize] at hp
    rw [childrenOf_normalize]
    exact h.child_of_parent ref href p hp
  · intro ref href hp
    rw [mem_keys_normalize] at href
    rw [parentOf_normalize] at hp
    exact h.only_root ref href hp
  · intro ref href
    rw [mem_keys_normalize] at href
    rw [hparent]
    exact h.grounded ref href

end Frame

end Reconciliation.Normalization
