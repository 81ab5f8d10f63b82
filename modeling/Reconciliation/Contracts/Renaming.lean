/-
  Reconciliation.Contracts.Renaming — a tree under other node references.

  Types, properties, parent links and the order of children are carried along; the order of
  the node map is not fixed. In a rearranged tree the children may come in another order too,
  below nodes of some types, as long as the list of their types stays (`RearrangedTree`); a renamed
  tree is one where they do not (`RenamedTree.rearranged`).
-/
import Mathlib.Data.Set.Function
import Reconciliation.Contracts.Tree

namespace Reconciliation.Contracts

/-- The same node, with the references it names renamed. -/
structure RenamedNode (f : NodeRef → NodeRef) (node node' : CanonicalNode) : Prop where
  type_eq : node'.nodeType = node.nodeType
  parent_eq : node'.parentRef = node.parentRef.map f
  children_eq : node'.childRefs = node.childRefs.map f
  identity_eq : node'.identityProperties = node.identityProperties
  content_eq : node'.contentProperties = node.contentProperties
  structural_eq : node'.structuralProperties = node.structuralProperties
  extension_eq : node'.extensionProperties = node.extensionProperties

/-- The same tree, its references renamed one to one. -/
structure RenamedTree (f : NodeRef → NodeRef) (tree tree' : CanonicalTree) : Prop where
  injective : Set.InjOn f {ref | ref ∈ tree.nodes.keys}
  onto : ∀ ref' ∈ tree'.nodes.keys, ∃ ref ∈ tree.nodes.keys, f ref = ref'
  root_eq : tree'.rootNodeRef = f tree.rootNodeRef
  node : ∀ ref node, tree.nodes.get? ref = some node →
    ∃ node', tree'.nodes.get? (f ref) = some node' ∧ RenamedNode f node node'

theorem renamedTree_refl (tree : CanonicalTree) : RenamedTree id tree tree where
  injective := Set.injOn_id _
  onto := fun ref href => ⟨ref, href, rfl⟩
  root_eq := rfl
  node := fun _ node hn => ⟨node, hn, ⟨rfl, by simp, by simp, rfl, rfl, rfl, rfl⟩⟩

/-- The same node but for the order of its children: their types come in the same order, and below
    fixed types they do. -/
structure RearrangedNode (f : NodeRef → NodeRef) (Fixed : String → Prop) (tree tree' : CanonicalTree)
    (node node' : CanonicalNode) : Prop where
  type_eq : node'.nodeType = node.nodeType
  parent_eq : node'.parentRef = node.parentRef.map f
  identity_eq : node'.identityProperties = node.identityProperties
  content_eq : node'.contentProperties = node.contentProperties
  children_fixed : Fixed node.nodeType → node'.childRefs = node.childRefs.map f
  child_types : List.Forall₂ (fun c c' => ∀ child, tree.nodes.get? c = some child →
    ∃ child', tree'.nodes.get? c' = some child' ∧ child'.nodeType = child.nodeType) node.childRefs node'.childRefs

/-- The same tree but for the order of children below types that are not fixed, its references renamed
    one to one. -/
structure RearrangedTree (f : NodeRef → NodeRef) (Fixed : String → Prop) (tree tree' : CanonicalTree) : Prop where
  injective : Set.InjOn f {ref | ref ∈ tree.nodes.keys}
  onto : ∀ ref' ∈ tree'.nodes.keys, ∃ ref ∈ tree.nodes.keys, f ref = ref'
  root_eq : tree'.rootNodeRef = f tree.rootNodeRef
  node : ∀ ref node, tree.nodes.get? ref = some node →
    ∃ node', tree'.nodes.get? (f ref) = some node' ∧ RearrangedNode f Fixed tree tree' node node'

namespace RearrangedTree
variable {f : NodeRef → NodeRef} {Fixed : String → Prop} {tree tree' : CanonicalTree} (h : RearrangedTree f Fixed tree tree')

include h

theorem mem_keys {ref : NodeRef} (href : ref ∈ tree.nodes.keys) : f ref ∈ tree'.nodes.keys := by
  obtain ⟨node, hn⟩ := tree.nodes.mem_keys.mp href
  obtain ⟨node', hn', -⟩ := h.node ref node hn
  exact tree'.nodes.mem_keys.mpr ⟨node', hn'⟩

theorem parentOf_eq {ref : NodeRef} (href : ref ∈ tree.nodes.keys) : tree'.parentOf (f ref) = (tree.parentOf ref).map f := by
  obtain ⟨node, hn⟩ := tree.nodes.mem_keys.mp href
  obtain ⟨node', hn', hr⟩ := h.node ref node hn
  rw [CanonicalTree.parentOf_eq hn, CanonicalTree.parentOf_eq hn', hr.parent_eq]

end RearrangedTree

/-- A renamed tree keeps the order of all children. -/
theorem RenamedTree.rearranged {f : NodeRef → NodeRef} {tree tree' : CanonicalTree} (h : RenamedTree f tree tree')
    (Fixed : String → Prop) : RearrangedTree f Fixed tree tree' where
  injective := h.injective
  onto := h.onto
  root_eq := h.root_eq
  node := by
    intro ref node hn
    obtain ⟨node', hn', hr⟩ := h.node ref node hn
    refine ⟨node', hn', hr.type_eq, hr.parent_eq, hr.identity_eq, hr.content_eq, fun _ => hr.children_eq, ?_⟩
    rw [hr.children_eq, List.forall₂_map_right_iff, List.forall₂_same]
    intro c _ child hc
    obtain ⟨child', hc', hrc⟩ := h.node c child hc
    exact ⟨child', hc', hrc.type_eq⟩

end Reconciliation.Contracts
