/-
  Reconciliation.Contracts.Alike — trees that hold related nodes under the same references.

  The node maps may list their entries in any order; sorted by reference they correspond
  entry by entry (`Alike.sorted`), and a computation that treats related nodes alike takes
  the same course on both trees (`Alike.bind_congr`).
-/
import Reconciliation.Contracts.Tree

namespace Reconciliation.Contracts

open Reconciliation.Base

/-- The same root, and related nodes under the same references, in any order. -/
structure Alike (R : CanonicalNode → CanonicalNode → Prop) (tree tree' : CanonicalTree) : Prop where
  root : tree.rootNodeRef = tree'.rootNodeRef
  nodes : ∃ entries, tree.nodes.entries.Perm entries ∧
    List.Forall₂ (fun e e' => e.1 = e'.1 ∧ R e.2 e'.2) entries tree'.nodes.entries

/-- Two nodes of one type with the same links. -/
structure SameLinks (node node' : CanonicalNode) : Prop where
  type_eq : node.nodeType = node'.nodeType
  parent_eq : node.parentRef = node'.parentRef
  children_eq : node.childRefs = node'.childRefs

namespace Alike
variable {R R' : CanonicalNode → CanonicalNode → Prop} {tree tree' : CanonicalTree} (h : Alike R tree tree')

include h

theorem mono (hR : ∀ a b, R a b → R' a b) : Alike R' tree tree' := by
  obtain ⟨entries, hperm, hnodes⟩ := h.nodes
  exact ⟨h.root, entries, hperm, hnodes.imp fun _ _ he => ⟨he.1, hR _ _ he.2⟩⟩

theorem sorted : List.Forall₂ (fun e e' => e.1 = e'.1 ∧ R e.2 e'.2) tree.nodes.sorted.entries tree'.nodes.sorted.entries := by
  obtain ⟨entries, hperm, hnodes⟩ := h.nodes
  have hsorted : tree.nodes.sorted.entries = sortedBy Prod.fst entries :=
    sortedBy_eq_of_perm Prod.fst (fun _ ha _ hb hk => List.inj_on_of_nodup_map tree.nodes.nodup ha hb hk) hperm
  rw [hsorted]
  exact forall₂_sortedBy (fun _ _ he => he.1) hnodes

theorem size_eq : tree.nodes.size = tree'.nodes.size := by
  obtain ⟨entries, hperm, hnodes⟩ := h.nodes
  exact hperm.length_eq.trans hnodes.length_eq

theorem keys_eq : tree.nodes.sorted.keys = tree'.nodes.sorted.keys :=
  map_eq_of_forall₂ (h.sorted.imp fun _ _ he => he.1)

theorem mem_keys (ref : NodeRef) : ref ∈ tree.nodes.keys ↔ ref ∈ tree'.nodes.keys := by
  rw [← Dict.mem_keys_sorted, h.keys_eq, Dict.mem_keys_sorted]

/-- A reference is unknown to both trees, or names related nodes. -/
theorem get (ref : NodeRef) : Option.Rel R (tree.nodes.get? ref) (tree'.nodes.get? ref) := by
  have hsome : ∀ a, tree.nodes.get? ref = some a → ∃ b, tree'.nodes.get? ref = some b ∧ R a b := by
    intro a ha
    obtain ⟨⟨ref', b⟩, hb, rfl, hab⟩ :=
      Outcome.right_of_mem_left h.sorted ((Dict.mem_sorted _).mpr (tree.nodes.get?_eq_some.mp ha))
    exact ⟨b, tree'.nodes.get?_eq_some.mpr ((Dict.mem_sorted _).mp hb), hab⟩
  cases ha : tree.nodes.get? ref with
  | some a =>
    obtain ⟨b, hb, hab⟩ := hsome a ha
    rw [hb]
    exact .some hab
  | none =>
    cases hb : tree'.nodes.get? ref with
    | none => exact .none
    | some b =>
      obtain ⟨⟨ref', a⟩, ha', rfl, -⟩ :=
        Outcome.left_of_mem_right h.sorted ((Dict.mem_sorted _).mpr (tree'.nodes.get?_eq_some.mp hb))
      rw [tree.nodes.get?_eq_some.mpr ((Dict.mem_sorted _).mp ha')] at ha
      cases ha

/-- A computation that treats related nodes alike takes the same course on both trees. -/
theorem bind_congr {β : Type} {f f' : CanonicalNode → Except PyError β} (hf : ∀ a b, R a b → f a = f' b) (ref : NodeRef) :
    (tree.node ref >>= f) = (tree'.node ref >>= f') := by
  unfold CanonicalTree.node
  have hget := h.get ref
  cases ha : tree.nodes.get? ref with
  | none =>
    rw [ha] at hget
    cases hb : tree'.nodes.get? ref with
    | none => rfl
    | some b =>
      rw [hb] at hget
      cases hget
  | some a =>
    rw [ha] at hget
    cases hb : tree'.nodes.get? ref with
    | none =>
      rw [hb] at hget
      cases hget
    | some b =>
      rw [hb] at hget
      cases hget with
      | some hab => exact hf a b hab

theorem map_congr {β : Type} {f f' : CanonicalNode → β} (hf : ∀ a b, R a b → f a = f' b) (ref : NodeRef) :
    (tree.node ref).map f = (tree'.node ref).map f' := by
  have hbind : (tree.node ref >>= fun a => .ok (f a)) = (tree'.node ref >>= fun b => .ok (f' b)) :=
    h.bind_congr (fun a b hab => congrArg Except.ok (hf a b hab)) ref
  revert hbind
  cases tree.node ref <;> cases tree'.node ref <;> exact id

end Alike

section Links
variable {tree tree' : CanonicalTree} (h : Alike SameLinks tree tree')

include h

theorem Alike.parentOf_eq : tree.parentOf = tree'.parentOf := by
  funext ref
  unfold CanonicalTree.parentOf
  have hget := h.get ref
  revert hget
  generalize tree.nodes.get? ref = a
  generalize tree'.nodes.get? ref = b
  intro hget
  cases hget with
  | none => rfl
  | some hab => exact hab.parent_eq

theorem Alike.childrenOf_eq : tree.childrenOf = tree'.childrenOf := by
  funext ref
  unfold CanonicalTree.childrenOf
  have hget := h.get ref
  revert hget
  generalize tree.nodes.get? ref = a
  generalize tree'.nodes.get? ref = b
  intro hget
  cases hget with
  | none => rfl
  | some hab => exact hab.children_eq

end Links

end Reconciliation.Contracts
