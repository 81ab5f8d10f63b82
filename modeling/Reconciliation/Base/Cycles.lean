/-
  Reconciliation.Base.Cycles — sets a depth-first search is done with.

  A settled set is closed under the edges and no cycle goes through it. A node whose
  successors are all settled may be added (`Settled.insert`): a cycle through it would pass one
  of them and come back, so the node would be in the set. Once every node with a successor is
  settled there is no cycle at all (`Settled.acyclic_of_sources`).
-/
import Mathlib

namespace Reconciliation.Base

variable {α : Type*} {R : α → α → Prop} {settled : Set α}

structure Settled (R : α → α → Prop) (settled : Set α) : Prop where
  closed : ∀ a b, a ∈ settled → R a b → b ∈ settled
  acyclic : ∀ a ∈ settled, ¬ Relation.TransGen R a a

namespace Settled

theorem empty : Settled R ∅ := ⟨by simp, by simp⟩

theorem reachable (h : Settled R settled) {a b : α} (ha : a ∈ settled) (hab : Relation.ReflTransGen R a b) : b ∈ settled := by
  induction hab with
  | refl => exact ha
  | tail _ hbc ih => exact h.closed _ _ ih hbc

theorem insert (h : Settled R settled) (node : α) (hnode : ∀ next, R node next → next ∈ settled) :
    Settled R (Set.insert node settled) where
  closed := by
    intro a b ha hab
    rcases ha with rfl | ha
    · exact Or.inr (hnode b hab)
    · exact Or.inr (h.closed a b ha hab)
  acyclic := by
    intro a ha hcycle
    rcases ha with rfl | ha
    · obtain ⟨next, hnext, hback⟩ := Relation.TransGen.head'_iff.mp hcycle
      exact h.acyclic a (h.reachable (hnode next hnext) hback) hcycle
    · exact h.acyclic a ha hcycle

theorem acyclic_of_sources (h : Settled R settled) (hsources : ∀ a b, R a b → a ∈ settled) (a : α) :
    ¬ Relation.TransGen R a a := by
  intro hcycle
  obtain ⟨next, hnext, -⟩ := Relation.TransGen.head'_iff.mp hcycle
  exact h.acyclic a (hsources a next hnext) hcycle

end Settled

end Reconciliation.Base
