/-
  Reconciliation.Base.Comparison — two trees, some of whose nodes are matched.

  A `Hierarchy` is a rooted tree given by its parent links. A `Comparison` pairs two of
  them: a node has at most one match, and a pair left open shares no node with a match.
  Two parents are `Paired` when they are the roots or a match; below paired parents a node
  is `Aligned` with a child of the other, or `Alone` there. A match whose parents are not
  paired `Crosses`. Everything about the target side is the source side of `swap`.

  Proved:
  - a child of a paired parent is aligned or alone (`aligned_or_alone`);
  - a match below the roots is aligned or crosses (`Matched.aligned_or_crosses`);
  - when nothing is alone on either side, the roots and the matches are a bijection that
    preserves parents (`Exact.corresponds`, `Exact.parent_iff`).
-/
import Reconciliation.Base.Forest

namespace Reconciliation.Base

/-! ## Hierarchies -/

/-- A rooted tree by its parent links. -/
structure Hierarchy (α : Type) where
  root : α
  parent : α → Option α
  root_top : parent root = none
  parent_node : ∀ a p, parent a = some p → p = root ∨ ∃ p', parent p = some p'
  grounded : ∀ a, Acc (Follows parent) a

namespace Hierarchy
variable {α : Type} {H : Hierarchy α}

def Node (H : Hierarchy α) (a : α) : Prop := a = H.root ∨ ∃ p, H.parent a = some p

theorem node_root : H.Node H.root := Or.inl rfl

theorem node_of_parent {a p : α} (h : H.parent a = some p) : H.Node a := Or.inr ⟨p, h⟩

theorem ne_root_of_parent {a p : α} (h : H.parent a = some p) : a ≠ H.root := by
  rintro rfl
  rw [H.root_top] at h
  cases h

theorem parent_ne_self {a : α} : H.parent a ≠ some a := fun h =>
  not_acc_of_loop (.single h) .refl (H.grounded a)

theorem Node.parent_of_ne_root {a : α} (h : H.Node a) (hne : a ≠ H.root) : ∃ p, H.parent a = some p :=
  h.resolve_left hne

/-- Induction from the root down. -/
theorem induction_down {P : α → Prop} (hroot : P H.root) (hchild : ∀ p a, P p → H.parent a = some p → P a) :
    ∀ a, H.Node a → P a := by
  intro a ha
  induction H.grounded a with
  | intro a _ ih =>
    rcases ha with rfl | ⟨p, hp⟩
    · exact hroot
    · exact hchild p a (ih p hp (H.parent_node a p hp)) hp

end Hierarchy

/-! ## Comparisons -/

/-- Two trees, the pairs of nodes that are matched, and the pairs left open. -/
structure Comparison (α β : Type) where
  source : Hierarchy α
  target : Hierarchy β
  Matched : α → β → Prop
  Unsettled : α → β → Prop
  target_unique : ∀ {a b b'}, Matched a b → Matched a b' → b = b'
  source_unique : ∀ {a a' b}, Matched a b → Matched a' b → a = a'
  source_settled : ∀ {a b b'}, Unsettled a b → ¬ Matched a b'
  target_settled : ∀ {a a' b}, Unsettled a b → ¬ Matched a' b

namespace Comparison
variable {α β : Type}

/-- The same comparison from the other side. -/
def swap (D : Comparison α β) : Comparison β α where
  source := D.target
  target := D.source
  Matched b a := D.Matched a b
  Unsettled b a := D.Unsettled a b
  target_unique := D.source_unique
  source_unique := D.target_unique
  source_settled := D.target_settled
  target_settled := D.source_settled

section Relations
variable (D : Comparison α β)

/-- Two parents correspond: they are the roots, or a match. -/
def Paired (p : α) (q : β) : Prop := (p = D.source.root ∧ q = D.target.root) ∨ D.Matched p q

/-- A match below paired parents. -/
def Aligned (a : α) (b : β) : Prop :=
  D.Matched a b ∧ ∃ p q, D.source.parent a = some p ∧ D.target.parent b = some q ∧ D.Paired p q

/-- A match below parents that are not paired. -/
def Crosses (a : α) (b : β) : Prop :=
  D.Matched a b ∧ ∃ p q, D.source.parent a = some p ∧ D.target.parent b = some q ∧ ¬ D.Paired p q

/-- Below the paired parents `p` and `q`, the child `a` of `p` has no match. -/
def Alone (p : α) (q : β) (a : α) : Prop :=
  D.Paired p q ∧ D.source.parent a = some p ∧ ∀ b, D.target.parent b = some q → ¬ D.Matched a b

/-- The node is in a pair left open. -/
def Open (a : α) : Prop := ∃ b, D.Unsettled a b

/-- Below the parents `p` and `q` some child is open. -/
def Unresolved (p : α) (q : β) : Prop :=
  (∃ a, D.source.parent a = some p ∧ D.Open a) ∨ ∃ b, D.target.parent b = some q ∧ D.swap.Open b

/-- The roots, and the matches of the other nodes. -/
def Corresponds (a : α) (b : β) : Prop :=
  (a = D.source.root ∧ b = D.target.root) ∨ (a ≠ D.source.root ∧ D.Matched a b)

end Relations

section Basics
variable {D : Comparison α β} {a p : α} {b q : β}

theorem paired_swap : D.swap.Paired q p ↔ D.Paired p q := or_congr_left and_comm

theorem aligned_swap : D.swap.Aligned b a ↔ D.Aligned a b := by
  refine and_congr_right fun _ => ⟨fun h => ?_, fun h => ?_⟩
  · obtain ⟨q, p, hq, hp, hpq⟩ := h
    exact ⟨p, q, hp, hq, paired_swap.mp hpq⟩
  · obtain ⟨p, q, hp, hq, hpq⟩ := h
    exact ⟨q, p, hq, hp, paired_swap.mpr hpq⟩

theorem crosses_swap : D.swap.Crosses b a ↔ D.Crosses a b := by
  refine and_congr_right fun _ => ⟨fun h => ?_, fun h => ?_⟩
  · obtain ⟨q, p, hq, hp, hpq⟩ := h
    exact ⟨p, q, hp, hq, fun h => hpq (paired_swap.mpr h)⟩
  · obtain ⟨p, q, hp, hq, hpq⟩ := h
    exact ⟨q, p, hq, hp, fun h => hpq (paired_swap.mp h)⟩

theorem unresolved_swap : D.swap.Unresolved q p ↔ D.Unresolved p q := or_comm

theorem Open.not_matched (h : D.Open a) : ¬ D.Matched a b := by
  obtain ⟨b', h⟩ := h
  exact D.source_settled h

theorem Corresponds.paired (h : D.Corresponds a b) : D.Paired a b := h.imp_right And.right

/-- Below paired parents a child is aligned or alone. -/
theorem aligned_or_alone (hpq : D.Paired p q) (hp : D.source.parent a = some p) :
    (∃ b, D.Aligned a b) ∨ D.Alone p q a := by
  by_cases h : ∃ b, D.target.parent b = some q ∧ D.Matched a b
  · obtain ⟨b, hq, hm⟩ := h
    exact Or.inl ⟨b, hm, p, q, hp, hq, hpq⟩
  · exact Or.inr ⟨hpq, hp, fun b hq hm => h ⟨b, hq, hm⟩⟩

/-- A match of two nodes that have parents is aligned or crosses. -/
theorem aligned_or_crosses (hm : D.Matched a b) (hp : D.source.parent a = some p) (hq : D.target.parent b = some q) :
    D.Aligned a b ∨ D.Crosses a b := by
  by_cases hpq : D.Paired p q
  · exact Or.inl ⟨hm, p, q, hp, hq, hpq⟩
  · exact Or.inr ⟨hm, p, q, hp, hq, hpq⟩

theorem Aligned.not_crosses (h : D.Aligned a b) : ¬ D.Crosses a b := by
  obtain ⟨-, p, q, hp, hq, hpq⟩ := h
  intro hc
  obtain ⟨-, p', q', hp', hq', hpq'⟩ := hc
  obtain rfl := Option.some.inj (hp.symm.trans hp')
  obtain rfl := Option.some.inj (hq.symm.trans hq')
  exact hpq' hpq

end Basics

/-! ## Comparisons without a remainder -/

/-- Nothing is alone, on either side. -/
structure Exact (D : Comparison α β) : Prop where
  source_matched : ∀ p q a, ¬ D.Alone p q a
  target_matched : ∀ p q b, ¬ D.swap.Alone q p b

namespace Exact
variable {D : Comparison α β}

theorem swap (h : D.Exact) : D.swap.Exact := ⟨fun q p => h.target_matched p q, fun q p => h.source_matched p q⟩

/-- Every node has its counterpart, below the counterpart of its parent. -/
theorem exists_counterpart (h : D.Exact) : ∀ a, D.source.Node a → ∃ b, D.target.Node b ∧ D.Corresponds a b ∧
    ∀ p, D.source.parent a = some p → ∃ q, D.target.parent b = some q ∧ D.Corresponds p q := by
  refine D.source.induction_down ?_ ?_
  · refine ⟨D.target.root, Hierarchy.node_root, Or.inl ⟨rfl, rfl⟩, fun p hp => ?_⟩
    exact absurd rfl (Hierarchy.ne_root_of_parent hp)
  · intro p a ih hp
    obtain ⟨q, -, hpq, -⟩ := ih
    obtain ⟨b, hq, hm⟩ : ∃ b, D.target.parent b = some q ∧ D.Matched a b := by
      by_contra hno
      exact h.source_matched p q a ⟨hpq.paired, hp, fun b hq hm => hno ⟨b, hq, hm⟩⟩
    refine ⟨b, Hierarchy.node_of_parent hq, Or.inr ⟨Hierarchy.ne_root_of_parent hp, hm⟩, fun p' hp' => ?_⟩
    obtain rfl := Option.some.inj (hp.symm.trans hp')
    exact ⟨q, hq, hpq⟩

theorem target_unique {a : α} {b b' : β} (h : D.Corresponds a b) (h' : D.Corresponds a b') : b = b' := by
  rcases h with ⟨ha, rfl⟩ | ⟨ha, hm⟩
  · rcases h' with ⟨-, rfl⟩ | ⟨ha', -⟩
    · rfl
    · exact absurd ha ha'
  · rcases h' with ⟨ha', -⟩ | ⟨-, hm'⟩
    · exact absurd ha' ha
    · exact D.target_unique hm hm'

/-- The counterpart of a child is a child of the parent's counterpart. -/
theorem parent_of (h : D.Exact) {a p : α} {b : β} (hab : D.Corresponds a b) (hp : D.source.parent a = some p) :
    ∃ q, D.target.parent b = some q ∧ D.Corresponds p q := by
  obtain ⟨b', -, hab', hparent⟩ := h.exists_counterpart a (Hierarchy.node_of_parent hp)
  obtain rfl := target_unique hab hab'
  exact hparent p hp

/-- A node is the root exactly when its counterpart is. -/
theorem root_iff (h : D.Exact) {a : α} {b : β} (ha : D.source.Node a) (hab : D.Corresponds a b) :
    a = D.source.root ↔ b = D.target.root := by
  constructor
  · intro hroot
    exact target_unique hab (Or.inl ⟨hroot, rfl⟩)
  · intro hroot
    by_contra hne
    obtain ⟨p, hp⟩ := ha.parent_of_ne_root hne
    obtain ⟨q, hq, -⟩ := h.parent_of hab hp
    exact Hierarchy.ne_root_of_parent hq hroot

theorem corresponds_swap (h : D.Exact) {a : α} {b : β} (ha : D.source.Node a) (hab : D.Corresponds a b) :
    D.swap.Corresponds b a := by
  by_cases hroot : a = D.source.root
  · exact Or.inl ⟨(h.root_iff ha hab).mp hroot, hroot⟩
  · rcases hab with ⟨hr, -⟩ | ⟨hne, hm⟩
    · exact absurd hr hroot
    · exact Or.inr ⟨fun hb => hne ((h.root_iff ha (Or.inr ⟨hne, hm⟩)).mpr hb), hm⟩

/-- Every source node has exactly one counterpart, and every target node is the counterpart of exactly one. -/
theorem corresponds (h : D.Exact) :
    (∀ a, D.source.Node a → ∃! b, D.target.Node b ∧ D.Corresponds a b) ∧
      ∀ b, D.target.Node b → ∃! a, D.source.Node a ∧ D.Corresponds a b := by
  constructor
  · intro a ha
    obtain ⟨b, hb, hab, -⟩ := h.exists_counterpart a ha
    exact ⟨b, ⟨hb, hab⟩, fun b' hb' => target_unique hb'.2 hab⟩
  · intro b hb
    obtain ⟨a, ha, hba, -⟩ := h.swap.exists_counterpart b hb
    refine ⟨a, ⟨ha, h.swap.corresponds_swap hb hba⟩, fun a' ha' => ?_⟩
    exact target_unique (h.corresponds_swap ha'.1 ha'.2) hba

/-- Counterparts of parent and child are parent and child. -/
theorem parent_iff (h : D.Exact) {a p : α} {b q : β} (ha : D.source.Node a) (hp : D.source.Node p)
    (hab : D.Corresponds a b) (hpq : D.Corresponds p q) : D.source.parent a = some p ↔ D.target.parent b = some q := by
  constructor
  · intro hap
    obtain ⟨q', hq', hpq'⟩ := h.parent_of hab hap
    rwa [target_unique hpq hpq']
  · intro hbq
    obtain ⟨p', hp', hqp'⟩ := h.swap.parent_of (h.corresponds_swap ha hab) hbq
    rwa [target_unique (h.corresponds_swap hp hpq) hqp']

end Exact

end Comparison

end Reconciliation.Base
