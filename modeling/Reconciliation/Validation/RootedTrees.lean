/-
  Reconciliation.Validation.RootedTrees — what the tree validator accepts.

  `IsTree` says what a containment tree is without mentioning a walk: references resolve,
  the two kinds of links are inverse, the root alone has no parent, and exactly one route
  of child links leads from it to each node. `Malformed` lists the ways a graph misses it.
  The validator checks links one by one and walks up from every node; it accepts exactly
  the trees and rejects exactly the malformed graphs (`validateTreeResult_accepts`).
-/
import Reconciliation.Validation.TreeValidator

namespace Reconciliation.Validation

open Reconciliation.Base Reconciliation.Contracts

/-- A containment tree, by routes of child links. -/
structure IsTree (tree : CanonicalTree) : Prop where
  child_resolves : ∀ ref ∈ tree.nodes.keys, ∀ c ∈ tree.childrenOf ref, c ∈ tree.nodes.keys
  parent_resolves : ∀ ref ∈ tree.nodes.keys, ∀ p, tree.parentOf ref = some p → p ∈ tree.nodes.keys
  inverse : ∀ p ∈ tree.nodes.keys, ∀ c ∈ tree.nodes.keys, c ∈ tree.childrenOf p ↔ tree.parentOf c = some p
  only_root : ∀ ref ∈ tree.nodes.keys, tree.parentOf ref = none ↔ ref = tree.rootNodeRef
  one_route : ∀ ref ∈ tree.nodes.keys, ∃! route, Route tree.childrenOf tree.rootNodeRef route ref

/-- `p` lists `c` among its children. -/
def Contains (tree : CanonicalTree) (p c : NodeRef) : Prop := c ∈ tree.childrenOf p

/-- The ways a graph of nodes is not a containment tree. -/
inductive Malformed (tree : CanonicalTree) : Prop
  | danglingChild {ref c : NodeRef} : ref ∈ tree.nodes.keys → c ∈ tree.childrenOf ref → c ∉ tree.nodes.keys →
      Malformed tree
  | danglingParent {ref p : NodeRef} : ref ∈ tree.nodes.keys → tree.parentOf ref = some p → p ∉ tree.nodes.keys →
      Malformed tree
  /-- A child that does not point back. -/
  | downOnly {ref c : NodeRef} : ref ∈ tree.nodes.keys → c ∈ tree.childrenOf ref → tree.parentOf c ≠ some ref →
      Malformed tree
  /-- A node its parent does not list. -/
  | upOnly {ref p : NodeRef} : ref ∈ tree.nodes.keys → tree.parentOf ref = some p → ref ∉ tree.childrenOf p →
      Malformed tree
  | secondRoot {ref : NodeRef} : ref ∈ tree.nodes.keys → tree.parentOf ref = none → ref ≠ tree.rootNodeRef →
      Malformed tree
  | shared {p q c : NodeRef} : p ≠ q → c ∈ tree.childrenOf p → c ∈ tree.childrenOf q → Malformed tree
  | cycle {ref : NodeRef} : Relation.TransGen (Contains tree) ref ref → Malformed tree

section
variable {tree : CanonicalTree}

theorem mem_of_child {p c : NodeRef} (h : c ∈ tree.childrenOf p) : p ∈ tree.nodes.keys := by
  unfold CanonicalTree.childrenOf at h
  cases hn : tree.nodes.get? p with
  | none => simp [hn] at h
  | some node => exact tree.nodes.mem_keys.mpr ⟨node, hn⟩

theorem Rooted.parent_of {p c : NodeRef} (h : Rooted tree) (hc : c ∈ tree.childrenOf p) : tree.parentOf c = some p :=
  h.parent_of_child p (mem_of_child hc) c hc

/-- In a rooted tree one route leads to each node. -/
theorem Rooted.one_route (h : Rooted tree) (ref : NodeRef) (href : ref ∈ tree.nodes.keys) :
    ∃! route, Route tree.childrenOf tree.rootNodeRef route ref := by
  have hsome : ∃ route, Route tree.childrenOf tree.rootNodeRef route ref := by
    refine h.induction_down (P := fun ref => ∃ route, Route tree.childrenOf tree.rootNodeRef route ref)
      ⟨[], Route.here⟩ ?_ ref href
    intro p _ c hc hp
    obtain ⟨route, hroute⟩ := hp
    exact ⟨p :: route, hroute.down hc⟩
  obtain ⟨route, hroute⟩ := hsome
  have htop : ∀ p, tree.rootNodeRef ∉ tree.childrenOf p := fun p hc => by
    have hp := h.parent_of hc
    rw [tree.parentOf_root] at hp
    cases hp
  exact ⟨route, hroute, fun other hother => hother.unique htop (fun _ _ hc => h.parent_of hc) hroute⟩

theorem rooted_iff_isTree : Rooted tree ↔ IsTree tree := by
  constructor
  · intro h
    refine ⟨h.child_known, fun ref href p hp => (h.child_of_parent ref href p hp).1,
      fun p hp _ _ => h.mem_children_iff hp, ?_, h.one_route⟩
    intro ref href
    constructor
    · exact h.only_root ref href
    · intro he
      rw [he]
      exact tree.parentOf_root
  · intro h
    have hparent : ∀ p c, c ∈ tree.childrenOf p → tree.parentOf c = some p := fun p c hc =>
      (h.inverse p (mem_of_child hc) c (h.child_resolves p (mem_of_child hc) c hc)).mp hc
    refine ⟨h.child_resolves, fun p _ c hc => hparent p c hc, ?_, fun ref href => (h.only_root ref href).mp, ?_⟩
    · intro ref href p hp
      have hknown := h.parent_resolves ref href p hp
      exact ⟨hknown, (h.inverse p hknown ref href).mpr hp⟩
    · intro ref href
      obtain ⟨route, hroute, -⟩ := h.one_route ref href
      exact hroute.grounded tree.parentOf_root hparent

/-- Where the links agree, a loop of child links is a loop of parent links. -/
theorem follows_of_contains (hparent : ∀ p c, c ∈ tree.childrenOf p → tree.parentOf c = some p) {a b : NodeRef}
    (h : Relation.TransGen (Contains tree) a b) : Relation.TransGen (Follows tree.parentOf) a b :=
  Relation.TransGen.mono (fun p c hc => hparent p c hc) a b h

theorem Rooted.not_malformed (h : Rooted tree) : ¬ Malformed tree := by
  intro hbad
  cases hbad with
  | danglingChild href hc hnot => exact hnot (h.child_known _ href _ hc)
  | danglingParent href hp hnot => exact hnot (h.child_of_parent _ href _ hp).1
  | downOnly href hc hne => exact hne (h.parent_of hc)
  | upOnly href hp hnot => exact hnot (h.child_of_parent _ href _ hp).2
  | secondRoot href hp hne => exact hne (h.only_root _ href hp)
  | shared hne hp hq => exact hne (Option.some.inj ((h.parent_of hp).symm.trans (h.parent_of hq)))
  | @cycle ref hloop =>
    have hup := follows_of_contains (fun _ _ hc => h.parent_of hc) hloop
    obtain ⟨c, hc, -⟩ := Relation.TransGen.head'_iff.mp hloop
    exact not_acc_of_loop hup Relation.ReflTransGen.refl (h.grounded ref (mem_of_child hc))

/-- A graph that is not malformed is rooted: an unending walk would come back, and the
    loop of parents it runs into would be a containment cycle. -/
theorem rooted_of_not_malformed (h : ¬ Malformed tree) : Rooted tree := by
  have hparent : ∀ ref ∈ tree.nodes.keys, ∀ p, tree.parentOf ref = some p →
      p ∈ tree.nodes.keys ∧ ref ∈ tree.childrenOf p := by
    intro ref href p hp
    constructor
    · by_contra hnot
      exact h (.danglingParent href hp hnot)
    · by_contra hnot
      exact h (.upOnly href hp hnot)
  refine ⟨?_, ?_, hparent, ?_, ?_⟩
  · intro ref href c hc
    by_contra hnot
    exact h (.danglingChild href hc hnot)
  · intro ref href c hc
    by_contra hne
    exact h (.downOnly href hc hne)
  · intro ref href hp
    by_contra hne
    exact h (.secondRoot href hp hne)
  · intro ref href
    obtain ⟨back, hrun⟩ := chase_parents tree ref
    refine (chase_ends_iff hrun).mp ?_
    cases back with
    | false => rfl
    | true =>
      obtain ⟨b, hloop, -⟩ := chase_loops (by simp) hrun
      have hdown : Relation.TransGen (Contains tree) b b :=
        Relation.TransGen.mono (fun p c hc => (hparent c (parentOf_mem hc) p hc).2) b b hloop
      exact absurd (Malformed.cycle hdown) h

/-- Validation ends on every graph of nodes; it finds nothing exactly in the containment
    trees and something exactly in the malformed graphs. -/
theorem validateTreeResult_accepts (tree : CanonicalTree) :
    ∃ violations, validateTreeResult tree = .ok violations ∧
      (violations = [] ↔ IsTree tree) ∧ (violations ≠ [] ↔ Malformed tree) := by
  obtain ⟨violations, hrun⟩ := validateTreeResult_ok tree
  have hvalid : violations = [] ↔ Rooted tree := by
    rw [← validateTreeResult_nil_iff, hrun, Except.ok.injEq]
  refine ⟨violations, hrun, hvalid.trans rooted_iff_isTree, ?_⟩
  rw [ne_eq, hvalid]
  constructor
  · intro hnot
    by_contra hgood
    exact hnot (rooted_of_not_malformed hgood)
  · intro hbad hrooted
    exact hrooted.not_malformed hbad

end

end Reconciliation.Validation
