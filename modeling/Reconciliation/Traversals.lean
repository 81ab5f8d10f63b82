/-
  Reconciliation.Traversals — the walks over a validated tree, and the notions they compute.

  Neither walk keeps a set of the places it has seen: both rely on what the validator found
  through the parent links. Over a validated tree both end and pop no node twice; one returns
  the length of the longest chain of parent links, the other the nodes whose chain passes
  through the given one (`traversals_exact`).
-/
import Reconciliation.Builders
import Reconciliation.Metrics
import Reconciliation.Suppression
import Reconciliation.Validation.RootedTrees

namespace Reconciliation.Traversals

open Reconciliation.Base Reconciliation.Contracts Reconciliation.Validation
open Reconciliation.Metrics Reconciliation.Suppression Reconciliation.Builders

/-- From a node to its parent, to the parent of that, and as far up as the chain goes. -/
def ParentChain (tree : CanonicalTree) (ref : NodeRef) (chain : List NodeRef) : Prop :=
  ref ∈ tree.nodes.keys ∧ (ref :: chain).IsChain fun c p => tree.parentOf c = some p

section
variable {tree : CanonicalTree}

/-! ## Depth -/

/-- A tree is deeper than a limit exactly when a chain of parent links is longer. -/
theorem deeper_iff_chain (h : Rooted tree) {limit : Nat} :
    Deeper tree limit ↔ ∃ ref chain, ParentChain tree ref chain ∧ limit < (ref :: chain).length := by
  have hparent : ∀ p c, c ∈ tree.childrenOf p → tree.parentOf c = some p := fun _ _ hc => h.parent_of hc
  constructor
  · intro hdeep
    obtain ⟨route, ref, hroute, hlt⟩ := hdeep
    have href : ref ∈ tree.nodes.keys := by
      cases hroute with
      | here => exact tree.root_mem
      | down _ hc => exact h.child_known _ (mem_of_child hc) _ hc
    exact ⟨ref, route, ⟨href, hroute.chain_up hparent⟩, hlt⟩
  · intro hx
    obtain ⟨ref, chain, hchain, hlt⟩ := hx
    obtain ⟨route, hroute, -⟩ := h.one_route ref hchain.1
    have hle := (hroute.chain_prefix tree.parentOf_root hparent hchain.2).length_le
    rw [List.length_cons] at hlt
    exact ⟨route, ref, hroute, by omega⟩

/-- The depth is the length of the longest chain of parent links. -/
theorem treeDepth_longest (h : Rooted tree) {depth : Nat} (hrun : treeDepth tree = .ok depth) :
    IsGreatest {k | ∃ ref chain, ParentChain tree ref chain ∧ k = (ref :: chain).length} depth := by
  obtain ⟨depth', hrun', hdeeper⟩ := treeDepth_spec h
  obtain rfl := Except.ok.inj (hrun.symm.trans hrun')
  have hlonger : ∀ limit, limit < depth ↔
      ∃ ref chain, ParentChain tree ref chain ∧ limit < (ref :: chain).length := fun limit => by
    rw [hdeeper, deeper_iff_chain h]
  have hle : ∀ ref chain, ParentChain tree ref chain → (ref :: chain).length ≤ depth := by
    intro ref chain hchain
    exact Nat.le_of_not_lt fun hlt => (Nat.lt_irrefl depth) ((hlonger depth).mpr ⟨ref, chain, hchain, hlt⟩)
  constructor
  · cases depth with
    | zero =>
      have hroot : ParentChain tree tree.rootNodeRef [] := ⟨tree.root_mem, List.isChain_singleton _⟩
      exact absurd (hle _ _ hroot) (by simp)
    | succ n =>
      obtain ⟨ref, chain, hchain, hlt⟩ := (hlonger n).mp (Nat.lt_succ_self n)
      exact ⟨ref, chain, hchain, Nat.le_antisymm hlt (hle ref chain hchain)⟩
  · rintro k ⟨ref, chain, hchain, rfl⟩
    exact hle ref chain hchain

/-! ## Descendants -/

/-- What lies strictly below a node are the other nodes whose chain of parent links passes through it. -/
theorem descends_iff_chain (h : Rooted tree) {ref a : NodeRef} :
    Descends tree ref a ↔ a ≠ ref ∧ ∃ chain, ParentChain tree a chain ∧ ref ∈ chain := by
  have hup : Descends tree ref a ↔ Relation.TransGen (fun c p => tree.parentOf c = some p) a ref :=
    Relation.transGen_swap
  constructor
  · intro hd
    obtain ⟨chain, hchain, hin⟩ := exists_chain_iff_transGen.mpr (hup.mp hd)
    refine ⟨?_, chain, ⟨hd.mem, hchain⟩, hin⟩
    rintro rfl
    -- a loop of parent links would leave no finite chain above it
    exact not_acc_of_loop hd Relation.ReflTransGen.refl (h.grounded a hd.mem)
  · intro hx
    obtain ⟨-, chain, hchain, hin⟩ := hx
    exact hup.mpr (exists_chain_iff_transGen.mp ⟨chain, hchain.2, hin⟩)

/-- Over a tree that passes validation both walks end and pop no node twice; the one returns the
    length of the longest chain of parent links, the other the nodes whose chain passes through
    the node it started from. -/
theorem traversals_exact {cid : Option String} (h : validateTree tree cid = .ok ()) :
    (∃ visited depth, treeDepth tree = .ok depth ∧
      IsGreatest {k | ∃ ref chain, ParentChain tree ref chain ∧ k = (ref :: chain).length} depth ∧
      depth = visited.foldl (fun depth i => max depth i.2) 0 ∧
      Trail (opensDeeper tree) [(tree.rootNodeRef, 1)] visited ∧ (visited.map Prod.fst).Nodup) ∧
    ∀ ref ∈ tree.nodes.keys, ∃ visited affected, descendants tree ref = .ok affected ∧
      (∀ a, a ∈ affected ↔ a ≠ ref ∧ ∃ chain, ParentChain tree a chain ∧ ref ∈ chain) ∧
      affected = visited.foldl addRef [] ∧
      Trail (opensChildren tree) (tree.childrenOf ref).reverse visited ∧ visited.Nodup := by
  have hrooted : Rooted tree := validateTreeResult_nil_iff.mp (validateTree_iff.mp h)
  constructor
  · obtain ⟨visited, hrun, htrail, -, hnodup⟩ := treeDepth_visits hrooted
    exact ⟨visited, _, hrun, treeDepth_longest hrooted hrun, rfl, htrail, hnodup⟩
  · intro ref href
    obtain ⟨visited, hrun, htrail, -, hnodup⟩ := descendants_visits hrooted href
    obtain ⟨affected, hrun', hbelow⟩ := descendants_run hrooted href
    obtain rfl := Except.ok.inj (hrun.symm.trans hrun')
    exact ⟨visited, _, hrun, fun a => by rw [hbelow, descends_iff_chain hrooted], rfl, htrail,
      (List.nodup_cons.mp hnodup).2⟩

end

/-- A chapter with two sections, and an appendix beside it. -/
def nestedManual : CanonicalTree :=
  buildTree "manual" [⟨"manual", "map", none, [], []⟩, ⟨"chapter", "topic", some "manual", [], []⟩,
    ⟨"setup", "section", some "chapter", [], []⟩, ⟨"usage", "section", some "chapter", [], []⟩,
    ⟨"appendix", "topic", some "manual", [], []⟩]

theorem nestedManual_traversed : ∃ depth affected,
    treeDepth nestedManual = .ok depth ∧
      IsGreatest {k | ∃ ref chain, ParentChain nestedManual ref chain ∧ k = (ref :: chain).length} depth ∧
      descendants nestedManual "chapter" = .ok affected ∧
      ∀ a, a ∈ affected ↔ a ≠ "chapter" ∧ ∃ chain, ParentChain nestedManual a chain ∧ "chapter" ∈ chain := by
  have hvalid : validateTree nestedManual none = .ok () := by decide +kernel
  obtain ⟨⟨_, depth, hdepth, hgreatest, -⟩, hdescendants⟩ := traversals_exact hvalid
  obtain ⟨_, affected, hrun, hbelow, -⟩ := hdescendants "chapter" (by decide +kernel)
  exact ⟨depth, affected, hdepth, hgreatest, hrun, hbelow⟩

example : treeDepth nestedManual = .ok 3 ∧ descendants nestedManual "chapter" = .ok ["setup", "usage"] := by
  decide +kernel

end Reconciliation.Traversals
