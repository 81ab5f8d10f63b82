/-
  Reconciliation.Benchmark.Generators — the synthetic trees of the benchmark, of every size.

  The wide, the repetitive and the edited trees are fans: a root with a row of leaves, which
  differ in what the generator writes of each (`Fan`). A fan is rooted and normalization leaves
  it as it is.
-/
import Reconciliation.Adapters.Layout
import Reconciliation.Engine
import Reconciliation.Validation.RootedTrees

namespace Reconciliation.Benchmark

open Reconciliation.Base Reconciliation.Contracts Reconciliation.Validation Reconciliation.Normalization
  Reconciliation.Adapters

/-! ## Nodes -/

/-- The generators set no location, so the path of the data is dropped. -/
def generated (slot : Slot) (data : NodeData) (count : Nat) : CanonicalNode :=
  { slot.node data count with sourceLocation := none }

theorem map_type_ne : "map" ≠ "" := by decide

theorem topicref_type_ne : "topicref" ≠ "" := by decide

theorem item_type_ne : "item" ≠ "" := by decide

def mapData : NodeData where
  nodeType := ⟨"map", map_type_ne⟩
  xpath := ""

def topicrefData (id : String) : NodeData where
  nodeType := ⟨"topicref", topicref_type_ne⟩
  identityProperties := property "id" (.str id)
  xpath := ""

def sameData : NodeData where
  nodeType := ⟨"item", item_type_ne⟩
  contentProperties := property "t" (.str "same")
  xpath := ""

/-- The entry of the root. -/
def rootEntry (count : Nat) : NodeRef × CanonicalNode := ("n", generated Slot.root mapData count)

/-- The entry of the child with the index. -/
def leafEntry (index : Nat) (data : NodeData) : NodeRef × CanonicalNode :=
  (childRef "n" index, generated (Slot.root.child index) data 0)

/-! ## Generators -/

/-- `_tree` over a dict that was filled in this order. -/
def tree (entries : List (NodeRef × CanonicalNode)) : Except PyError CanonicalTree := canonicalTree "n" (Dict.ofPairs entries)

def wideTree (n : Nat) : Except PyError CanonicalTree :=
  tree (rootEntry n :: (List.range n).map fun i => leafEntry i (topicrefData ("k" ++ toString i)))

def repetitiveTree (n : Nat) : Except PyError CanonicalTree :=
  tree (rootEntry n :: (List.range n).map fun i => leafEntry i sameData)

/-- The target keeps the even ids in order, drops the odd ones and adds new ones. -/
def highEditDensityPair (n : Nat) : Except PyError (CanonicalTree × CanonicalTree) := do
  let source ← wideTree n
  let kept := (List.range n).filter fun i => i % 2 = 0
  let keptEntries := kept.zipIdx.map fun e => leafEntry e.2 (topicrefData ("k" ++ toString e.1))
  let newEntries := (List.range' kept.length (n / 4)).map fun extra =>
    leafEntry extra (topicrefData ("new" ++ toString extra))
  let target ← tree (keptEntries ++ newEntries ++ [rootEntry (kept.length + n / 4)])
  return (source, target)

/-! ## Fans -/

/-- A root over a row of leaves. -/
structure Fan (tree : CanonicalTree) (count : Nat) (data : Nat → NodeData) : Prop where
  root_eq : tree.rootNodeRef = "n"
  get_root : tree.nodes.get? "n" = some (rootEntry count).2
  get_leaf : ∀ i < count, tree.nodes.get? (childRef "n" i) = some (leafEntry i (data i)).2
  only : ∀ ref ∈ tree.nodes.keys, ref = "n" ∨ ∃ i < count, ref = childRef "n" i

/-- The entries of a fan. -/
def fanEntries (count : Nat) (data : Nat → NodeData) : List (NodeRef × CanonicalNode) :=
  rootEntry count :: (List.range count).map fun i => leafEntry i (data i)

theorem mem_fanEntries {count : Nat} {data : Nat → NodeData} {e : NodeRef × CanonicalNode} :
    e ∈ fanEntries count data ↔ e = rootEntry count ∨ ∃ i < count, e = leafEntry i (data i) := by
  simp [fanEntries, eq_comm]

/-- In whatever order its entries come, a fan is a tree. -/
theorem tree_fan {count : Nat} {data : Nat → NodeData} {entries : List (NodeRef × CanonicalNode)}
    (h : entries.Perm (fanEntries count data)) : ∃ t, tree entries = .ok t ∧ Fan t count data := by
  have hmem : ∀ e, e ∈ entries ↔ e = rootEntry count ∨ ∃ i < count, e = leafEntry i (data i) := fun e =>
    h.mem_iff.trans mem_fanEntries
  have hroot : (Dict.ofPairs entries).get? "n" = some (rootEntry count).2 := by
    refine Dict.get?_ofPairs ((hmem _).mpr (Or.inl rfl)) fun w hw => ?_
    rcases (hmem _).mp hw with heq | ⟨i, -, heq⟩
    · exact congrArg Prod.snd heq
    · exact absurd (congrArg Prod.fst heq) (childRef_ne "n" i).2
  have hleaf : ∀ i < count, (Dict.ofPairs entries).get? (childRef "n" i) = some (leafEntry i (data i)).2 := by
    intro i hi
    refine Dict.get?_ofPairs ((hmem _).mpr (Or.inr ⟨i, hi, rfl⟩)) fun w hw => ?_
    rcases (hmem _).mp hw with heq | ⟨j, -, heq⟩
    · exact absurd (congrArg Prod.fst heq).symm (childRef_ne "n" i).2
    · obtain rfl := childRef_injective "n" (congrArg Prod.fst heq)
      exact congrArg Prod.snd heq
  have hentries : ∀ e ∈ (Dict.ofPairs entries).entries, e = rootEntry count ∨ ∃ i < count, e = leafEntry i (data i) :=
    fun e he => (hmem e).mp (Dict.mem_of_get?_ofPairs ((Dict.get?_eq_some _).mpr he))
  obtain ⟨t, ht, hrootRef, hnodes⟩ := canonicalTree_ok hroot rfl fun e he => by
    rcases hentries e he with rfl | ⟨i, -, rfl⟩
    · rfl
    · rfl
  refine ⟨t, ht, hrootRef, hnodes ▸ hroot, fun i hi => hnodes ▸ hleaf i hi, fun ref href => ?_⟩
  obtain ⟨node, hnode⟩ := (Dict.mem_keys _).mp href
  rcases hentries (ref, node) ((Dict.get?_eq_some _).mp (hnodes ▸ hnode)) with heq | ⟨i, hi, heq⟩
  · exact Or.inl (congrArg Prod.fst heq)
  · exact Or.inr ⟨i, hi, congrArg Prod.fst heq⟩

namespace Fan
variable {t : CanonicalTree} {count : Nat} {data : Nat → NodeData} (h : Fan t count data)

include h

theorem mem_keys {ref : NodeRef} : ref ∈ t.nodes.keys ↔ ref = "n" ∨ ∃ i < count, ref = childRef "n" i := by
  refine ⟨h.only ref, fun hx => ?_⟩
  rcases hx with rfl | ⟨i, hi, rfl⟩
  · exact (Dict.mem_keys _).mpr ⟨_, h.get_root⟩
  · exact (Dict.mem_keys _).mpr ⟨_, h.get_leaf i hi⟩

theorem parentOf_root : t.parentOf "n" = none := by
  rw [CanonicalTree.parentOf_eq h.get_root]
  rfl

theorem parentOf_leaf {i : Nat} (hi : i < count) : t.parentOf (childRef "n" i) = some "n" := by
  rw [CanonicalTree.parentOf_eq (h.get_leaf i hi)]
  rfl

theorem childrenOf_root : t.childrenOf "n" = childRefs "n" count := by
  rw [CanonicalTree.childrenOf_eq h.get_root]
  rfl

theorem childrenOf_leaf {i : Nat} (hi : i < count) : t.childrenOf (childRef "n" i) = [] := by
  rw [CanonicalTree.childrenOf_eq (h.get_leaf i hi)]
  rfl

/-- No child has children of its own, in the tree or not. -/
theorem childrenOf_below (i : Nat) {c : NodeRef} {cs : List NodeRef} : ¬ (c :: cs).Sublist (t.childrenOf (childRef "n" i)) := by
  intro hsub
  have hc := hsub.subset List.mem_cons_self
  rcases h.only _ (mem_of_child hc) with hroot | ⟨j, hj, href⟩
  · exact (childRef_ne "n" i).2 hroot.symm
  · rw [href, h.childrenOf_leaf hj] at hc
    cases hc

theorem parentOf_iff {ref p : NodeRef} : t.parentOf ref = some p ↔ p = "n" ∧ ∃ i < count, ref = childRef "n" i := by
  constructor
  · intro hp
    rcases h.only ref (parentOf_mem hp) with rfl | ⟨i, hi, rfl⟩
    · rw [h.parentOf_root] at hp
      cases hp
    · rw [h.parentOf_leaf hi] at hp
      exact ⟨(Option.some.inj hp).symm, i, hi, rfl⟩
  · intro hx
    obtain ⟨rfl, i, hi, rfl⟩ := hx
    exact h.parentOf_leaf hi

theorem mem_childrenOf_root {c : NodeRef} : c ∈ t.childrenOf "n" ↔ ∃ i < count, c = childRef "n" i := by
  rw [h.childrenOf_root, childRefs, List.mem_map]
  simp only [List.mem_range, eq_comm]

theorem rooted : Rooted t := by
  refine ⟨?_, ?_, ?_, ?_, ?_⟩
  · intro ref href c hc
    rcases h.only ref href with rfl | ⟨i, hi, rfl⟩
    · exact h.mem_keys.mpr (Or.inr (h.mem_childrenOf_root.mp hc))
    · rw [h.childrenOf_leaf hi] at hc
      cases hc
  · intro ref href c hc
    rcases h.only ref href with rfl | ⟨i, hi, rfl⟩
    · exact h.parentOf_iff.mpr ⟨rfl, h.mem_childrenOf_root.mp hc⟩
    · rw [h.childrenOf_leaf hi] at hc
      cases hc
  · intro ref _ p hp
    obtain ⟨rfl, hx⟩ := h.parentOf_iff.mp hp
    exact ⟨h.mem_keys.mpr (Or.inl rfl), h.mem_childrenOf_root.mpr hx⟩
  · intro ref href hp
    rcases h.only ref href with rfl | ⟨i, hi, rfl⟩
    · exact h.root_eq.symm
    · rw [h.parentOf_leaf hi] at hp
      cases hp
  · have hroot : Acc (Follows t.parentOf) "n" := Acc.intro _ fun q hq => by
      rw [Follows, h.parentOf_root] at hq
      cases hq
    intro ref href
    rcases h.only ref href with rfl | ⟨i, hi, rfl⟩
    · exact hroot
    · refine Acc.intro _ fun q hq => ?_
      obtain rfl := Option.some.inj ((h.parentOf_leaf hi).symm.trans hq)
      exact hroot

/-- Normalization leaves a fan as it is when it leaves the contents of the leaves. -/
theorem normalized {profile : NormalizationProfile}
    (hsteady : ∀ ref, ∀ i < count, normalizeContent profile ref (data i).contentProperties = (data i).contentProperties) :
    Fan (normalizeTree t profile) count data where
  root_eq := h.root_eq
  get_root := by
    rw [get_normalize, h.get_root]
    rfl
  get_leaf i hi := by
    rw [get_normalize, h.get_leaf i hi, Option.map_some]
    exact congrArg some (congrArg (fun content =>
      { (leafEntry i (data i)).2 with contentProperties := content }) (hsteady (childRef "n" i) i hi))
  only ref href := h.only ref (mem_keys_normalize.mp href)

end Fan

/-! ## The generated trees -/

theorem wideTree_fan (n : Nat) : ∃ t, wideTree n = .ok t ∧ Fan t n fun i => topicrefData ("k" ++ toString i) :=
  tree_fan (.refl _)

theorem repetitiveTree_fan (n : Nat) : ∃ t, repetitiveTree n = .ok t ∧ Fan t n fun _ => sameData := tree_fan (.refl _)

theorem evens (n : Nat) : ((List.range n).filter fun i => i % 2 = 0) = (List.range ((n + 1) / 2)).map (2 * ·) := by
  induction n with
  | zero => rfl
  | succ n ih =>
    rw [List.range_succ, List.filter_append, ih]
    by_cases heven : n % 2 = 0
    · have hhalf : (n + 1 + 1) / 2 = (n + 1) / 2 + 1 := by omega
      have hlast : 2 * ((n + 1) / 2) = n := by omega
      rw [hhalf, List.range_succ, List.map_append, List.map_singleton, hlast]
      simp [heven]
    · have hhalf : (n + 1 + 1) / 2 = (n + 1) / 2 := by omega
      rw [hhalf]
      simp [heven]

theorem zipIdx_map_range {α : Type} (f : Nat → α) (n : Nat) :
    ((List.range n).map f).zipIdx = (List.range n).map fun i => (f i, i) := by
  refine List.ext_getElem (by simp) fun i h h' => ?_
  simp

/-- What is written of the child of the edited tree: a kept id, or a new one. -/
def editedData (n i : Nat) : NodeData :=
  if i < (n + 1) / 2 then topicrefData ("k" ++ toString (2 * i)) else topicrefData ("new" ++ toString i)

/-- The pair is a wide tree and the fan of the kept and the new children. -/
theorem highEditDensityPair_fans (n : Nat) : ∃ source target, highEditDensityPair n = .ok (source, target) ∧
    Fan source n (fun i => topicrefData ("k" ++ toString i)) ∧ Fan target ((n + 1) / 2 + n / 4) (editedData n) := by
  obtain ⟨source, hsource, hwide⟩ := wideTree_fan n
  have hlength : ((List.range n).filter fun i => i % 2 = 0).length = (n + 1) / 2 := by
    rw [evens, List.length_map, List.length_range]
  have hkept : (((List.range n).filter fun i => i % 2 = 0).zipIdx.map fun e =>
      leafEntry e.2 (topicrefData ("k" ++ toString e.1))) =
        (List.range ((n + 1) / 2)).map fun i => leafEntry i (editedData n i) := by
    rw [evens, zipIdx_map_range, List.map_map]
    refine List.map_congr_left fun i hi => ?_
    simp only [Function.comp_apply, editedData, if_pos (List.mem_range.mp hi)]
  have hnew : ((List.range' ((n + 1) / 2) (n / 4)).map fun extra =>
      leafEntry extra (topicrefData ("new" ++ toString extra))) =
        (List.range' ((n + 1) / 2) (n / 4)).map fun i => leafEntry i (editedData n i) := by
    refine List.map_congr_left fun i hi => ?_
    have hle : ¬ i < (n + 1) / 2 := by
      have := (List.mem_range'_1.mp hi).1
      omega
    simp only [editedData, if_neg hle]
  have hrow : List.range ((n + 1) / 2 + n / 4) = List.range ((n + 1) / 2) ++ List.range' ((n + 1) / 2) (n / 4) := by
    rw [List.range_add, List.range'_eq_map_range]
  have hperm : (((List.range n).filter fun i => i % 2 = 0).zipIdx.map (fun e =>
      leafEntry e.2 (topicrefData ("k" ++ toString e.1))) ++
    (List.range' ((n + 1) / 2) (n / 4)).map (fun extra => leafEntry extra (topicrefData ("new" ++ toString extra))) ++
      [rootEntry ((n + 1) / 2 + n / 4)]).Perm (fanEntries ((n + 1) / 2 + n / 4) (editedData n)) := by
    rw [hkept, hnew, ← List.map_append, ← hrow]
    exact List.perm_append_comm
  obtain ⟨target, htarget, hfan⟩ := tree_fan hperm
  refine ⟨source, target, ?_, hwide, hfan⟩
  unfold highEditDensityPair
  simp only [hlength, Outcome.bind_ok, Outcome.pure_ok]
  exact ⟨source, hsource, target, htarget, rfl⟩

end Reconciliation.Benchmark
