/-
  Reconciliation.Evidence.Extractor — the identity signals of each node, and the persistent
  ids that occur more than once in a tree.

  Extraction looks up the children of each node, so over a rooted tree it always returns
  (`extractTree_total`); what it returns holds the evidence of every node and nothing else
  (`get_extractTree`).
-/
import Reconciliation.Normalization

namespace Reconciliation.Evidence

open Reconciliation.Base Reconciliation.Contracts Reconciliation.Validation

def defaultIdKeys : List String := ["id", "xml:id", "guid", "key"]

def defaultLabelKeys : List String := ["label", "title", "navtitle"]

/-! ## Evidence of one node -/

structure NodeEvidence where
  nodeRef : NodeRef
  nodeType : String
  persistentId : Option String
  label : Option String
  signature : String
  childSignature : String
  deriving DecidableEq

/-- The identity property of a key or, when that is absent or `None`, the content property. -/
def presentValue (node : CanonicalNode) (key : String) : Option CanonicalValue :=
  match node.identityProperties.get? key with
  | none | some .none => node.contentProperties.get? key
  | some value => some value

/-- The first of the keys that holds a non-empty string. -/
def firstPresent (node : CanonicalNode) : List String → Option String
  | [] => none
  | key :: rest =>
    match presentValue node key with
    | some (.str s) => if s ≠ "" then some s else firstPresent node rest
    | _ => firstPresent node rest

def signature [PyRuntime] (node : CanonicalNode) : String :=
  let identity := node.identityProperties.sorted.entries.filter fun e => e.1 ∉ defaultIdKeys
  let parts := ("type=" ++ node.nodeType) ::
    identity.map (fun e => "id:" ++ e.1 ++ "=" ++ e.2.repr) ++
    node.contentProperties.sorted.entries.map fun e => "content:" ++ e.1 ++ "=" ++ e.2.repr
  String.intercalate "|" parts

def childSignature (tree : CanonicalTree) (node : CanonicalNode) : Except PyError String := do
  let types ← node.childRefs.mapM fun c => (tree.node c).map CanonicalNode.nodeType
  return String.intercalate "," types

def nodeEvidence [PyRuntime] (tree : CanonicalTree) (nodeRef : NodeRef) (node : CanonicalNode) :
    Except PyError NodeEvidence := do
  let children ← childSignature tree node
  return {
    nodeRef
    nodeType := node.nodeType
    persistentId := firstPresent node defaultIdKeys
    label := firstPresent node defaultLabelKeys
    signature := signature node
    childSignature := children }

/-! ## Evidence of a tree -/

/-- Node evidence under the node's own reference. -/
abbrev KeyedEvidence := { evidence : Dict NodeRef NodeEvidence // ∀ e ∈ evidence.entries, e.2.nodeRef = e.1 }

structure EvidenceIndex where
  source : KeyedEvidence
  target : KeyedEvidence
  duplicateSourceIds : List String
  duplicateTargetIds : List String

theorem keyed_of_mapValM [PyRuntime] {tree : CanonicalTree} {nodes : Dict NodeRef CanonicalNode}
    {evidence : Dict NodeRef NodeEvidence} (h : nodes.mapValM (nodeEvidence tree) = .ok evidence) :
    ∀ e ∈ evidence.entries, e.2.nodeRef = e.1 := by
  intro e he
  obtain ⟨node, -, hn⟩ := (Dict.get?_mapValM h).mp (evidence.get?_eq_some.mpr he)
  unfold nodeEvidence at hn
  simp only [Outcome.bind_ok, Outcome.pure_ok] at hn
  obtain ⟨children, -, hn⟩ := hn
  rw [← hn]

def extractTree [PyRuntime] (tree : CanonicalTree) : Except PyError KeyedEvidence :=
  match h : tree.nodes.sorted.mapValM (nodeEvidence tree) with
  | .error e => .error e
  | .ok evidence => .ok ⟨evidence, keyed_of_mapValM h⟩

/-- The ids counted more than once. -/
def duplicateIds (evidence : KeyedEvidence) : List String :=
  let ids := evidence.val.values.filterMap NodeEvidence.persistentId
  (ids.filter fun i => 1 < ids.count i).dedup

def extract [PyRuntime] (source target : CanonicalTree) : Except PyError EvidenceIndex := do
  let sourceEvidence ← extractTree source
  let targetEvidence ← extractTree target
  return ⟨sourceEvidence, targetEvidence, duplicateIds sourceEvidence, duplicateIds targetEvidence⟩

/-! ## What extraction returns -/

section Extraction
variable [PyRuntime] {tree : CanonicalTree}

omit [PyRuntime] in
theorem childSignature_total (h : Rooted tree) {ref : NodeRef} {node : CanonicalNode}
    (hn : tree.nodes.get? ref = some node) : ∃ s, childSignature tree node = .ok s := by
  have href : ref ∈ tree.nodes.keys := tree.nodes.mem_keys.mpr ⟨node, hn⟩
  obtain ⟨types, htypes⟩ := Outcome.mapM_total (l := node.childRefs)
    (f := fun c => (tree.node c).map CanonicalNode.nodeType) fun c hc => by
      rw [← CanonicalTree.childrenOf_eq hn] at hc
      obtain ⟨child, hchild⟩ := tree.nodes.mem_keys.mp (h.child_known ref href c hc)
      exact ⟨child.nodeType, by simp [hchild]⟩
  exact ⟨_, by unfold childSignature; rw [htypes]; rfl⟩

theorem extractTree_ok {evidence : KeyedEvidence} :
    extractTree tree = .ok evidence ↔ tree.nodes.sorted.mapValM (nodeEvidence tree) = .ok evidence.val := by
  unfold extractTree
  split
  · rename_i e he
    simp [he]
  · rename_i ev hev
    simp [hev, Subtype.ext_iff]

theorem extractTree_total (h : Rooted tree) : ∃ evidence, extractTree tree = .ok evidence := by
  obtain ⟨evidence, hev⟩ := Dict.mapValM_total (d := tree.nodes.sorted) (f := nodeEvidence tree) fun e he => by
    obtain ⟨s, hs⟩ := childSignature_total h (tree.nodes.get?_eq_some.mpr ((Dict.mem_sorted _).mp he))
    exact ⟨_, by unfold nodeEvidence; rw [hs]; rfl⟩
  exact ⟨⟨evidence, keyed_of_mapValM hev⟩, extractTree_ok.mpr hev⟩

theorem extract_ok {source target : CanonicalTree} {evidence : EvidenceIndex} :
    extract source target = .ok evidence ↔ extractTree source = .ok evidence.source ∧
      extractTree target = .ok evidence.target ∧ evidence.duplicateSourceIds = duplicateIds evidence.source ∧
      evidence.duplicateTargetIds = duplicateIds evidence.target := by
  unfold extract
  simp only [Outcome.bind_ok, Outcome.pure_ok]
  constructor
  · intro h
    obtain ⟨s, hs, t, ht, rfl⟩ := h
    exact ⟨hs, ht, rfl, rfl⟩
  · intro h
    obtain ⟨hs, ht, hds, hdt⟩ := h
    exact ⟨_, hs, _, ht, by rw [← hds, ← hdt]⟩

theorem extract_total {source target : CanonicalTree} (hs : Rooted source) (ht : Rooted target) :
    ∃ evidence, extract source target = .ok evidence := by
  obtain ⟨sourceEvidence, hs⟩ := extractTree_total hs
  obtain ⟨targetEvidence, ht⟩ := extractTree_total ht
  exact ⟨⟨sourceEvidence, targetEvidence, duplicateIds sourceEvidence, duplicateIds targetEvidence⟩,
    extract_ok.mpr ⟨hs, ht, rfl, rfl⟩⟩

/-- A node's evidence is the evidence computed from it. -/
theorem get_extractTree {evidence : KeyedEvidence} (h : extractTree tree = .ok evidence) {ref : NodeRef}
    {e : NodeEvidence} :
    evidence.val.get? ref = some e ↔ ∃ node, tree.nodes.get? ref = some node ∧ nodeEvidence tree ref node = .ok e := by
  rw [Dict.get?_mapValM (extractTree_ok.mp h), Dict.get?_sorted]

theorem mem_keys_extractTree {evidence : KeyedEvidence} (h : extractTree tree = .ok evidence) {ref : NodeRef} :
    ref ∈ evidence.val.keys ↔ ref ∈ tree.nodes.keys := by
  rw [Dict.keys_mapValM (extractTree_ok.mp h), Dict.mem_keys, Dict.get?_sorted, ← Dict.mem_keys]

theorem nodeEvidence_fields {ref : NodeRef} {node : CanonicalNode} {e : NodeEvidence}
    (h : nodeEvidence tree ref node = .ok e) :
    e.nodeRef = ref ∧ e.nodeType = node.nodeType ∧ e.persistentId = firstPresent node defaultIdKeys ∧
      e.signature = signature node := by
  unfold nodeEvidence at h
  simp only [Outcome.bind_ok, Outcome.pure_ok] at h
  obtain ⟨children, -, rfl⟩ := h
  exact ⟨rfl, rfl, rfl, rfl⟩

theorem nodeEvidence_children {ref : NodeRef} {node : CanonicalNode} {e : NodeEvidence}
    (h : nodeEvidence tree ref node = .ok e) : childSignature tree node = .ok e.childSignature := by
  unfold nodeEvidence at h
  simp only [Outcome.bind_ok, Outcome.pure_ok] at h
  obtain ⟨children, hchildren, rfl⟩ := h
  exact hchildren

theorem nodeEvidence_label {ref : NodeRef} {node : CanonicalNode} {e : NodeEvidence}
    (h : nodeEvidence tree ref node = .ok e) : e.label = firstPresent node defaultLabelKeys := by
  unfold nodeEvidence at h
  simp only [Outcome.bind_ok, Outcome.pure_ok] at h
  obtain ⟨children, -, rfl⟩ := h
  rfl

omit [PyRuntime] in
theorem mem_duplicateIds {evidence : KeyedEvidence} {i : String} :
    i ∈ duplicateIds evidence ↔ 1 < (evidence.val.values.filterMap NodeEvidence.persistentId).count i := by
  unfold duplicateIds
  simp only [List.mem_dedup, List.mem_filter, decide_eq_true_eq, and_iff_right_iff_imp]
  intro h
  exact List.count_pos_iff.mp (by omega)

end Extraction

end Reconciliation.Evidence
