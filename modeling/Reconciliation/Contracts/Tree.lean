/-
  Reconciliation.Contracts.Tree — canonical nodes and trees with the invariants their
  models check on construction, and the errors a run can end in.

  What needs the whole node map (references resolve, parents and children agree, no
  containment cycle) is checked by the validators, not here.
-/
import Reconciliation.Contracts.Values

namespace Reconciliation.Contracts

open Reconciliation.Base

abbrev NodeRef := String

instance lawfulPairs : LawfulBEq (NodeRef × NodeRef) := inferInstance

/-! ## Errors -/

/-- A piece of a message: literal text, or an argument the interpreter prints with `repr`. -/
inductive Piece where
  | text (s : String)
  | quoted (s : String)
  deriving DecidableEq

abbrev Message := List Piece

/-- A canonical-tree invariant violation. -/
structure TreeViolation where
  code : String
  message : Message
  nodeRef : Option NodeRef
  deriving DecidableEq

/-- A cross-profile violation. -/
structure ProfileViolation where
  code : String
  message : Message
  deriving DecidableEq

/-- The errors the engine documents. -/
inductive ReconciliationError where
  | invalidTree (message : Message) (correlationId : Option String) (violations : List TreeViolation)
  | invalidProfile (message : Message) (correlationId : Option String) (violations : List ProfileViolation)
  | resourceLimitExceeded (message : Message) (correlationId : Option String) (context : List (String × Nat))
  deriving DecidableEq

namespace ReconciliationError

def code : ReconciliationError → String
  | invalidTree .. => "INVALID_TREE"
  | invalidProfile .. => "INVALID_PROFILE"
  | resourceLimitExceeded .. => "RESOURCE_LIMIT_EXCEEDED"

end ReconciliationError

/-- What a run can raise, or fail to do: a documented error, a contract model's validation
    error, a lookup of an unknown key or index, a failed assertion, or no end at all. -/
inductive PyError where
  | documented (error : ReconciliationError)
  | validationError (model : String) (message : Message)
  | keyError (key : String)
  | indexError
  | assertionError
  | diverged
  deriving DecidableEq

/-! ## Nodes and trees -/

/-- Where a node stands in its document, as far as reports show it. -/
structure SourceLocation where
  xpath : Option String
  deriving DecidableEq

structure CanonicalNode where
  nodeRef : NodeRef
  nodeType : String
  parentRef : Option NodeRef
  childRefs : List NodeRef
  identityProperties : Properties
  contentProperties : Properties
  structuralProperties : Properties
  extensionProperties : Properties
  sourceLocation : Option SourceLocation := none
  nodeRef_ne : nodeRef ≠ ""
  nodeType_ne : nodeType ≠ ""
  childRefs_nodup : childRefs.Nodup
  not_own_parent : parentRef ≠ some nodeRef
  not_own_child : nodeRef ∉ childRefs

structure CanonicalTree where
  rootNodeRef : NodeRef
  nodes : Dict NodeRef CanonicalNode
  root_present : ∃ root, nodes.get? rootNodeRef = some root ∧ root.parentRef = none
  keys_agree : ∀ e ∈ nodes.entries, e.1 = e.2.nodeRef

namespace CanonicalTree

/-- `tree.nodes[ref]`. -/
def node (tree : CanonicalTree) (ref : NodeRef) : Except PyError CanonicalNode :=
  match tree.nodes.get? ref with
  | some node => .ok node
  | none => .error (.keyError ref)

/-- The parent a reference's node names. -/
def parentOf (tree : CanonicalTree) (ref : NodeRef) : Option NodeRef :=
  (tree.nodes.get? ref).bind CanonicalNode.parentRef

def childrenOf (tree : CanonicalTree) (ref : NodeRef) : List NodeRef :=
  ((tree.nodes.get? ref).map CanonicalNode.childRefs).getD []

variable {tree : CanonicalTree} {ref : NodeRef} {node : CanonicalNode}

@[simp] theorem node_ok : tree.node ref = .ok node ↔ tree.nodes.get? ref = some node := by
  unfold CanonicalTree.node
  cases tree.nodes.get? ref <;> simp

theorem nodeRef_of_get (h : tree.nodes.get? ref = some node) : node.nodeRef = ref :=
  (tree.keys_agree _ (tree.nodes.get?_eq_some.mp h)).symm

theorem ref_ne_empty (h : ref ∈ tree.nodes.keys) : ref ≠ "" := by
  obtain ⟨node, hn⟩ := (tree.nodes.mem_keys).mp h
  exact nodeRef_of_get hn ▸ node.nodeRef_ne

theorem root_mem (tree : CanonicalTree) : tree.rootNodeRef ∈ tree.nodes.keys := by
  obtain ⟨root, h, -⟩ := tree.root_present
  exact (tree.nodes.mem_keys).mpr ⟨root, h⟩

theorem parentOf_root (tree : CanonicalTree) : tree.parentOf tree.rootNodeRef = none := by
  obtain ⟨root, h, hp⟩ := tree.root_present
  rw [parentOf, h]
  exact hp

theorem parentOf_eq (h : tree.nodes.get? ref = some node) : tree.parentOf ref = node.parentRef := by
  rw [parentOf, h]
  rfl

theorem childrenOf_eq (h : tree.nodes.get? ref = some node) : tree.childrenOf ref = node.childRefs := by
  rw [childrenOf, h]
  rfl

end CanonicalTree

end Reconciliation.Contracts
