/-
  Reconciliation.Adapters.DataTree — parsed JSON or YAML as a canonical tree.

  A container becomes a node of its own, with a property or an item node for every member; a
  scalar member is held by that node, and a scalar document by a node of its type. A node is
  built in its `Slot`, so its references pass the checks of the model.

  Object keys are strings by type. What the interpreter says of identifiers is `KeyRuntime`.
-/
import Reconciliation.Base.Rose
import Reconciliation.Contracts.Tree

namespace Reconciliation.Adapters

open Reconciliation.Base Reconciliation.Contracts

/-- `str.isidentifier`. -/
class KeyRuntime where
  isIdentifier : String → Bool

/-- What adaptation raises; `cause` is the error it was raised from, whose text is the detail. -/
structure DataTreeAdaptationError where
  message : String
  location : Option String := none
  context : List (String × String) := []
  cause : Option PyError := none
  deriving DecidableEq

/-! ## Scalars -/

def isContainer : CanonicalValue → Bool
  | .list _ | .dict _ => true
  | _ => false

/-- `type(value).__name__`. -/
def pythonType : CanonicalValue → String
  | .none => "NoneType"
  | .bool _ => "bool"
  | .int _ => "int"
  | .float _ => "float"
  | .str _ => "str"
  | .list _ => "list"
  | .dict _ => "dict"

def isFinite : PyFloat → Bool
  | .finite _ | .negZero => true
  | _ => false

abbrev NodeType := { name : String // name ≠ "" }

theorem null_ne : "data:null" ≠ "" := by decide

theorem boolean_ne : "data:boolean" ≠ "" := by decide

theorem string_ne : "data:string" ≠ "" := by decide

theorem number_ne : "data:number" ≠ "" := by decide

def nodeTypeForScalar : CanonicalValue → Except DataTreeAdaptationError NodeType
  | .none => .ok ⟨"data:null", null_ne⟩
  | .bool _ => .ok ⟨"data:boolean", boolean_ne⟩
  | .str _ => .ok ⟨"data:string", string_ne⟩
  | .int _ | .float _ => .ok ⟨"data:number", number_ne⟩
  | value =>
    .error { message := "parsed data contains an unsupported scalar value", context := [("python_type", pythonType value)] }

def canonicalScalar : CanonicalValue → Except DataTreeAdaptationError CanonicalValue
  | .float f => if isFinite f then .ok (.float f) else .error { message := "non-finite numeric values are not supported" }
  | value =>
    if isContainer value then
      .error { message := "parsed data contains a non-canonical scalar value", context := [("python_type", pythonType value)] }
    else .ok value

def property (key : String) (value : CanonicalValue) : Properties := ⟨[(key, value)], List.nodup_singleton key⟩

/-- The value of a scalar, and its text unless it is `None`. -/
def scalarContent [PyRuntime] (value : CanonicalValue) : Except DataTreeAdaptationError Properties := do
  let canonical ← canonicalScalar value
  let content := property "value" canonical
  match canonical with
  | .none => return content
  | canonical => return content.insert "text" (.str canonical.pyStr)

/-! ## References and paths -/

def childRef (ref : NodeRef) (index : Nat) : NodeRef := ref ++ "." ++ toString index

def escapeKey (key : String) : String :=
  String.ofList (key.toList.flatMap fun c => if c = '\\' ∨ c = '"' then ['\\', c] else [c])

def pathChild [KeyRuntime] (parentPath : String) : String ⊕ Nat → String
  | .inr index => parentPath ++ "[" ++ toString index ++ "]"
  | .inl key =>
    if KeyRuntime.isIdentifier key then parentPath ++ "." ++ key
    else parentPath ++ "[\"" ++ escapeKey key ++ "\"]"

/-- The reference of a node to be built, beside its parent's. -/
structure Slot where
  ref : NodeRef
  parentRef : Option NodeRef
  ref_ne : ref ≠ ""
  parent_ne : parentRef ≠ some ref

theorem childRef_ne (ref : NodeRef) (index : Nat) : childRef ref index ≠ "" ∧ ref ≠ childRef ref index := by
  have hlength : ref.length < (childRef ref index).length := by
    have hpoint : ".".length = 1 := rfl
    rw [childRef, String.length_append, String.length_append, hpoint]
    omega
  constructor
  · intro h
    rw [h] at hlength
    exact absurd hlength (by simp)
  · intro h
    exact absurd (congrArg String.length h) hlength.ne

theorem childRef_injective (ref : NodeRef) : Function.Injective (childRef ref) := by
  intro i j h
  exact toString_injective ((String.append_right_inj (ref ++ ".")).mp h)

namespace Slot

def root : Slot := ⟨"n", none, by decide, by decide⟩

/-- The slot of a child of the node in this one. -/
def child (slot : Slot) (index : Nat) : Slot :=
  ⟨childRef slot.ref index, some slot.ref, (childRef_ne slot.ref index).1, fun h =>
    (childRef_ne slot.ref index).2 (Option.some.inj h)⟩

end Slot

/-! ## Nodes -/

/-- What the adapter sets of a node besides its references. -/
structure NodeData where
  nodeType : NodeType
  identityProperties : Properties := Dict.empty
  contentProperties : Properties := Dict.empty
  structuralProperties : Properties := Dict.empty
  xpath : String

def childRefs (ref : NodeRef) (count : Nat) : List NodeRef := (List.range count).map (childRef ref)

/-- The node of a slot, with `count` children. -/
def Slot.node (slot : Slot) (data : NodeData) (count : Nat) : CanonicalNode where
  nodeRef := slot.ref
  nodeType := data.nodeType.val
  parentRef := slot.parentRef
  childRefs := childRefs slot.ref count
  identityProperties := data.identityProperties
  contentProperties := data.contentProperties
  structuralProperties := data.structuralProperties
  extensionProperties := Dict.empty
  sourceLocation := some ⟨some data.xpath⟩
  nodeRef_ne := slot.ref_ne
  nodeType_ne := data.nodeType.property
  childRefs_nodup := List.nodup_range.map (childRef_injective slot.ref)
  not_own_parent := slot.parent_ne
  not_own_child := by
    intro h
    obtain ⟨i, -, hi⟩ := List.mem_map.mp h
    exact (childRef_ne slot.ref i).2 hi.symm

def documentData (sourceFormat : String) : NodeData where
  nodeType := ⟨"data:document", by decide⟩
  structuralProperties := property "format" (.str sourceFormat)
  xpath := "$"

def objectData (path : String) : NodeData where
  nodeType := ⟨"data:object", by decide⟩
  xpath := path

def arrayData (path : String) : NodeData where
  nodeType := ⟨"data:array", by decide⟩
  xpath := path

def propertyData (key : String) (content : Properties) (path : String) : NodeData where
  nodeType := ⟨"data:property", by decide⟩
  identityProperties := property "key" (.str key)
  contentProperties := content
  structuralProperties := property "key" (.str key)
  xpath := path

def itemData (index : Nat) (content : Properties) (path : String) : NodeData where
  nodeType := ⟨"data:item", by decide⟩
  contentProperties := content
  structuralProperties := property "index" (.int index)
  xpath := path

/-! ## Building -/

abbrev Nodes := Dict NodeRef CanonicalNode

section Building
variable [PyRuntime] [KeyRuntime]

mutual

def buildValue : CanonicalValue → Slot → String → Nodes → Except DataTreeAdaptationError Nodes
  | .dict entries, slot, path, nodes =>
    buildMembers entries slot 0 path (nodes.insert slot.ref (slot.node (objectData path) entries.length))
  | .list items, slot, path, nodes =>
    buildItems items slot 0 path (nodes.insert slot.ref (slot.node (arrayData path) items.length))
  | value, slot, path, nodes => do
    let nodeType ← nodeTypeForScalar value
    let content ← scalarContent value
    return nodes.insert slot.ref (slot.node { nodeType, contentProperties := content, xpath := path } 0)

/-- The loop over the members of an object. -/
def buildMembers : List (String × CanonicalValue) → Slot → Nat → String → Nodes → Except DataTreeAdaptationError Nodes
  | [], _, _, _, nodes => .ok nodes
  | (key, childValue) :: rest, slot, index, path, nodes => do
    let propertySlot := slot.child index
    let childPath := pathChild path (.inl key)
    if isContainer childValue then
      let nodes := nodes.insert propertySlot.ref (propertySlot.node (propertyData key Dict.empty childPath) 1)
      let nodes ← buildValue childValue (propertySlot.child 0) childPath nodes
      buildMembers rest slot (index + 1) path nodes
    else
      let content ← scalarContent childValue
      let nodes := nodes.insert propertySlot.ref (propertySlot.node (propertyData key content childPath) 0)
      buildMembers rest slot (index + 1) path nodes

/-- The loop over the items of an array. -/
def buildItems : List CanonicalValue → Slot → Nat → String → Nodes → Except DataTreeAdaptationError Nodes
  | [], _, _, _, nodes => .ok nodes
  | childValue :: rest, slot, index, path, nodes => do
    let itemSlot := slot.child index
    let childPath := pathChild path (.inr index)
    if isContainer childValue then
      let nodes := nodes.insert itemSlot.ref (itemSlot.node (itemData index Dict.empty childPath) 1)
      let nodes ← buildValue childValue (itemSlot.child 0) childPath nodes
      buildItems rest slot (index + 1) path nodes
    else
      let content ← scalarContent childValue
      let nodes := nodes.insert itemSlot.ref (itemSlot.node (itemData index content childPath) 0)
      buildItems rest slot (index + 1) path nodes

end

/-- The checks of the tree model. -/
def canonicalTree (rootNodeRef : NodeRef) (nodes : Nodes) : Except PyError CanonicalTree :=
  if nodes.entries = [] then
    .error (.validationError "CanonicalTree" [.text "canonical tree must contain at least the root node"])
  else
    match hroot : nodes.get? rootNodeRef with
    | none =>
      .error (.validationError "CanonicalTree" [.text "root_node_ref ", .quoted rootNodeRef, .text " is not present in nodes"])
    | some root =>
      if hparent : root.parentRef = none then
        match hkeys : nodes.entries.find? fun e => e.1 ≠ e.2.nodeRef with
        | some e =>
          .error (.validationError "CanonicalTree"
            [.text "node map key ", .quoted e.1, .text " does not match node_ref ", .quoted e.2.nodeRef])
        | none => .ok ⟨rootNodeRef, nodes, ⟨root, hroot, hparent⟩, by simpa using List.find?_eq_none.mp hkeys⟩
      else .error (.validationError "CanonicalTree" [.text "root node must not have a parent (REQ-169)"])

structure DataTreeAdapter where
  sourceFormat : String

def DataTreeAdapter.adapt (adapter : DataTreeAdapter) (value : CanonicalValue) (documentUri : Option String) :
    Except DataTreeAdaptationError CanonicalTree := do
  let root := Slot.root
  let nodes := Dict.empty.insert root.ref (root.node (documentData adapter.sourceFormat) 1)
  let nodes ← buildValue value (root.child 0) "$" nodes
  match canonicalTree root.ref nodes with
  | .ok tree => .ok tree
  | .error cause =>
    .error { message := "failed to adapt parsed data into a canonical tree", location := documentUri, cause }

end Building

end Reconciliation.Adapters
