/-
  Reconciliation.Adapters.Lossless — the canonical tree of a value tells the value.

  `decode` reads a value back: the members of an object under the keys of its property nodes,
  the items of an array in order, a scalar from the content of the node that holds it. For every
  value with finite numbers the adapter returns a tree that is valid and that decodes to the value
  (`adapt_lossless`).
-/
import Reconciliation.Adapters.Layout
import Reconciliation.Builders

namespace Reconciliation.Adapters

open Reconciliation.Base Reconciliation.Base.Rose Reconciliation.Contracts Reconciliation.Validation
  Reconciliation.Builders

/-! ## Decoding -/

section Decoding
variable (tree : CanonicalTree) (decodeBelow : NodeRef → Option CanonicalValue)

/-- What a property or an item node holds: its content, or the container below it. -/
def decodeHeld (node : CanonicalNode) : Option CanonicalValue :=
  match node.childRefs with
  | [] => node.contentProperties.get? "value"
  | below :: _ => decodeBelow below

def decodeMember (ref : NodeRef) : Option (String × CanonicalValue) := do
  let node ← tree.nodes.get? ref
  match node.identityProperties.get? "key" with
  | some (.str key) => (decodeHeld decodeBelow node).map (key, ·)
  | _ => none

def decodeItem (ref : NodeRef) : Option CanonicalValue := do
  let node ← tree.nodes.get? ref
  decodeHeld decodeBelow node

/-- The value below a reference, when it is no deeper than the fuel. -/
def decodeValue : Nat → NodeRef → Option CanonicalValue
  | 0, _ => none
  | fuel + 1, ref => do
    let node ← tree.nodes.get? ref
    if node.nodeType = "data:object" then
      return .dict (← node.childRefs.mapM (decodeMember tree (decodeValue fuel)))
    else if node.nodeType = "data:array" then
      return .list (← node.childRefs.mapM (decodeItem tree (decodeValue fuel)))
    else node.contentProperties.get? "value"

def decode : Option CanonicalValue := do
  let root ← tree.nodes.get? tree.rootNodeRef
  let child ← root.childRefs.head?
  decodeValue tree tree.nodes.size child

end Decoding

/-! ## Reading back -/

section Reading
variable [PyRuntime] [KeyRuntime] {t : Rose NodeData} {tree : CanonicalTree}

omit [KeyRuntime] in
theorem scalarProperties_value (value : CanonicalValue) : (scalarProperties value).get? "value" = some value := by
  cases value with
  | none => rfl
  | _ =>
    rw [scalarProperties, Dict.get?_insert, if_neg (by decide)]
    · rfl
    · intro h
      cases h

omit [PyRuntime] [KeyRuntime] in
theorem scalarType_ne (value : CanonicalValue) :
    (scalarType value).val ≠ "data:object" ∧ (scalarType value).val ≠ "data:array" := by
  cases value <;> simp [scalarType]

/-- A holder is read back when what is below it is. -/
theorem decodeHeld_holder {decodeBelow : NodeRef → Option CanonicalValue} {data : Properties → NodeData}
    (hdata : ∀ content, (data content).contentProperties = content) {value : CanonicalValue} {path : String} {p : List Nat}
    (hs : t.descend p = some (holder data value (shape path value)))
    (hbelow : t.descend (p ++ [0]) = some (shape path value) → decodeBelow (outline "n" (p ++ [0])) = some value) :
    decodeHeld decodeBelow (nodeAt p (holder data value (shape path value))) = some value := by
  by_cases hcontainer : isContainer value = true
  · rw [holder, if_pos hcontainer] at hs ⊢
    have hchild : t.descend (p ++ [0]) = some (shape path value) := descend_snoc.mpr ⟨_, hs, rfl⟩
    rw [← hbelow hchild, outline_snoc, ← slotAt_ref]
    rfl
  · rw [holder, if_neg hcontainer]
    show (data (scalarProperties value)).contentProperties.get? "value" = some value
    rw [hdata, scalarProperties_value]

section Containers
variable (h : Represents t tree) {decodeBelow : NodeRef → Option CanonicalValue} {path : String} {p : List Nat}

include h

theorem decodeMember_shapes {entries : List (String × CanonicalValue)}
    (hs : t.descend p = some (shape path (.dict entries)))
    (hheld : ∀ i (hi : i < entries.length), t.descend (p ++ [i]) = some (memberShape path entries[i]) →
      decodeHeld decodeBelow (nodeAt (p ++ [i]) (memberShape path entries[i])) = some entries[i].2) :
    (nodeAt p (shape path (.dict entries))).childRefs.mapM (decodeMember tree decodeBelow) = some entries := by
  have hrefs : (nodeAt p (shape path (.dict entries))).childRefs = childRefs (outline "n" p) entries.length := by
    rw [← slotAt_ref, shape, ← length_memberShapes path entries]
    rfl
  rw [hrefs]
  refine mapM_numbered fun i hi => ?_
  have hmember : t.descend (p ++ [i]) = some (memberShape path entries[i]) := by
    refine descend_snoc.mpr ⟨_, hs, ?_⟩
    rw [shape, children, memberShapes_eq, List.getElem?_map, List.getElem?_eq_getElem hi]
    rfl
  have hkey : (nodeAt (p ++ [i]) (memberShape path entries[i])).identityProperties.get? "key" =
      some (.str entries[i].1) := by
    unfold memberShape holder
    split <;> rfl
  rw [show childRef (outline "n" p) i = outline "n" (p ++ [i]) from (outline_snoc "n" p i).symm, decodeMember,
    h.get hmember]
  simp only [Option.bind_eq_bind, Option.bind_some, hkey]
  exact congrArg (Option.map (entries[i].1, ·)) (hheld i hi hmember)

theorem decodeItem_shapes {items : List CanonicalValue} (hs : t.descend p = some (shape path (.list items)))
    (hheld : ∀ i (hi : i < items.length), t.descend (p ++ [i]) = some (itemShape path i items[i]) →
      decodeHeld decodeBelow (nodeAt (p ++ [i]) (itemShape path i items[i])) = some items[i]) :
    (nodeAt p (shape path (.list items))).childRefs.mapM (decodeItem tree decodeBelow) = some items := by
  have hrefs : (nodeAt p (shape path (.list items))).childRefs = childRefs (outline "n" p) items.length := by
    rw [← slotAt_ref, shape, ← length_itemShapes path items 0]
    rfl
  rw [hrefs]
  refine mapM_numbered fun i hi => ?_
  have hitem : t.descend (p ++ [i]) = some (itemShape path i items[i]) := by
    refine descend_snoc.mpr ⟨_, hs, ?_⟩
    rw [shape, children, itemShapes_get, List.getElem?_eq_getElem hi, Nat.zero_add]
    rfl
  rw [show childRef (outline "n" p) i = outline "n" (p ++ [i]) from (outline_snoc "n" p i).symm, decodeItem, h.get hitem]
  exact hheld i hi hitem

end Containers

/-- Every value is read back from the place of its shape. -/
theorem decodeValue_shape (h : Represents t tree) {fuel : Nat} {value : CanonicalValue} {path : String} {p : List Nat}
    (hs : t.descend p = some (shape path value)) (hfuel : (shape path value).size ≤ fuel) :
    decodeValue tree fuel (outline "n" p) = some value := by
  induction fuel generalizing value path p with
  | zero =>
    generalize shape path value = s at hfuel
    obtain ⟨a, cs⟩ := s
    rw [size] at hfuel
    omega
  | succ fuel ih =>
    -- what is held two levels down is small enough for the fuel that is left
    have hheld : ∀ {i} {data : Properties → NodeData} {v : CanonicalValue} {childPath : String},
        (∀ content, (data content).contentProperties = content) →
        t.descend (p ++ [i]) = some (holder data v (shape childPath v)) →
        decodeHeld (decodeValue tree fuel) (nodeAt (p ++ [i]) (holder data v (shape childPath v))) = some v := by
      intro i data v childPath hdata hmember
      refine decodeHeld_holder hdata hmember fun hv => ih hv ?_
      obtain ⟨parent, hparent, hget⟩ := descend_snoc.mp hmember
      obtain rfl := Option.some.inj (hs.symm.trans hparent)
      obtain ⟨middle, hmiddle, hget'⟩ := descend_snoc.mp hv
      obtain rfl := Option.some.inj (hmember.symm.trans hmiddle)
      have hmember_lt := size_child (List.mem_of_getElem? hget)
      have hvalue_lt := size_child (List.mem_of_getElem? hget')
      omega
    rw [decodeValue, h.get hs]
    by_cases hscalar : isContainer value = false
    · obtain ⟨hobject, harray⟩ := scalarType_ne value
      have htype : (nodeAt p (.node (scalarData value path) [])).nodeType = (scalarType value).val := rfl
      rw [shape_scalar hscalar]
      simp only [Option.bind_eq_bind, Option.bind_some, htype, hobject, harray, if_false]
      exact scalarProperties_value value
    · cases value with
      | dict entries =>
        have htype : (nodeAt p (shape path (.dict entries))).nodeType = "data:object" := by
          rw [shape]
          rfl
        have hmembers := decodeMember_shapes h hs fun i hi hmember =>
          @hheld i (fun content => propertyData entries[i].1 content (pathChild path (.inl entries[i].1))) entries[i].2 _
            (fun _ => rfl) hmember
        simp only [Option.bind_eq_bind, Option.bind_some, htype, if_true, hmembers]
        rfl
      | list items =>
        have htype : (nodeAt p (shape path (.list items))).nodeType = "data:array" := by
          rw [shape]
          rfl
        have hitems := decodeItem_shapes h hs fun i hi hitem =>
          @hheld i (fun content => itemData i content (pathChild path (.inr i))) items[i] _ (fun _ => rfl) hitem
        simp only [Option.bind_eq_bind, Option.bind_some, htype, hitems]
        rfl
      | none | bool | int | float | str => exact absurd rfl hscalar

end Reading

/-- The adapter returns a valid tree that decodes to the value. -/
theorem adapt_lossless [PyRuntime] [KeyRuntime] (adapter : DataTreeAdapter) (documentUri correlationId : Option String)
    {value : CanonicalValue} (hfinite : allFinite value = true) :
    ∃ tree, adapter.adapt value documentUri = .ok tree ∧ validateTree tree correlationId = .ok () ∧
      decode tree = some value := by
  obtain ⟨tree, hrun, h⟩ := adapt_represents adapter documentUri hfinite
  refine ⟨tree, hrun, validateTree_iff.mpr (validateTreeResult_nil_iff.mpr h.rooted), ?_⟩
  have hchild : (documentShape adapter value).descend [0] = some (shape "$" value) := rfl
  have hsize : (shape "$" value).size ≤ tree.nodes.size := by
    rw [h.size_eq]
    exact (size_child (t := documentShape adapter value) List.mem_cons_self).le
  rw [decode, h.root_eq, ← outline_nil "n", h.get rfl]
  exact decodeValue_shape h hchild hsize

/-- `str.isidentifier` of a string without characters above ASCII. -/
@[reducible] def asciiKeys : KeyRuntime where
  isIdentifier key :=
    match key.toList with
    | [] => false
    | c :: cs => (c.isAlpha || c = '_') && cs.all fun c => c.isAlphanum || c = '_'

/-- Empty containers, all four kinds of scalars, and members out of the order of their keys. -/
def assorted : CanonicalValue :=
  .dict [("b", .dict [("x y", .none), ("", .dict [])]), ("a", .list [.bool true, .int 1, .str "1", .list [], .dict []])]

theorem assorted_lossless : ∃ tree, @DataTreeAdapter.adapt asciiRuntime asciiKeys ⟨"json"⟩ assorted none = .ok tree ∧
    validateTree tree none = .ok () ∧ decode tree = some assorted :=
  @adapt_lossless asciiRuntime asciiKeys ⟨"json"⟩ none none assorted (by decide)

end Reconciliation.Adapters
