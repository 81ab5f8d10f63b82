/-
  Reconciliation.Adapters.ElementTrees — XML documents as canonical trees.

  An adapter takes some of the child elements of every element and makes a node of each
  (`Mapping`). What it builds is the layout of the `shape` of the document: a node for every
  element taken, in document order, named by its numbers (`build_placed`). So every document
  has a tree, which is valid and as deep as the longest way down through the elements taken
  (`adapt_shape`, `Represents.treeDepth_eq`). Two documents have trees with the same nodes, their
  source locations aside, exactly when they read alike (`Mapping.adapt_alike_iff`): comments and
  processing instructions, and the prefixes of names, are not read.

  The generic adapter takes every element. A document the parser lets pass becomes a valid tree
  with the node of each of its elements in document order, named by the place of the element, under
  the node of the element above (`xmlDocument_adapted`).
-/
import Reconciliation.Adapters.Elements
import Reconciliation.Adapters.Layout
import Reconciliation.Contracts.Alike
import Reconciliation.Traversals

namespace Reconciliation.Adapters

open Reconciliation.Base Reconciliation.Base.Rose Reconciliation.Contracts Reconciliation.Validation
  Reconciliation.Metrics Reconciliation.Traversals

/-! ## Building -/

structure DocumentAdaptationError where
  message : String
  location : Option String
  cause : PyError
  deriving DecidableEq

/-- What an adapter takes of an element's children, and the node it makes of an element. -/
structure Mapping where
  keeps : ElementData → Bool
  data : ElementData → List XmlNode → NodeData
  failure : String

namespace Mapping
variable (m : Mapping)

def takes : XmlNode → Bool
  | .element data _ => m.keeps data
  | .other .. => false

mutual

/-- `build`; it is called on elements only. -/
def build : XmlNode → Slot → Nodes → Nodes
  | .element data children, slot, nodes =>
    buildChildren children slot 0 (nodes.insert slot.ref (slot.node (m.data data children) (children.filter m.takes).length))
  | .other .., _, nodes => nodes

/-- The loop over the children taken, the next of which has the index. -/
def buildChildren : List XmlNode → Slot → Nat → Nodes → Nodes
  | [], _, _, nodes => nodes
  | child :: rest, slot, index, nodes =>
    if m.takes child then buildChildren rest slot (index + 1) (build child (slot.child index) nodes)
    else buildChildren rest slot index nodes

end

def adapt (root : Element) (documentUri : Option String) : Except DocumentAdaptationError CanonicalTree :=
  match canonicalTree Slot.root.ref (m.build (.element root.data root.children) Slot.root Dict.empty) with
  | .ok tree => .ok tree
  | .error cause => .error ⟨m.failure, documentUri, cause⟩

/-! ## Shapes -/

mutual

/-- The nodes an element becomes; anything else becomes none. -/
def shape : XmlNode → List (Rose NodeData)
  | .element data children => [.node (m.data data children) (shapes children)]
  | .other .. => []

def shapes : List XmlNode → List (Rose NodeData)
  | [] => []
  | child :: rest => if m.takes child then shape child ++ shapes rest else shapes rest

end

def documentShape (root : Element) : Rose NodeData := .node (m.data root.data root.children) (m.shapes root.children)

theorem length_shapes (children : List XmlNode) : (m.shapes children).length = (children.filter m.takes).length := by
  induction children with
  | nil => rw [shapes]; rfl
  | cons child rest ih =>
    rw [shapes, List.filter_cons]
    by_cases htakes : m.takes child = true
    · rw [if_pos htakes, if_pos htakes, List.length_append, ih, List.length_cons, Nat.add_comm]
      cases child with
      | element data children => rw [shape]; rfl
      | other kind text => cases htakes
    · rw [if_neg htakes, if_neg htakes, ih]

mutual

/-- Building an element adds the nodes of its shape, in document order. -/
theorem build_placed : ∀ (data : ElementData) (children : List XmlNode) (slot : Slot) (nodes : Nodes),
    Vacant nodes slot.ref → (m.build (.element data children) slot nodes).entries =
      nodes.entries ++ placed slot (.node (m.data data children) (m.shapes children))
  | data, children, slot, nodes, hvacant => by
    rw [build, buildChildren_placed children slot 0 _ (hvacant.insert _), Dict.entries_insert hvacant.not_mem, placed,
      length_shapes, List.append_assoc]
    rfl

theorem buildChildren_placed : ∀ (children : List XmlNode) (slot : Slot) (index : Nat) (nodes : Nodes),
    VacantFrom nodes slot.ref index → (m.buildChildren children slot index nodes).entries =
      nodes.entries ++ placedFrom slot index (m.shapes children)
  | [], slot, index, nodes, _ => by simp [buildChildren, shapes, placedFrom]
  | .element data children :: rest, slot, index, nodes, hvacant => by
    rw [buildChildren, shapes]
    by_cases htakes : m.takes (.element data children) = true
    · have hentries := build_placed data children (slot.child index) nodes (hvacant index (le_refl index))
      rw [if_pos htakes, if_pos htakes, buildChildren_placed rest slot (index + 1) _ (hvacant.placed hentries), hentries,
        shape, List.singleton_append, placedFrom, List.append_assoc]
    · rw [if_neg htakes, if_neg htakes, buildChildren_placed rest slot index nodes hvacant]
  | .other kind text :: rest, slot, index, nodes, hvacant => by
    have hother : m.takes (.other kind text) ≠ true := Bool.false_ne_true
    rw [buildChildren, shapes, if_neg hother, if_neg hother, buildChildren_placed rest slot index nodes hvacant]

end

end Mapping

/-! ## The tree of a shape -/

section Trees
variable {t u : Rose NodeData} {tree : CanonicalTree}

/-- A node map that is a layout makes a tree. -/
theorem canonicalTree_placed {nodes : Nodes} (hplaced : nodes.entries = placed Slot.root t) :
    ∃ tree, canonicalTree Slot.root.ref nodes = .ok tree ∧ tree.nodes = nodes ∧ Represents t tree := by
  have hget : ∀ ref node, nodes.get? ref = some node ↔
      ∃ p s, t.descend p = some s ∧ ref = outline "n" p ∧ node = nodeAt p s := by
    intro ref node
    rw [nodes.get?_eq_some, hplaced, mem_placed]
    simp only [Slot.follow_ref]
    exact Iff.rfl
  obtain ⟨tree, htree, hroot, hnodes⟩ := canonicalTree_ok ((hget "n" _).mpr ⟨[], _, rfl, rfl, rfl⟩) rfl fun e he => by
    obtain ⟨p, s, -, href, hnode⟩ := (hget e.1 e.2).mp (nodes.get?_eq_some.mpr he)
    rw [href, hnode]
    exact (slotAt_ref p).symm
  exact ⟨tree, htree, hnodes, hroot, hnodes ▸ hget, by rw [hnodes, Dict.size, hplaced, length_placed]⟩

/-- The node of a place, if the shape has it. -/
theorem Represents.get?_outline (h : Represents t tree) (p : List Nat) :
    tree.nodes.get? (outline "n" p) = (t.descend p).map (nodeAt p) := by
  cases hs : t.descend p with
  | some s => exact h.get hs
  | none =>
    rw [Option.map_none, Option.eq_none_iff_forall_not_mem]
    intro node hnode
    obtain ⟨q, s, hs', hplace, -⟩ := (h.nodes_iff _ _).mp hnode
    obtain rfl := outline_injective "n" hplace
    rw [hs] at hs'
    cases hs'

/-- The route to a place passes as many nodes as the place has numbers. -/
theorem Represents.route (h : Represents t tree) (p : List Nat) {s : Rose NodeData} (hs : t.descend p = some s) :
    ∃ route, Route tree.childrenOf tree.rootNodeRef route (outline "n" p) ∧ route.length = p.length := by
  induction p using List.reverseRecOn generalizing s with
  | nil =>
    refine ⟨[], ?_, rfl⟩
    rw [h.root_eq]
    exact .here
  | append_singleton p i ih =>
    obtain ⟨parent, hparent, hi⟩ := descend_snoc.mp hs
    obtain ⟨route, hroute, hlength⟩ := ih hparent
    refine ⟨outline "n" p :: route, .down hroute ((h.mem_childrenOf hparent).mpr ⟨i, ?_, rfl⟩), ?_⟩
    · exact (List.getElem?_eq_some_iff.mp hi).1
    · rw [List.length_cons, hlength, List.length_append, List.length_singleton]

/-- The tree of a shape is as deep as the shape is high. -/
theorem Represents.treeDepth_eq (h : Represents t tree) : treeDepth tree = .ok t.height := by
  have hrooted : Rooted tree := h.rooted
  obtain ⟨depth, hrun, hdeeper⟩ := treeDepth_spec hrooted
  have hheight : ∀ limit, limit < depth ↔ limit < t.height := by
    intro limit
    rw [hdeeper, lt_height_iff]
    constructor
    · intro hx
      obtain ⟨route, ref, hroute, hlt⟩ := hx
      have href : ref ∈ tree.nodes.keys := by
        cases hroute with
        | here => exact tree.root_mem
        | down _ hc => exact hrooted.child_known _ (mem_of_child hc) _ hc
      obtain ⟨p, s, hs, rfl⟩ := h.mem_keys.mp href
      obtain ⟨route', hroute', hlength⟩ := h.route p hs
      obtain rfl := (hrooted.one_route _ href).unique hroute hroute'
      exact ⟨p, s, hs, by omega⟩
    · intro hx
      obtain ⟨p, s, hs, hle⟩ := hx
      obtain ⟨route, hroute, hlength⟩ := h.route p hs
      exact ⟨route, _, hroute, by omega⟩
  rw [hrun, Nat.le_antisymm (Nat.le_of_not_lt fun hlt => Nat.lt_irrefl _ ((hheight _).mp hlt))
    (Nat.le_of_not_lt fun hlt => Nat.lt_irrefl _ ((hheight _).mpr hlt))]

end Trees

/-- Every document has a tree, that of its shape. -/
theorem Mapping.adapt_shape (m : Mapping) (root : Element) (documentUri : Option String) :
    ∃ tree, m.adapt root documentUri = .ok tree ∧ tree.nodes.entries = placed Slot.root (m.documentShape root) ∧
      Represents (m.documentShape root) tree := by
  have hempty : Vacant Dict.empty Slot.root.ref := fun k hk => absurd hk List.not_mem_nil
  have hplaced := m.build_placed root.data root.children Slot.root Dict.empty hempty
  obtain ⟨tree, htree, hnodes, hrepresents⟩ := @canonicalTree_placed (m.documentShape root) _ hplaced
  refine ⟨tree, ?_, by rw [hnodes]; exact hplaced, hrepresents⟩
  unfold Mapping.adapt
  rw [htree]

theorem Mapping.adapt_isSome (m : Mapping) (root : Element) (documentUri : Option String) :
    (m.adapt root documentUri).toOption.isSome = true := by
  obtain ⟨tree, htree, -⟩ := m.adapt_shape root documentUri
  rw [htree]
  rfl

/-- The tree an adapter returns. -/
def Mapping.tree (m : Mapping) (root : Element) (documentUri : Option String) : CanonicalTree :=
  (m.adapt root documentUri).toOption.get (m.adapt_isSome root documentUri)

theorem Mapping.adapt_eq (m : Mapping) (root : Element) (documentUri : Option String) :
    m.adapt root documentUri = .ok (m.tree root documentUri) := by
  obtain ⟨tree, htree, -⟩ := m.adapt_shape root documentUri
  unfold Mapping.tree
  simp only [htree]
  rfl

/-- One node of each layout in one slot, of related data. -/
def Laid (R : NodeData → NodeData → Prop) (e e' : NodeRef × CanonicalNode) : Prop :=
  ∃ (slot : Slot) (a b : NodeData) (count : Nat), R a b ∧ e = (slot.ref, slot.node a count) ∧
    e' = (slot.ref, slot.node b count)

section Similarity
variable {R : NodeData → NodeData → Prop}

mutual

theorem placed_similar : ∀ (slot : Slot) (t u : Rose NodeData), Similar R t u →
    List.Forall₂ (Laid R) (placed slot t) (placed slot u)
  | slot, .node a cs, .node b ds, h => by
    obtain ⟨hlabel, hchildren⟩ := similar_node.mp h
    rw [placed, placed, hchildren.length_eq]
    exact .cons ⟨slot, a, b, _, hlabel, rfl, rfl⟩ (placedFrom_similar slot 0 cs ds hchildren)

theorem placedFrom_similar : ∀ (slot : Slot) (index : Nat) (cs ds : List (Rose NodeData)), List.Forall₂ (Similar R) cs ds →
    List.Forall₂ (Laid R) (placedFrom slot index cs) (placedFrom slot index ds)
  | slot, index, [], _, .nil => by rw [placedFrom]; exact .nil
  | slot, index, c :: cs, _, @List.Forall₂.cons _ _ _ _ d _ ds hc hcs => by
    rw [placedFrom, placedFrom]
    exact List.rel_append (placed_similar (slot.child index) c d hc) (placedFrom_similar slot (index + 1) cs ds hcs)

end

/-- Documents of similar shapes have trees of one form, whose nodes are related as their data are. -/
theorem Mapping.adapt_alike {m m' : Mapping} {Q : CanonicalNode → CanonicalNode → Prop} {root root' : Element}
    (h : Similar R (m.documentShape root) (m'.documentShape root'))
    (hQ : ∀ (slot : Slot) a b count, R a b → Q (slot.node a count) (slot.node b count))
    (documentUri documentUri' : Option String) : ∃ tree tree', m.adapt root documentUri = .ok tree ∧
      m'.adapt root' documentUri' = .ok tree' ∧ Rooted tree ∧ Rooted tree' ∧ Alike Q tree tree' := by
  obtain ⟨tree, htree, hentries, hrepresents⟩ := m.adapt_shape root documentUri
  obtain ⟨tree', htree', hentries', hrepresents'⟩ := m'.adapt_shape root' documentUri'
  refine ⟨tree, tree', htree, htree', hrepresents.rooted, hrepresents'.rooted,
    hrepresents.root_eq.trans hrepresents'.root_eq.symm, tree.nodes.entries, List.Perm.refl _, ?_⟩
  rw [hentries, hentries']
  refine (placed_similar Slot.root _ _ h).imp fun e e' hlaid => ?_
  obtain ⟨slot, a, b, count, hab, rfl, rfl⟩ := hlaid
  exact ⟨rfl, hQ slot a b count hab⟩

end Similarity

/-! ## Documents that read alike -/

/-- The children taken of the one element correspond in order to those taken of the other, with related data. -/
inductive Corresponds (m : Mapping) (R : NodeData → NodeData → Prop) : List XmlNode → List XmlNode → Prop
  | nil : Corresponds m R [] []
  | left {c : XmlNode} {cs ds : List XmlNode} (hc : m.takes c = false) (h : Corresponds m R cs ds) :
      Corresponds m R (c :: cs) ds
  | right {d : XmlNode} {cs ds : List XmlNode} (hd : m.takes d = false) (h : Corresponds m R cs ds) :
      Corresponds m R cs (d :: ds)
  | element {a b : ElementData} {as bs cs ds : List XmlNode} (ha : m.keeps a = true) (hb : m.keeps b = true)
      (hdata : R (m.data a as) (m.data b bs)) (hbelow : Corresponds m R as bs) (h : Corresponds m R cs ds) :
      Corresponds m R (.element a as :: cs) (.element b bs :: ds)

section Correspondence
variable {m : Mapping} {R : NodeData → NodeData → Prop}

theorem Mapping.shapes_skip {c : XmlNode} (hc : m.takes c = false) (cs : List XmlNode) : m.shapes (c :: cs) = m.shapes cs := by
  rw [Mapping.shapes, if_neg (by rw [hc]; exact Bool.false_ne_true)]

theorem Mapping.shapes_take {a : ElementData} (ha : m.keeps a = true) (as cs : List XmlNode) :
    m.shapes (.element a as :: cs) = .node (m.data a as) (m.shapes as) :: m.shapes cs := by
  rw [Mapping.shapes, if_pos (show m.takes (.element a as) = true from ha), Mapping.shape, List.singleton_append]

theorem Corresponds.similar {cs ds : List XmlNode} (h : Corresponds m R cs ds) :
    List.Forall₂ (Similar R) (m.shapes cs) (m.shapes ds) := by
  induction h with
  | nil => rw [Mapping.shapes]; exact .nil
  | left hc _ ih => rwa [Mapping.shapes_skip hc]
  | right hd _ ih => rwa [Mapping.shapes_skip hd]
  | element ha hb hdata _ _ hbelow ih =>
    rw [Mapping.shapes_take ha, Mapping.shapes_take hb]
    exact .cons (similar_node.mpr ⟨hdata, hbelow⟩) ih

theorem corresponds_of_similar : ∀ (cs ds : List XmlNode),
    List.Forall₂ (Similar R) (m.shapes cs) (m.shapes ds) → Corresponds m R cs ds
  | [], [], _ => .nil
  | [], .other kind text :: ds, h => .right rfl (corresponds_of_similar [] ds h)
  | [], .element b bs :: ds, h => by
    by_cases hb : m.keeps b = true
    · rw [Mapping.shapes_take hb, Mapping.shapes] at h
      cases h
    · have hskip : m.takes (.element b bs) = false := Bool.not_eq_true _ ▸ hb
      rw [Mapping.shapes_skip hskip] at h
      exact .right hskip (corresponds_of_similar [] ds h)
  | .other kind text :: cs, ds, h => .left rfl (corresponds_of_similar cs ds h)
  | .element a as :: cs, ds, h => by
    by_cases ha : m.keeps a = true
    · match ds, h with
      | [], h =>
        rw [Mapping.shapes_take ha, Mapping.shapes] at h
        cases h
      | .other kind text :: ds, h => exact .right rfl (corresponds_of_similar (.element a as :: cs) ds h)
      | .element b bs :: ds, h =>
        by_cases hb : m.keeps b = true
        · rw [Mapping.shapes_take ha, Mapping.shapes_take hb, List.forall₂_cons, similar_node] at h
          exact .element ha hb h.1.1 (corresponds_of_similar as bs h.1.2) (corresponds_of_similar cs ds h.2)
        · have hskip : m.takes (.element b bs) = false := Bool.not_eq_true _ ▸ hb
          rw [Mapping.shapes_skip hskip] at h
          exact .right hskip (corresponds_of_similar (.element a as :: cs) ds h)
    · have hskip : m.takes (.element a as) = false := Bool.not_eq_true _ ▸ ha
      rw [Mapping.shapes_skip hskip] at h
      exact .left hskip (corresponds_of_similar cs ds h)
termination_by cs ds => sizeOf cs + sizeOf ds

theorem corresponds_iff {cs ds : List XmlNode} :
    Corresponds m R cs ds ↔ List.Forall₂ (Similar R) (m.shapes cs) (m.shapes ds) :=
  ⟨Corresponds.similar, corresponds_of_similar cs ds⟩

end Correspondence

/-! ## Trees of documents that read alike -/

/-- The same value at every key. -/
def SameProperties (properties properties' : Properties) : Prop := ∀ key, properties.get? key = properties'.get? key

/-- Two nodes to be, of one type and with the same properties. Where the elements stand is not looked at. -/
structure SameData (a b : NodeData) : Prop where
  type_eq : a.nodeType = b.nodeType
  identity : SameProperties a.identityProperties b.identityProperties
  content : SameProperties a.contentProperties b.contentProperties
  structural : SameProperties a.structuralProperties b.structuralProperties

/-- Two nodes that differ in their source locations alone. -/
structure SameNode (node node' : CanonicalNode) : Prop extends SameLinks node node' where
  identity : SameProperties node.identityProperties node'.identityProperties
  content : SameProperties node.contentProperties node'.contentProperties
  structural : SameProperties node.structuralProperties node'.structuralProperties
  extension : SameProperties node.extensionProperties node'.extensionProperties

theorem sameNode_slot {slot : Slot} {a b : NodeData} {count count' : Nat} :
    SameNode (slot.node a count) (slot.node b count') ↔ SameData a b ∧ count = count' := by
  constructor
  · intro h
    have hlength := congrArg List.length h.children_eq
    have hcount : count = count' := by simpa [Slot.node, childRefs] using hlength
    exact ⟨⟨Subtype.ext h.type_eq, h.identity, h.content, h.structural⟩, hcount⟩
  · rintro ⟨hdata, rfl⟩
    exact ⟨⟨congrArg Subtype.val hdata.type_eq, rfl, rfl⟩, hdata.identity, hdata.content, hdata.structural, fun _ => rfl⟩

/-- Trees that hold the same nodes are those of similar shapes. -/
theorem Represents.similar {t u : Rose NodeData} {tree tree' : CanonicalTree} (ht : Represents t tree)
    (hu : Represents u tree') (halike : Alike SameNode tree tree') : Similar SameData t u := by
  intro p
  have hnode := halike.get (outline "n" p)
  rw [ht.get?_outline, hu.get?_outline] at hnode
  cases hs : t.descend p with
  | none =>
    cases hs' : u.descend p with
    | none => exact .none
    | some s' =>
      rw [hs, hs'] at hnode
      cases hnode
  | some s =>
    cases hs' : u.descend p with
    | none =>
      rw [hs, hs'] at hnode
      cases hnode
    | some s' =>
      rw [hs, hs', Option.map_some, Option.map_some, Option.rel_some_some] at hnode
      exact .some (sameNode_slot.mp hnode)

/-- Two documents have trees with the same nodes exactly when they read alike. -/
theorem Mapping.adapt_alike_iff (m : Mapping) (root root' : Element) (documentUri documentUri' : Option String) :
    ∃ tree tree', m.adapt root documentUri = .ok tree ∧ m.adapt root' documentUri' = .ok tree' ∧
      (Alike SameNode tree tree' ↔ SameData (m.data root.data root.children) (m.data root'.data root'.children) ∧
        Corresponds m SameData root.children root'.children) := by
  obtain ⟨tree, htree, -, hrepresents⟩ := m.adapt_shape root documentUri
  obtain ⟨tree', htree', -, hrepresents'⟩ := m.adapt_shape root' documentUri'
  refine ⟨tree, tree', htree, htree', ?_⟩
  rw [corresponds_iff, ← similar_node]
  constructor
  · intro halike
    exact hrepresents.similar hrepresents' halike
  · intro hsimilar
    obtain ⟨made, made', hmade, hmade', -, -, halike⟩ := Mapping.adapt_alike (Q := SameNode) hsimilar
      (fun slot a b count hdata => sameNode_slot.mpr ⟨hdata, rfl⟩) documentUri documentUri'
    obtain rfl := Except.ok.inj (htree.symm.trans hmade)
    obtain rfl := Except.ok.inj (htree'.symm.trans hmade')
    exact halike

/-! ## Generic XML -/

/-- The node's type is the local name. -/
def ElementData.nodeType (data : ElementData) : NodeType := ⟨localName data.tag.val, data.tag.property⟩

/-- `text.strip()`. -/
def pyStrip (text : String) : String := String.ofList (strip text.toList)

namespace GenericXmlAdapter

/-- The identity is held under `id`, whatever the attribute. -/
def identity (attrib : Dict String String) : Properties :=
  Dict.ofPairs ((attrib.entries.filter fun e => e.1 ∈ idAttributes).map fun e =>
    (if attrLocal e.1 ∈ ["id", "xml:id"] then "id" else attrLocal e.1, .str e.2))

def structural (attrib : Dict String String) : Properties :=
  Dict.ofPairs (attrib.entries.map fun e => (attrLocal e.1, .str e.2))

def content (text : Option String) : Properties :=
  if pyStrip (text.getD "") ≠ "" then property "text" (.str (pyStrip (text.getD ""))) else Dict.empty

/-- `_build_node`. -/
def buildNode (data : ElementData) : NodeData where
  nodeType := data.nodeType
  identityProperties := identity data.attrib
  contentProperties := content data.text
  structuralProperties := structural data.attrib
  xpath := data.xpath

def mapping : Mapping where
  keeps _ := true
  data data _ := buildNode data
  failure := "failed to adapt XML into a canonical tree"

def adapt (root : Element) (documentUri : Option String) : Except DocumentAdaptationError CanonicalTree :=
  mapping.adapt root documentUri

mutual

theorem heights_shape : ∀ node : XmlNode, heights (mapping.shape node) = node.height
  | .element data children => by
    rw [Mapping.shape, heights, height, heights_shapes children, heights, XmlNode.height]
    exact Nat.max_zero _
  | .other kind text => by rw [Mapping.shape, heights, XmlNode.height]

theorem heights_shapes : ∀ children : List XmlNode, heights (mapping.shapes children) = XmlNode.heights children
  | [] => by rw [Mapping.shapes, heights, XmlNode.heights]
  | .element data below :: rest => by
    rw [Mapping.shapes_take rfl, heights, heights_shapes rest, XmlNode.heights, ← heights_shape (.element data below),
      Mapping.shape, heights, heights, Nat.max_zero]
  | .other kind text :: rest => by
    rw [Mapping.shapes_skip rfl, heights_shapes rest, XmlNode.heights, XmlNode.height, Nat.zero_max]

end

end GenericXmlAdapter

inductive XmlDocumentError where
  | input (error : XmlInputError)
  | adaptation (error : DocumentAdaptationError)
  deriving DecidableEq

structure GenericXmlDocumentAdapter where
  parser : SecureXmlParser

def GenericXmlDocumentAdapter.adaptDocument (adapter : GenericXmlDocumentAdapter)
    (fromstring : ByteArray → Except String Element) (raw : ByteArray) (documentUri : Option String) :
    Except XmlDocumentError CanonicalTree := do
  let root ← (adapter.parser.parse fromstring raw documentUri).mapError .input
  (GenericXmlAdapter.adapt root documentUri).mapError .adaptation

/-! ## Trees of XML documents -/

/-- The node of an element, named by the element's place, under the element above and over those below. -/
structure Stands (e : ElementAt) (ref : NodeRef) (node : CanonicalNode) : Prop where
  ref_eq : ref = outline "n" e.place
  node_eq : node.nodeRef = outline "n" e.place
  parent_eq : node.parentRef = if e.place = [] then none else some (outline "n" e.place.dropLast)
  children_eq : node.childRefs = (List.range (e.children.countP XmlNode.isElement)).map fun i => outline "n" (e.place ++ [i])
  type_eq : node.nodeType = localName e.data.tag.val
  identity_eq : node.identityProperties = GenericXmlAdapter.identity e.data.attrib
  content_eq : node.contentProperties = GenericXmlAdapter.content e.data.text
  structural_eq : node.structuralProperties = GenericXmlAdapter.structural e.data.attrib
  location_eq : node.sourceLocation = some ⟨some e.data.xpath⟩

/-- The tree of a document: a node for each of its elements, in document order. -/
structure Covers (root : Element) (tree : CanonicalTree) : Prop where
  in_order : List.Forall₂ (fun e x => Stands e x.1 x.2) root.elements tree.nodes.entries
  root_eq : tree.rootNodeRef = "n"
  size_eq : tree.nodes.size = XmlNode.elementCounts root.children + 1
  depth_eq : treeDepth tree = .ok (XmlNode.heights root.children + 1)

theorem slotAt_parentRef (p : List Nat) :
    (slotAt p).parentRef = if p = [] then none else some (outline "n" p.dropLast) := by
  induction p using List.reverseRecOn with
  | nil => rfl
  | append_singleton p i _ => rw [slotAt_parent, if_neg (by simp), List.dropLast_concat]

namespace GenericXmlAdapter

theorem takes_eq : mapping.takes = XmlNode.isElement := by
  funext node
  cases node <;> rfl

theorem length_shapes (children : List XmlNode) : (mapping.shapes children).length = children.countP XmlNode.isElement := by
  rw [mapping.length_shapes, takes_eq, List.countP_eq_length_filter]

/-- The node made of an element at a place. -/
theorem stands_node (e : ElementAt) :
    Stands e (slotAt e.place).ref ((slotAt e.place).node (buildNode e.data) (mapping.shapes e.children).length) where
  ref_eq := slotAt_ref e.place
  node_eq := slotAt_ref e.place
  parent_eq := slotAt_parentRef e.place
  children_eq := by
    show childRefs (slotAt e.place).ref _ = _
    rw [childRefs, length_shapes]
    refine List.map_congr_left fun i _ => ?_
    rw [slotAt_ref, outline_snoc, childRef]
  type_eq := rfl
  identity_eq := rfl
  content_eq := rfl
  structural_eq := rfl
  location_eq := rfl

mutual

/-- The shape of an element is laid out as the elements come. -/
theorem stands_placed : ∀ (data : ElementData) (children : List XmlNode) (place : List Nat),
    List.Forall₂ (fun e x => Stands e x.1 x.2) (XmlNode.elementsAt place (.element data children))
      (placed (slotAt place) (.node (buildNode data) (mapping.shapes children)))
  | data, children, place => by
    rw [XmlNode.elementsAt, placed]
    exact .cons (stands_node ⟨place, data, children⟩) (stands_placedFrom children place 0)

theorem stands_placedFrom : ∀ (children : List XmlNode) (place : List Nat) (index : Nat),
    List.Forall₂ (fun e x => Stands e x.1 x.2) (XmlNode.elementsFrom place index children)
      (placedFrom (slotAt place) index (mapping.shapes children))
  | [], place, index => by
    rw [XmlNode.elementsFrom, Mapping.shapes, placedFrom]
    exact .nil
  | .element data below :: rest, place, index => by
    have hslot : (slotAt place).child index = slotAt (place ++ [index]) := (Slot.follow_snoc _ place index).symm
    rw [XmlNode.elementsFrom_element, Mapping.shapes_take rfl, placedFrom, hslot]
    exact List.rel_append (stands_placed data below (place ++ [index])) (stands_placedFrom rest place (index + 1))
  | .other kind text :: rest, place, index => by
    rw [XmlNode.elementsFrom_other, Mapping.shapes_skip rfl]
    exact stands_placedFrom rest place index

end

/-- The adapter covers every document. -/
theorem adapt_covers (root : Element) (documentUri : Option String) :
    ∃ tree, adapt root documentUri = .ok tree ∧ Rooted tree ∧ Covers root tree := by
  obtain ⟨tree, htree, hentries, hrepresents⟩ := mapping.adapt_shape root documentUri
  have horder : List.Forall₂ (fun e x => Stands e x.1 x.2) root.elements tree.nodes.entries := by
    rw [hentries]
    exact stands_placed root.data root.children []
  refine ⟨tree, htree, hrepresents.rooted, horder, hrepresents.root_eq, ?_, ?_⟩
  · rw [← root.length_elements, horder.length_eq]
    rfl
  · rw [hrepresents.treeDepth_eq, Mapping.documentShape, height, heights_shapes]

end GenericXmlAdapter

/-- Generic XML is adapted exactly when the library reads it and it is within the limits: then into a
    valid tree with a node for every element, in document order and named by the element's place. -/
theorem xmlDocument_adapted (adapter : GenericXmlDocumentAdapter) (fromstring : ByteArray → Except String Element)
    (raw : ByteArray) (documentUri correlationId : Option String) :
    Outcome.Returns (adapter.adaptDocument fromstring raw documentUri) (fun tree =>
      validateTree tree correlationId = .ok () ∧ ∃ root, fromstring raw = .ok root ∧ Covers root tree) ↔
    ∃ root, (raw.size : Int) ≤ adapter.parser.limits.maxBytes ∧ fromstring raw = .ok root ∧
      root.WithinLimits adapter.parser.limits := by
  unfold GenericXmlDocumentAdapter.adaptDocument Outcome.Returns
  simp only [Outcome.bind_ok, mapError_ok, parse_ok]
  constructor
  · rintro ⟨tree, ⟨root, hroot, -⟩, -⟩
    exact ⟨root, hroot⟩
  · rintro ⟨root, hroot⟩
    obtain ⟨tree, htree, hrooted, hcovers⟩ := GenericXmlAdapter.adapt_covers root documentUri
    refine ⟨tree, ⟨root, hroot, htree⟩, ?_, root, hroot.2.1, hcovers⟩
    exact validateTree_iff.mpr (validateTreeResult_nil_iff.mpr hrooted)

end Reconciliation.Adapters
