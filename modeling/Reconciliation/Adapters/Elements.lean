/-
  Reconciliation.Adapters.Elements — parsed XML, and the checks of the hardened parser.

  An element is what the XML library hands over: its tag and attributes in qualified names, the
  text before its first child, its path, and its children, among them comments, processing
  instructions and entity references. What the library makes of bytes is a parameter.

  The parser visits the nodes in document order, each with the chain of its parents, once for
  entity references and once for the limits. It lets a document pass exactly when it holds no entity
  reference, has no more elements than allowed, and is no deeper than allowed, the root alone
  aside (`parse_ok`).

  An element has a place, the numbers of the way down to it; only elements are counted. The list of
  the elements with their places is in the order of the visit (`elements_visited`).
-/
import Reconciliation.Adapters.StructureLimits

namespace Reconciliation.Adapters

open Reconciliation.Base Reconciliation.Contracts

/-! ## Names -/

/-- `text.rsplit("\x7d", 1)[-1]`. -/
def afterBrace (text : String) : String := String.ofList (text.toList.reverse.takeWhile (· ≠ '\x7d')).reverse

def localName (tag : String) : String := if tag.toList.head? = some '\x7b' then afterBrace tag else tag

def xmlId : String := "\x7bhttp://www.w3.org/XML/1998/namespace\x7did"

def idAttributes : List String := ["id", xmlId]

def attrLocal (name : String) : String := if name = xmlId then "xml:id" else localName name

/-! ## Elements -/

/-- What an element holds besides its children. A tag has a local name. -/
structure ElementData where
  tag : { tag : String // localName tag ≠ "" }
  attrib : Dict String String
  text : Option String
  xpath : String

/-- The nodes of a document that are no elements: their `tag` is no string. -/
inductive OtherKind where
  | comment
  | processingInstruction
  | entity
  deriving DecidableEq

inductive XmlNode where
  | element (data : ElementData) (children : List XmlNode)
  | other (kind : OtherKind) (text : String)

/-- A root element. -/
structure Element where
  data : ElementData
  children : List XmlNode

namespace XmlNode

mutual

/-- `iter()`: the nodes in document order, each with its parents from the next one up. -/
def iter (above : List ElementData) : XmlNode → List (XmlNode × List ElementData)
  | .element data children => (.element data children, above) :: iterAll (data :: above) children
  | .other kind text => [(.other kind text, above)]

def iterAll (above : List ElementData) : List XmlNode → List (XmlNode × List ElementData)
  | [] => []
  | child :: rest => iter above child ++ iterAll above rest

end

def isElement : XmlNode → Bool
  | .element .. => true
  | .other .. => false

end XmlNode

def Element.iter (root : Element) : List (XmlNode × List ElementData) :=
  XmlNode.iter [] (.element root.data root.children)

/-! ## Places of elements -/

/-- An element and where it stands. -/
structure ElementAt where
  place : List Nat
  data : ElementData
  children : List XmlNode

namespace XmlNode

mutual

/-- The elements from this one down, in document order. -/
def elementsAt (place : List Nat) : XmlNode → List ElementAt
  | .element data children => ⟨place, data, children⟩ :: elementsFrom place 0 children
  | .other .. => []

/-- The elements below a place, the next of which has the index. -/
def elementsFrom (place : List Nat) (index : Nat) : List XmlNode → List ElementAt
  | [] => []
  | child :: rest =>
    if child.isElement then elementsAt (place ++ [index]) child ++ elementsFrom place (index + 1) rest
    else elementsFrom place index rest

end

theorem elementsFrom_element (place : List Nat) (index : Nat) (data : ElementData) (children rest : List XmlNode) :
    elementsFrom place index (.element data children :: rest) =
      elementsAt (place ++ [index]) (.element data children) ++ elementsFrom place (index + 1) rest := by
  rw [elementsFrom, isElement, if_pos rfl]

theorem elementsFrom_other (place : List Nat) (index : Nat) (kind : OtherKind) (text : String) (rest : List XmlNode) :
    elementsFrom place index (.other kind text :: rest) = elementsFrom place index rest := by
  rw [elementsFrom, isElement, if_neg Bool.false_ne_true]

end XmlNode

def Element.elements (root : Element) : List ElementAt := XmlNode.elementsAt [] (.element root.data root.children)

def ElementAt.node (e : ElementAt) : XmlNode := .element e.data e.children

mutual

theorem elementsAt_iter : ∀ (node : XmlNode) (place : List Nat) (above : List ElementData),
    (node.elementsAt place).map ElementAt.node = ((node.iter above).map Prod.fst).filter XmlNode.isElement
  | .element data children, place, above => by
    rw [XmlNode.elementsAt, XmlNode.iter, List.map_cons, List.map_cons, List.filter_cons_of_pos rfl,
      elementsFrom_iterAll children place 0 (data :: above)]
    rfl
  | .other kind text, place, above => by simp [XmlNode.elementsAt, XmlNode.iter, XmlNode.isElement]

theorem elementsFrom_iterAll : ∀ (children : List XmlNode) (place : List Nat) (index : Nat) (above : List ElementData),
    (XmlNode.elementsFrom place index children).map ElementAt.node =
      ((XmlNode.iterAll above children).map Prod.fst).filter XmlNode.isElement
  | [], place, index, above => by simp [XmlNode.elementsFrom, XmlNode.iterAll]
  | .element data below :: rest, place, index, above => by
    rw [XmlNode.elementsFrom_element, XmlNode.iterAll, List.map_append, List.map_append, List.filter_append,
      elementsAt_iter (.element data below) (place ++ [index]) above, elementsFrom_iterAll rest place (index + 1) above]
  | .other kind text :: rest, place, index, above => by
    rw [XmlNode.elementsFrom_other, XmlNode.iterAll, List.map_append, List.filter_append,
      elementsFrom_iterAll rest place index above]
    rfl

end

/-- The elements come in the order in which the document is visited. -/
theorem Element.elements_visited (root : Element) :
    root.elements.map ElementAt.node = (root.iter.map Prod.fst).filter XmlNode.isElement := elementsAt_iter _ [] []

/-! ## The parser -/

structure XmlSecurityLimits where
  maxBytes : Int := 10000000
  maxDepth : Int := 100
  maxNodes : Int := 100000

structure SecureXmlParser where
  limits : XmlSecurityLimits := {}

def rejectEntities (documentUri : Option String) : List (XmlNode × List ElementData) → Except UnsafeInputError Unit
  | [] => .ok ()
  | (.other .entity text, _) :: _ =>
    .error ⟨"UNSAFE_XML", "entity references are not permitted in untrusted input", documentUri, [("entity", .inr text)]⟩
  | _ :: rest => rejectEntities documentUri rest

section Limits
variable (limits : XmlSecurityLimits) (documentUri : Option String)

/-- The loop over the parents of a node. -/
def walkUp : List ElementData → Nat → Except UnsafeInputError Unit
  | [], _ => .ok ()
  | _ :: above, depth =>
    if limits.maxDepth < ((depth + 1 : Nat) : Int) then
      .error ⟨"UNSAFE_XML", "XML input exceeds the configured maximum nesting depth", documentUri,
        [("limit", .inl limits.maxDepth)]⟩
    else walkUp above (depth + 1)

/-- The loop over the nodes, at a count. -/
def countElements : List (XmlNode × List ElementData) → Nat → Except UnsafeInputError Unit
  | [], _ => .ok ()
  | (node, above) :: rest, nodeCount =>
    if node.isElement then
      if limits.maxNodes < ((nodeCount + 1 : Nat) : Int) then
        .error ⟨"UNSAFE_XML", "XML input exceeds the configured maximum node count", documentUri,
          [("limit", .inl limits.maxNodes)]⟩
      else do
        walkUp limits documentUri above 1
        countElements rest (nodeCount + 1)
    else countElements rest nodeCount

end Limits

def SecureXmlParser.enforceStructureLimits (parser : SecureXmlParser) (root : Element) (documentUri : Option String) :
    Except UnsafeInputError Unit := countElements parser.limits documentUri root.iter 0

/-- What parsing raises. -/
inductive XmlInputError where
  /-- `InputParseError`, with the detail of the library. -/
  | malformed (location : Option String) (detail : String)
  | rejected (error : UnsafeInputError)
  deriving DecidableEq

/-- `parse`, of the bytes of the input; `fromstring` is the library's. -/
def SecureXmlParser.parse (parser : SecureXmlParser) (fromstring : ByteArray → Except String Element) (raw : ByteArray)
    (documentUri : Option String) : Except XmlInputError Element := do
  if parser.limits.maxBytes < (raw.size : Int) then
    throw (.rejected ⟨"UNSAFE_XML", "XML input exceeds the configured maximum size", documentUri,
      [("bytes", .inl raw.size), ("limit", .inl parser.limits.maxBytes)]⟩)
  let root ← (fromstring raw).mapError (.malformed documentUri)
  (rejectEntities documentUri root.iter).mapError .rejected
  (parser.enforceStructureLimits root documentUri).mapError .rejected
  return root

/-! ## What passes -/

namespace XmlNode

mutual

def elementCount : XmlNode → Nat
  | .element _ children => elementCounts children + 1
  | .other .. => 0

def elementCounts : List XmlNode → Nat
  | [] => 0
  | child :: rest => elementCount child + elementCounts rest

end

mutual

/-- How many elements the longest way down passes. -/
def height : XmlNode → Nat
  | .element _ children => heights children + 1
  | .other .. => 0

def heights : List XmlNode → Nat
  | [] => 0
  | child :: rest => max (height child) (heights rest)

end

mutual

def entityFree : XmlNode → Bool
  | .element _ children => entityFreeAll children
  | .other kind _ => kind ≠ .entity

def entityFreeAll : List XmlNode → Bool
  | [] => true
  | child :: rest => entityFree child && entityFreeAll rest

end

end XmlNode

/-- A document within the limits. The depth of a root without child elements is not looked at. -/
structure Element.WithinLimits (root : Element) (limits : XmlSecurityLimits) : Prop where
  entities : XmlNode.entityFreeAll root.children = true
  nodes : XmlNode.elementCounts root.children + 1 ≤ limits.maxNodes
  depth : XmlNode.heights root.children = 0 ∨ XmlNode.heights root.children + 1 ≤ limits.maxDepth

section Entities
variable {documentUri : Option String}

theorem rejectEntities_cons (node : XmlNode) (above : List ElementData) (rest : List (XmlNode × List ElementData)) :
    rejectEntities documentUri ((node, above) :: rest) = .ok () ↔
      (∀ text, node ≠ .other .entity text) ∧ rejectEntities documentUri rest = .ok () := by
  cases node with
  | element data children => simp [rejectEntities]
  | other kind text => cases kind <;> simp [rejectEntities]

theorem rejectEntities_append (xs ys : List (XmlNode × List ElementData)) : rejectEntities documentUri (xs ++ ys) = .ok () ↔
    rejectEntities documentUri xs = .ok () ∧ rejectEntities documentUri ys = .ok () := by
  induction xs with
  | nil => simp [rejectEntities]
  | cons x xs ih =>
    obtain ⟨node, above⟩ := x
    rw [List.cons_append, rejectEntities_cons, rejectEntities_cons, ih, and_assoc]

mutual

/-- The visit of a node and all below finds no entity reference exactly when there is none. -/
theorem rejectEntities_iter : ∀ (node : XmlNode) (above : List ElementData),
    rejectEntities documentUri (node.iter above) = .ok () ↔ node.entityFree = true
  | .element data children, above => by
    rw [XmlNode.iter, rejectEntities_cons, XmlNode.entityFree, rejectEntities_iterAll children (data :: above)]
    simp
  | .other kind text, above => by
    rw [XmlNode.iter, rejectEntities_cons, XmlNode.entityFree]
    simp [rejectEntities]

theorem rejectEntities_iterAll : ∀ (children : List XmlNode) (above : List ElementData),
    rejectEntities documentUri (XmlNode.iterAll above children) = .ok () ↔ XmlNode.entityFreeAll children = true
  | [], above => by simp [XmlNode.iterAll, rejectEntities, XmlNode.entityFreeAll]
  | child :: rest, above => by
    rw [XmlNode.iterAll, rejectEntities_append, XmlNode.entityFreeAll, Bool.and_eq_true, rejectEntities_iter child above,
      rejectEntities_iterAll rest above]

end

end Entities

section Structure
variable {limits : XmlSecurityLimits} {documentUri : Option String}

/-- The way up passes when the node is the root, or its depth is allowed. -/
theorem walkUp_ok (above : List ElementData) (depth : Nat) :
    walkUp limits documentUri above depth = .ok () ↔ above = [] ∨ ((depth + above.length : Nat) : Int) ≤ limits.maxDepth := by
  induction above generalizing depth with
  | nil => simp [walkUp]
  | cons parent above ih =>
    rw [walkUp]
    by_cases hdepth : limits.maxDepth < ((depth + 1 : Nat) : Int)
    · simp only [hdepth, if_true, reduceCtorEq, List.cons_ne_nil, List.length_cons, false_or, false_iff]
      omega
    · simp only [hdepth, if_false, ih, List.cons_ne_nil, List.length_cons, false_or]
      constructor
      · rintro (rfl | h)
        · simpa using by omega
        · omega
      · intro h
        exact Or.inr (by omega)

/-- The elements among the nodes are counted under the limit, and none is too deep. -/
def Fits (limits : XmlSecurityLimits) (nodes : List (XmlNode × List ElementData)) (nodeCount : Nat) : Prop :=
  (nodes.countP (·.1.isElement) = 0 ∨ ((nodeCount + nodes.countP (·.1.isElement) : Nat) : Int) ≤ limits.maxNodes) ∧
    ∀ x ∈ nodes, x.1.isElement = true → x.2 = [] ∨ ((1 + x.2.length : Nat) : Int) ≤ limits.maxDepth

theorem countElements_ok (nodes : List (XmlNode × List ElementData)) (nodeCount : Nat) :
    countElements limits documentUri nodes nodeCount = .ok () ↔ Fits limits nodes nodeCount := by
  induction nodes generalizing nodeCount with
  | nil => simp [countElements, Fits]
  | cons x rest ih =>
    obtain ⟨node, above⟩ := x
    rw [countElements]
    unfold Fits
    rw [List.forall_mem_cons, List.countP_cons]
    by_cases helement : node.isElement = true
    · rw [if_pos helement]
      simp only [helement, if_true, forall_const]
      by_cases hnodes : limits.maxNodes < ((nodeCount + 1 : Nat) : Int)
      · simp only [hnodes, if_true, reduceCtorEq, false_iff]
        rintro ⟨hcount, -⟩
        have hle := hcount.resolve_left id
        omega
      · have hwalk := @walkUp_ok limits documentUri above 1
        have hrest := ih (nodeCount + 1)
        unfold Fits at hrest
        simp only [hnodes, if_false, Outcome.bind_ok, hwalk, hrest]
        constructor
        · rintro ⟨_, habove, hcount, hdepths⟩
          exact ⟨by omega, habove, hdepths⟩
        · rintro ⟨hcount, habove, hdepths⟩
          exact ⟨(), habove, by omega, hdepths⟩
    · rw [if_neg helement, ih]
      unfold Fits
      simp [helement]

mutual

theorem countP_iter : ∀ (node : XmlNode) (above : List ElementData),
    (node.iter above).countP (·.1.isElement) = node.elementCount
  | .element data children, above => by
    rw [XmlNode.iter, List.countP_cons, countP_iterAll children (data :: above), XmlNode.elementCount]
    simp [XmlNode.isElement]
  | .other kind text, above => by simp [XmlNode.iter, XmlNode.isElement, XmlNode.elementCount]

theorem countP_iterAll : ∀ (children : List XmlNode) (above : List ElementData),
    (XmlNode.iterAll above children).countP (·.1.isElement) = XmlNode.elementCounts children
  | [], above => by simp [XmlNode.iterAll, XmlNode.elementCounts]
  | child :: rest, above => by
    rw [XmlNode.iterAll, List.countP_append, countP_iter child above, countP_iterAll rest above, XmlNode.elementCounts]

end

mutual

/-- Below parents, no element is deeper than allowed exactly when the longest way down is not. -/
theorem depths_iter {limit : Int} : ∀ (node : XmlNode) (above : List ElementData),
    (∀ x ∈ node.iter above, x.1.isElement = true → ((1 + x.2.length : Nat) : Int) ≤ limit) ↔
      node.height = 0 ∨ ((above.length + node.height : Nat) : Int) ≤ limit
  | .element data children, above => by
    rw [XmlNode.iter, List.forall_mem_cons, depths_iterAll children (data :: above), XmlNode.height, List.length_cons]
    simp only [XmlNode.isElement, forall_const]
    omega
  | .other kind text, above => by simp [XmlNode.iter, XmlNode.isElement, XmlNode.height]

theorem depths_iterAll {limit : Int} : ∀ (children : List XmlNode) (above : List ElementData),
    (∀ x ∈ XmlNode.iterAll above children, x.1.isElement = true → ((1 + x.2.length : Nat) : Int) ≤ limit) ↔
      XmlNode.heights children = 0 ∨ ((above.length + XmlNode.heights children : Nat) : Int) ≤ limit
  | [], above => by simp [XmlNode.iterAll, XmlNode.heights]
  | child :: rest, above => by
    rw [XmlNode.iterAll, List.forall_mem_append, depths_iter child above, depths_iterAll rest above, XmlNode.heights]
    omega

end

mutual

/-- Every node visited has the parents of the visit at the end of its chain. -/
theorem suffix_iter : ∀ (node : XmlNode) (above : List ElementData), ∀ x ∈ node.iter above, above <:+ x.2
  | .element data children, above => by
    rw [XmlNode.iter, List.forall_mem_cons]
    exact ⟨List.suffix_refl above, fun x hx => (List.suffix_cons data above).trans (suffix_iterAll children (data :: above) x hx)⟩
  | .other kind text, above => by simp [XmlNode.iter]

theorem suffix_iterAll : ∀ (children : List XmlNode) (above : List ElementData),
    ∀ x ∈ XmlNode.iterAll above children, above <:+ x.2
  | [], above => by simp [XmlNode.iterAll]
  | child :: rest, above => by
    rw [XmlNode.iterAll, List.forall_mem_append]
    exact ⟨suffix_iter child above, suffix_iterAll rest above⟩

end

/-- A document has as many elements as its count says. -/
theorem Element.length_elements (root : Element) :
    root.elements.length = XmlNode.elementCounts root.children + 1 := by
  have hvisited := congrArg List.length root.elements_visited
  rw [List.length_map, ← List.countP_eq_length_filter, List.countP_map] at hvisited
  rw [hvisited, Element.iter]
  exact countP_iter (.element root.data root.children) []

/-- What the walk over a document lets pass. -/
theorem enforceStructureLimits_ok (parser : SecureXmlParser) (root : Element) :
    parser.enforceStructureLimits root documentUri = .ok () ↔
      XmlNode.elementCounts root.children + 1 ≤ parser.limits.maxNodes ∧
        (XmlNode.heights root.children = 0 ∨ XmlNode.heights root.children + 1 ≤ parser.limits.maxDepth) := by
  have hbelow : ∀ x ∈ XmlNode.iterAll [root.data] root.children, x.2 ≠ [] := by
    intro x hx hnil
    have hsuffix := suffix_iterAll root.children [root.data] x hx
    rw [hnil, List.suffix_nil] at hsuffix
    cases hsuffix
  have hdepths : (∀ x ∈ root.iter, x.1.isElement = true → x.2 = [] ∨ ((1 + x.2.length : Nat) : Int) ≤ parser.limits.maxDepth) ↔
      ∀ x ∈ XmlNode.iterAll [root.data] root.children, x.1.isElement = true →
        ((1 + x.2.length : Nat) : Int) ≤ parser.limits.maxDepth := by
    rw [Element.iter, XmlNode.iter, List.forall_mem_cons]
    constructor
    · intro h x hx helement
      exact (h.2 x hx helement).resolve_left (hbelow x hx)
    · intro h
      exact ⟨fun _ => Or.inl rfl, fun x hx helement => Or.inr (h x hx helement)⟩
  unfold SecureXmlParser.enforceStructureLimits
  rw [countElements_ok]
  unfold Fits
  rw [hdepths, depths_iterAll, Element.iter, countP_iter, XmlNode.elementCount, List.length_singleton]
  omega

end Structure

theorem mapError_ok {ε ε' α : Type} {x : Except ε α} {f : ε → ε'} {a : α} : x.mapError f = .ok a ↔ x = .ok a := by
  cases x <;> simp [Except.mapError]

/-- A document is parsed exactly when the library reads it and it is within the limits. -/
theorem parse_ok (parser : SecureXmlParser) {fromstring : ByteArray → Except String Element} {raw : ByteArray}
    {documentUri : Option String} {root : Element} : parser.parse fromstring raw documentUri = .ok root ↔
      (raw.size : Int) ≤ parser.limits.maxBytes ∧ fromstring raw = .ok root ∧ root.WithinLimits parser.limits := by
  have hchecks : root.WithinLimits parser.limits ↔ rejectEntities documentUri root.iter = .ok () ∧
      parser.enforceStructureLimits root documentUri = .ok () := by
    rw [Element.iter, rejectEntities_iter, XmlNode.entityFree, enforceStructureLimits_ok]
    constructor
    · intro h
      exact ⟨h.entities, h.nodes, h.depth⟩
    · rintro ⟨hentities, hnodes, hdepth⟩
      exact ⟨hentities, hnodes, hdepth⟩
  unfold SecureXmlParser.parse
  by_cases hsize : parser.limits.maxBytes < (raw.size : Int)
  · rw [if_pos hsize]
    constructor
    · intro h
      cases h
    · rintro ⟨hle, -⟩
      omega
  · rw [if_neg hsize]
    simp only [Outcome.bind_ok, Outcome.pure_ok, mapError_ok]
    constructor
    · rintro ⟨read, hread, _, hentities, _, hlimits, rfl⟩
      exact ⟨by omega, hread, hchecks.mpr ⟨hentities, hlimits⟩⟩
    · rintro ⟨-, hread, hwithin⟩
      obtain ⟨hentities, hlimits⟩ := hchecks.mp hwithin
      exact ⟨root, hread, (), hentities, (), hlimits, rfl⟩

end Reconciliation.Adapters
