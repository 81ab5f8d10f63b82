/-
  Reconciliation.Adapters.DitaMaps — DITA maps as canonical trees.

  Metadata is folded into the element it is below: a `topicmeta` has no node, and gives its parent
  the title it holds. The identity of an element is its id, else its keys, else the file it
  refers to, so what is translated takes no part in it (`dita_translated`).

  But for identities and titles, the tree is the generic tree of the map without its metadata
  (`dita_overlays`).

  A reference is freed of white space and of every `./` in front (`normalizeHref_iff`); doing so
  twice can differ from doing it once, as white space may follow (`normalizeHref_twice`).
-/
import Reconciliation.Adapters.ElementTrees

namespace Reconciliation.Adapters

open Reconciliation.Base Reconciliation.Base.Rose Reconciliation.Contracts Reconciliation.Validation

/-! ## References and keys -/

/-- The loop that takes `./` off. -/
def dropDots : List Char → List Char
  | '.' :: '/' :: rest => dropDots rest
  | cs => cs

def normalizeHref (href : String) : String := String.ofList (dropDots (strip href.toList))

/-- `keys.split()`. -/
def normalizeKeys (keys : String) : List String :=
  ((keys.toList.splitOnP isSpace).filter fun word => !word.isEmpty).map String.ofList

/-! ## Identity -/

/-- `a or b` of two optional strings. -/
def orElseText (a b : Option String) : Option String := if a.getD "" = "" then b else a

def keysSignal (keys : Option String) : Option String :=
  if keys.getD "" = "" ∨ normalizeKeys (keys.getD "") = [] then none
  else some (String.intercalate " " (normalizeKeys (keys.getD "")))

def hrefSignal (href : Option String) : Option String :=
  if href.getD "" = "" then none else some (normalizeHref (href.getD ""))

def idSignal (attrib : Dict String String) : Option String :=
  (orElseText (attrib.get? "id") (attrib.get? xmlId)).filter (· ≠ "")

/-- `extract_identity`, the signals in the order they are looked for. -/
def extractIdentity (attrib : Dict String String) : List (String × String) :=
  ((idSignal attrib).map ("id", ·)).toList ++ ((keysSignal (attrib.get? "keys")).map ("keys", ·)).toList ++
    ((hrefSignal (attrib.get? "href")).map ("href", ·)).toList

/-- `_canonical_id`. -/
def canonicalId (identity : Dict String String) : Option String :=
  match identity.get? "id", identity.get? "keys", identity.get? "href" with
  | some id, _, _ => some id
  | none, some keys, _ => some ("keys:" ++ keys)
  | none, none, some href => some ("href:" ++ href)
  | none, none, none => none

def identityProperties (attrib : Dict String String) : Properties :=
  let identity := Dict.ofPairs (extractIdentity attrib)
  let properties := identity.mapVal fun _ value => CanonicalValue.str value
  match canonicalId identity with
  | some id => properties.insert "id" (.str id)
  | none => properties

/-! ## Titles -/

/-- The loop over the children of a `topicmeta`. -/
def titleIn : List XmlNode → Option String
  | [] => none
  | .element data _ :: rest =>
    if localName data.tag.val = "navtitle" ∧ pyStrip (data.text.getD "") ≠ "" then some (pyStrip (data.text.getD ""))
    else titleIn rest
  | .other .. :: rest => titleIn rest

/-- The loop over the children of an element. -/
def titleBelow : List XmlNode → Option String
  | [] => none
  | .element data children :: rest =>
    if localName data.tag.val = "topicmeta" then
      match titleIn children with
      | some title => some title
      | none => titleBelow rest
    else titleBelow rest
  | .other .. :: rest => titleBelow rest

def extractNavtitle (attrib : Dict String String) (children : List XmlNode) : Option String :=
  if pyStrip ((attrib.get? "navtitle").getD "") ≠ "" then some (pyStrip ((attrib.get? "navtitle").getD ""))
  else titleBelow children

/-! ## The adapter -/

namespace DitaMapAdapter

def content (data : ElementData) (children : List XmlNode) : Properties :=
  let titled := match extractNavtitle data.attrib children with
    | some title => property "navtitle" (.str title)
    | none => Dict.empty
  if pyStrip (data.text.getD "") ≠ "" then titled.insert "text" (.str (pyStrip (data.text.getD ""))) else titled

def isMetadata (data : ElementData) : Bool := localName data.tag.val = "topicmeta"

/-- `_build_node`. -/
def buildNode (data : ElementData) (children : List XmlNode) : NodeData where
  nodeType := data.nodeType
  identityProperties := identityProperties data.attrib
  contentProperties := content data children
  structuralProperties := GenericXmlAdapter.structural data.attrib
  xpath := data.xpath

def mapping : Mapping where
  keeps data := !isMetadata data
  data := buildNode
  failure := "failed to adapt DITA map into a canonical tree"

def adapt (root : Element) (documentUri : Option String) : Except DocumentAdaptationError CanonicalTree :=
  mapping.adapt root documentUri

/-- `adapt_document`, of the bytes of the input. -/
def adaptDocument (parser : SecureXmlParser) (fromstring : ByteArray → Except String Element) (raw : ByteArray)
    (documentUri : Option String) : Except XmlDocumentError CanonicalTree := do
  let root ← (parser.parse fromstring raw documentUri).mapError .input
  (adapt root documentUri).mapError .adaptation

@[simp] theorem buildNode_identity (data : ElementData) (children : List XmlNode) :
    (buildNode data children).identityProperties = identityProperties data.attrib := by
  rw [buildNode]

@[simp] theorem buildNode_content (data : ElementData) (children : List XmlNode) :
    (buildNode data children).contentProperties = content data children := by
  rw [buildNode]

end DitaMapAdapter

/-! ## References freed -/

theorem dropDots_iff {cs rest : List Char} : dropDots cs = rest ↔
    ∃ count, cs = (List.replicate count ['.', '/']).flatten ++ rest ∧ ¬ ['.', '/'] <+: rest := by
  fun_induction dropDots cs with
  | case1 cs ih =>
    rw [ih]
    constructor
    · rintro ⟨count, rfl, hrest⟩
      exact ⟨count + 1, by simp [List.replicate_succ], hrest⟩
    · rintro ⟨count, hcs, hrest⟩
      cases count with
      | zero => exact absurd ⟨cs, hcs⟩ hrest
      | succ count =>
        refine ⟨count, ?_, hrest⟩
        simpa [List.replicate_succ] using hcs
  | case2 cs hno =>
    constructor
    · rintro rfl
      refine ⟨0, by simp, ?_⟩
      rintro ⟨tail, rfl⟩
      exact hno tail rfl
    · rintro ⟨count, rfl, hrest⟩
      cases count with
      | zero => simp
      | succ count => exact absurd rfl (hno _)

/-- What is left of a reference follows white space and some `./`, and has none in front. -/
theorem normalizeHref_iff {href value : String} : normalizeHref href = value ↔
    ∃ count, strip href.toList = (List.replicate count ['.', '/']).flatten ++ value.toList ∧
      ¬ ['.', '/'] <+: value.toList := by
  rw [normalizeHref, ← dropDots_iff]
  constructor
  · rintro rfl
    rw [String.toList_ofList]
  · intro h
    rw [h, String.ofList_toList]

/-- Stripping again takes nothing off what is left of a stripped text, unless white space comes first. -/
theorem strip_of_suffix {cs rest : List Char} (h : rest <:+ strip cs) (hhead : ∀ c ∈ rest.head?, isSpace c = false) :
    strip rest = rest := by
  have hfront : rest.dropWhile isSpace = rest := by
    cases rest with
    | nil => rfl
    | cons c rest => exact List.dropWhile_cons_of_neg (by rw [hhead c rfl]; exact Bool.false_ne_true)
  have hback : rest.reverse.dropWhile isSpace = rest.reverse := by
    have hpre : rest.reverse <+: (cs.dropWhile isSpace).reverse.dropWhile isSpace := by
      have hrev := List.reverse_prefix.mpr h
      rwa [strip, List.reverse_reverse] at hrev
    cases hr : rest.reverse with
    | nil => rfl
    | cons c tail =>
      rw [hr] at hpre
      obtain ⟨more, hmore⟩ := hpre
      have hc := List.head_dropWhile_not isSpace (l := (cs.dropWhile isSpace).reverse) (by rw [← hmore]; simp)
      have hhead : isSpace c = false := by simpa [← hmore] using hc
      exact List.dropWhile_cons_of_neg (by rw [hhead]; exact Bool.false_ne_true)
  rw [strip, hfront, hback, List.reverse_reverse]

/-- A reference freed twice is the reference freed once, unless white space comes to stand in front. -/
theorem normalizeHref_twice {href : String} : normalizeHref (normalizeHref href) = normalizeHref href ↔
    ∀ c ∈ (normalizeHref href).toList.head?, isSpace c = false := by
  obtain ⟨count, hstripped, hno⟩ := normalizeHref_iff.mp (rfl : normalizeHref href = normalizeHref href)
  generalize hvalue : normalizeHref href = value at *
  constructor
  · intro h c hc
    by_contra hspace
    obtain ⟨count', hagain, -⟩ := normalizeHref_iff.mp h
    have hle := congrArg List.length hagain
    obtain ⟨tail, htail⟩ : ∃ tail, value.toList = c :: tail := by
      cases hcs : value.toList with
      | nil => rw [hcs] at hc; cases hc
      | cons d tail =>
        rw [hcs] at hc
        obtain rfl : d = c := by simpa using hc
        exact ⟨tail, rfl⟩
    have hshort : (strip value.toList).length ≤ tail.length := by
      rw [htail, strip, List.dropWhile_cons_of_pos (by simpa using hspace), List.length_reverse]
      refine (List.dropWhile_suffix _).length_le.trans ?_
      rw [List.length_reverse]
      exact (List.dropWhile_suffix _).length_le
    rw [List.length_append, htail, List.length_cons] at hle
    rw [htail] at hshort
    omega
  · intro hhead
    exact normalizeHref_iff.mpr ⟨0, by simpa using strip_of_suffix ⟨_, hstripped.symm⟩ hhead, hno⟩

-- the blank after `./` is in front only the second time
example : normalizeHref "./ a.dita" = " a.dita" ∧ normalizeHref " a.dita" = "a.dita" := by decide

/-! ## Translations -/

/-- The attributes that identify an element. -/
def signalNames : List String := ["id", xmlId, "keys", "href"]

/-- Two elements of one name that are identified alike. -/
structure SameSignals (a b : ElementData) : Prop where
  name : localName a.tag.val = localName b.tag.val
  signals : ∀ name ∈ signalNames, a.attrib.get? name = b.attrib.get? name

/-- The topics of two maps correspond in order and are identified alike; metadata, titles, texts and
    all other attributes may differ. -/
inductive Translated : List XmlNode → List XmlNode → Prop
  | nil : Translated [] []
  | left {c : XmlNode} {cs ds : List XmlNode} (hc : DitaMapAdapter.mapping.takes c = false) (h : Translated cs ds) :
      Translated (c :: cs) ds
  | right {d : XmlNode} {cs ds : List XmlNode} (hd : DitaMapAdapter.mapping.takes d = false) (h : Translated cs ds) :
      Translated cs (d :: ds)
  | topic {a b : ElementData} {as bs cs ds : List XmlNode} (ha : DitaMapAdapter.isMetadata a = false)
      (hsame : SameSignals a b) (hbelow : Translated as bs) (h : Translated cs ds) :
      Translated (.element a as :: cs) (.element b bs :: ds)

/-- What the adapter makes of two elements identified alike. -/
def SameIdentity (x y : NodeData) : Prop := ∃ a as b bs, SameSignals a b ∧ x = DitaMapAdapter.buildNode a as ∧
  y = DitaMapAdapter.buildNode b bs

/-- Nodes of one identity with the same links, that hold titles and texts alone. -/
structure Retitled (node node' : CanonicalNode) : Prop extends SameLinks node node' where
  identity_eq : node.identityProperties = node'.identityProperties
  titles : ∀ key, key ∉ ["navtitle", "text"] →
    node.contentProperties.get? key = none ∧ node'.contentProperties.get? key = none

theorem SameSignals.identity {a b : ElementData} (h : SameSignals a b) :
    identityProperties a.attrib = identityProperties b.attrib := by
  have hid := h.signals "id" (by simp [signalNames])
  have hxml := h.signals xmlId (by simp [signalNames])
  have hkeys := h.signals "keys" (by simp [signalNames])
  have hhref := h.signals "href" (by simp [signalNames])
  unfold identityProperties extractIdentity idSignal
  rw [hid, hxml, hkeys, hhref]

theorem content_titles (data : ElementData) (children : List XmlNode) {key : String} (hkey : key ∉ ["navtitle", "text"]) :
    (DitaMapAdapter.content data children).get? key = none := by
  have hne : "navtitle" ≠ key ∧ "text" ≠ key := by
    simpa [eq_comm] using hkey
  have hproperty : ∀ (name : String) (value : CanonicalValue), name ≠ key → (property name value).get? key = none := by
    intro name value hname
    simp [property, Dict.get?, hname]
  unfold DitaMapAdapter.content
  by_cases htext : pyStrip (data.text.getD "") ≠ ""
  · rw [if_pos htext, Dict.get?_insert, if_neg hne.2.symm]
    cases extractNavtitle data.attrib children with
    | none => rfl
    | some title => exact hproperty _ _ hne.1
  · rw [if_neg htext]
    cases extractNavtitle data.attrib children with
    | none => rfl
    | some title => exact hproperty _ _ hne.1

theorem Translated.corresponds {cs ds : List XmlNode} (h : Translated cs ds) :
    Corresponds DitaMapAdapter.mapping SameIdentity cs ds := by
  induction h with
  | nil => exact .nil
  | left hc _ ih => exact .left hc ih
  | right hd _ ih => exact .right hd ih
  | @topic a b as bs _ _ ha hsame _ _ hbelow ih =>
    have hb : DitaMapAdapter.isMetadata b = false := by
      unfold DitaMapAdapter.isMetadata at ha ⊢
      rwa [← hsame.name]
    refine .element ?_ ?_ ⟨a, as, b, bs, hsame, rfl, rfl⟩ hbelow ih
    · show (!DitaMapAdapter.isMetadata a) = true
      rw [ha]
      rfl
    · show (!DitaMapAdapter.isMetadata b) = true
      rw [hb]
      rfl

/-- A map and its translation have trees with the same nodes, links and identities. -/
theorem dita_translated {root root' : Element} (hroot : SameSignals root.data root'.data)
    (hbelow : Translated root.children root'.children) (documentUri documentUri' : Option String) :
    ∃ tree tree', DitaMapAdapter.adapt root documentUri = .ok tree ∧ DitaMapAdapter.adapt root' documentUri' = .ok tree' ∧
      Rooted tree ∧ Rooted tree' ∧ Alike Retitled tree tree' := by
  have hdata : SameIdentity (DitaMapAdapter.buildNode root.data root.children)
      (DitaMapAdapter.buildNode root'.data root'.children) := ⟨_, _, _, _, hroot, rfl, rfl⟩
  refine Mapping.adapt_alike (R := SameIdentity) (similar_node.mpr ⟨hdata, hbelow.corresponds.similar⟩)
    (fun slot x y count hxy => ?_) documentUri documentUri'
  obtain ⟨a, as, b, bs, hsame, hx, hy⟩ := hxy
  have htype : x.nodeType.val = y.nodeType.val := by rw [hx, hy]; exact hsame.name
  have hidentity : x.identityProperties = y.identityProperties := by
    rw [hx, hy, DitaMapAdapter.buildNode_identity, DitaMapAdapter.buildNode_identity, hsame.identity]
  have htitles : ∀ key, key ∉ ["navtitle", "text"] →
      x.contentProperties.get? key = none ∧ y.contentProperties.get? key = none := by
    intro key hkey
    rw [hx, hy, DitaMapAdapter.buildNode_content, DitaMapAdapter.buildNode_content]
    exact ⟨content_titles a as hkey, content_titles b bs hkey⟩
  exact ⟨⟨htype, rfl, rfl⟩, hidentity, htitles⟩

/-! ## The generic tree below -/

/-- Two elements of one name, with the same attributes and text. They may stand elsewhere. -/
structure SameElement (a b : ElementData) : Prop where
  tag_eq : a.tag = b.tag
  attrib_eq : a.attrib = b.attrib
  text_eq : a.text = b.text

/-- The second nodes are the first without the metadata among them and below. -/
inductive Pruned : List XmlNode → List XmlNode → Prop
  | nil : Pruned [] []
  | metadata {data : ElementData} {children cs ds : List XmlNode} (hmeta : DitaMapAdapter.isMetadata data = true)
      (h : Pruned cs ds) : Pruned (.element data children :: cs) ds
  | kept {a b : ElementData} {as bs cs ds : List XmlNode} (hkept : DitaMapAdapter.isMetadata a = false)
      (hsame : SameElement a b) (hbelow : Pruned as bs) (h : Pruned cs ds) :
      Pruned (.element a as :: cs) (.element b bs :: ds)
  | other {kind : OtherKind} {text : String} {cs ds : List XmlNode} (h : Pruned cs ds) :
      Pruned (.other kind text :: cs) (.other kind text :: ds)

/-- A node of a map beside the generic node of the same element: identity, title and place in the
    document are its own. -/
structure Overlaid (node node' : CanonicalNode) : Prop extends SameLinks node node' where
  structural_eq : node.structuralProperties = node'.structuralProperties
  text_eq : node.contentProperties.get? "text" = node'.contentProperties.get? "text"

/-- What the two adapters make of one element. -/
def Overlay (x y : NodeData) : Prop := ∃ a children b, SameElement a b ∧ x = DitaMapAdapter.buildNode a children ∧
  y = GenericXmlAdapter.buildNode b

theorem SameElement.nodeType_eq {a b : ElementData} (h : SameElement a b) : a.nodeType = b.nodeType := by
  refine Subtype.ext ?_
  show localName a.tag.val = localName b.tag.val
  rw [h.tag_eq]

theorem text_overlay {a b : ElementData} (h : SameElement a b) (children : List XmlNode) :
    (DitaMapAdapter.content a children).get? "text" = (GenericXmlAdapter.content b.text).get? "text" := by
  unfold DitaMapAdapter.content GenericXmlAdapter.content
  rw [← h.text_eq]
  by_cases htext : pyStrip (a.text.getD "") ≠ ""
  · rw [if_pos htext, if_pos htext, Dict.get?_insert, if_pos rfl]
    rfl
  · rw [if_neg htext, if_neg htext]
    cases extractNavtitle a.attrib children <;> rfl

/-- The shape of a map is that of the document without its metadata. -/
theorem Pruned.similar {cs ds : List XmlNode} (h : Pruned cs ds) :
    List.Forall₂ (Similar Overlay) (DitaMapAdapter.mapping.shapes cs) (GenericXmlAdapter.mapping.shapes ds) := by
  induction h with
  | nil =>
    rw [Mapping.shapes, Mapping.shapes]
    exact .nil
  | @metadata data children cs ds hmeta _ ih =>
    have hskip : DitaMapAdapter.mapping.takes (.element data children) = false := by
      show (!DitaMapAdapter.isMetadata data) = false
      rw [hmeta]
      rfl
    rwa [Mapping.shapes_skip hskip]
  | @kept a b as bs cs ds hkept hsame _ _ hbelow ih =>
    have htake : DitaMapAdapter.mapping.keeps a = true := by
      show (!DitaMapAdapter.isMetadata a) = true
      rw [hkept]
      rfl
    rw [Mapping.shapes_take htake, Mapping.shapes_take rfl]
    exact .cons (similar_node.mpr ⟨⟨a, as, b, hsame, rfl, rfl⟩, hbelow⟩) ih
  | other _ ih => rwa [Mapping.shapes_skip rfl, Mapping.shapes_skip rfl]

/-- The tree of a map is the generic tree of the map without its metadata, but for identities, titles
    and places in the document. -/
theorem dita_overlays {root root' : Element} (hroot : SameElement root.data root'.data)
    (hbelow : Pruned root.children root'.children) (documentUri documentUri' : Option String) : ∃ tree tree',
    DitaMapAdapter.adapt root documentUri = .ok tree ∧ GenericXmlAdapter.adapt root' documentUri' = .ok tree' ∧
      Rooted tree ∧ Rooted tree' ∧ Alike Overlaid tree tree' := by
  refine Mapping.adapt_alike (R := Overlay)
    (similar_node.mpr ⟨⟨root.data, root.children, root'.data, hroot, rfl, rfl⟩, hbelow.similar⟩)
    (fun slot x y count hxy => ?_) documentUri documentUri'
  obtain ⟨a, children, b, hsame, hx, hy⟩ := hxy
  have htype : x.nodeType = y.nodeType := by
    rw [hx, hy]
    exact hsame.nodeType_eq
  have hstructural : x.structuralProperties = y.structuralProperties := by
    rw [hx, hy]
    exact congrArg GenericXmlAdapter.structural hsame.attrib_eq
  have htext : x.contentProperties.get? "text" = y.contentProperties.get? "text" := by
    rw [hx, hy, DitaMapAdapter.buildNode_content, text_overlay hsame, GenericXmlAdapter.buildNode]
  exact ⟨⟨congrArg Subtype.val htype, rfl, rfl⟩, hstructural, htext⟩

/-! ## A map in a namespace -/

theorem qualifiedMap_ne : localName "\x7burn:x\x7dmap" ≠ "" := by decide

theorem qualifiedMeta_ne : localName "\x7burn:x\x7dtopicmeta" ≠ "" := by decide

theorem qualifiedRef_ne : localName "\x7burn:x\x7dtopicref" ≠ "" := by decide

/-- The root of a map with these nodes. -/
def qualifiedMap (children : List XmlNode) : Element where
  data := { tag := ⟨"\x7burn:x\x7dmap", qualifiedMap_ne⟩, attrib := Dict.empty, text := none, xpath := "/*" }
  children := children

def qualifiedMeta : XmlNode :=
  .element { tag := ⟨"\x7burn:x\x7dtopicmeta", qualifiedMeta_ne⟩, attrib := Dict.empty, text := none, xpath := "/*/*[1]" } []

/-- A topic; the number in its path is that among all elements below the root. -/
def qualifiedRef (xpath : String) : ElementData :=
  { tag := ⟨"\x7burn:x\x7dtopicref", qualifiedRef_ne⟩, attrib := Dict.empty, text := none, xpath := xpath }

theorem qualifiedMap_pruned :
    Pruned [qualifiedMeta, .element (qualifiedRef "/*/*[2]") []] [.element (qualifiedRef "/*/*") []] :=
  .metadata (by decide) (.kept (by decide) ⟨rfl, rfl, rfl⟩ .nil .nil)

theorem qualifiedMap_overlaid : ∃ tree tree',
    DitaMapAdapter.adapt (qualifiedMap [qualifiedMeta, .element (qualifiedRef "/*/*[2]") []]) none = .ok tree ∧
      GenericXmlAdapter.adapt (qualifiedMap [.element (qualifiedRef "/*/*") []]) none = .ok tree' ∧
      Rooted tree ∧ Rooted tree' ∧ Alike Overlaid tree tree' :=
  @dita_overlays (qualifiedMap [qualifiedMeta, .element (qualifiedRef "/*/*[2]") []])
    (qualifiedMap [.element (qualifiedRef "/*/*") []]) ⟨rfl, rfl, rfl⟩ qualifiedMap_pruned none none

end Reconciliation.Adapters
