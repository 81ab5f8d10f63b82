/-
  Reconciliation.Adapters.ParsedTrees — what the parsers accept can be adapted.

  The adapter checks keys and scalars on its own, and in another order than the walks of the
  parsers. A value whose keys are strings and whose scalars are supported is the parsed form of a
  canonical value (`exists_ofCanonical`), and the adapter builds of a parsed form what it builds
  of the value (`buildValue_ofCanonical`). So the parsers accept the same values, exactly
  those within the limits, and the adapter takes all of them (`structureLimits_agree`).
-/
import Reconciliation.Adapters.Lossless
import Reconciliation.Adapters.StructureLimits

namespace Reconciliation.Adapters

open Reconciliation.Base Reconciliation.Contracts Reconciliation.Builders

/-! ## Adapting parsed values -/

/-- The error that any other is wrapped into. -/
def failedToAdapt (documentUri : Option String) (cause : PyError) : DataTreeAdaptationError where
  message := "failed to adapt parsed data into a canonical tree"
  location := documentUri
  cause := cause

namespace ParsedValue

def nodeTypeForScalar : ParsedValue → Except DataTreeAdaptationError NodeType
  | .none => .ok ⟨"data:null", null_ne⟩
  | .bool _ => .ok ⟨"data:boolean", boolean_ne⟩
  | .str _ => .ok ⟨"data:string", string_ne⟩
  | .int _ | .float _ => .ok ⟨"data:number", number_ne⟩
  | value =>
    .error { message := "parsed data contains an unsupported scalar value", context := [("python_type", value.pythonType)] }

def canonicalScalar : ParsedValue → Except DataTreeAdaptationError CanonicalValue
  | .float f => if isFinite f then .ok (.float f) else .error { message := "non-finite numeric values are not supported" }
  | .none => .ok .none
  | .str s => .ok (.str s)
  | .int z => .ok (.int z)
  | .bool b => .ok (.bool b)
  | value =>
    .error { message := "parsed data contains a non-canonical scalar value", context := [("python_type", value.pythonType)] }

def scalarContent [PyRuntime] (value : ParsedValue) : Except DataTreeAdaptationError Properties := do
  let canonical ← value.canonicalScalar
  let content := property "value" canonical
  match canonical with
  | .none => return content
  | canonical => return content.insert "text" (.str canonical.pyStr)

/-- The check of all keys, before any member is built. -/
def checkKeys (documentUri : Option String) (path : String) :
    List (ParsedKey × ParsedValue) → Except DataTreeAdaptationError Unit
  | [] => .ok ()
  | (.str _, _) :: rest => checkKeys documentUri path rest
  | (.other typeName, _) :: _ =>
    .error { message := "data object keys must be strings", location := documentUri,
             context := [("key_type", typeName), ("path", path)] }

section Building
variable [PyRuntime] [KeyRuntime] (documentUri : Option String)

mutual

def buildValue : ParsedValue → Slot → String → Nodes → Except DataTreeAdaptationError Nodes
  | .dict entries, slot, path, nodes => do
    checkKeys documentUri path entries
    buildMembers entries slot 0 path (nodes.insert slot.ref (slot.node (objectData path) entries.length))
  | .list items, slot, path, nodes =>
    buildItems items slot 0 path (nodes.insert slot.ref (slot.node (arrayData path) items.length))
  | value, slot, path, nodes => do
    let nodeType ← value.nodeTypeForScalar
    let content ← value.scalarContent
    return nodes.insert slot.ref (slot.node { nodeType, contentProperties := content, xpath := path } 0)

/-- The loop over the members of an object, whose keys have been checked. -/
def buildMembers : List (ParsedKey × ParsedValue) → Slot → Nat → String → Nodes → Except DataTreeAdaptationError Nodes
  | [], _, _, _, nodes => .ok nodes
  | (.other _, _) :: _, _, _, _, _ => .error (failedToAdapt documentUri .assertionError)
  | (.str key, childValue) :: rest, slot, index, path, nodes => do
    let propertySlot := slot.child index
    let childPath := pathChild path (.inl key)
    if childValue.isContainer then
      let nodes := nodes.insert propertySlot.ref (propertySlot.node (propertyData key Dict.empty childPath) 1)
      let nodes ← buildValue childValue (propertySlot.child 0) childPath nodes
      buildMembers rest slot (index + 1) path nodes
    else
      let content ← childValue.scalarContent
      let nodes := nodes.insert propertySlot.ref (propertySlot.node (propertyData key content childPath) 0)
      buildMembers rest slot (index + 1) path nodes

def buildItems : List ParsedValue → Slot → Nat → String → Nodes → Except DataTreeAdaptationError Nodes
  | [], _, _, _, nodes => .ok nodes
  | childValue :: rest, slot, index, path, nodes => do
    let itemSlot := slot.child index
    let childPath := pathChild path (.inr index)
    if childValue.isContainer then
      let nodes := nodes.insert itemSlot.ref (itemSlot.node (itemData index Dict.empty childPath) 1)
      let nodes ← buildValue childValue (itemSlot.child 0) childPath nodes
      buildItems rest slot (index + 1) path nodes
    else
      let content ← childValue.scalarContent
      let nodes := nodes.insert itemSlot.ref (itemSlot.node (itemData index content childPath) 0)
      buildItems rest slot (index + 1) path nodes

end

end Building

end ParsedValue

/-- `adapt`, of a value of any type. -/
def DataTreeAdapter.adaptParsed [PyRuntime] [KeyRuntime] (adapter : DataTreeAdapter) (value : ParsedValue)
    (documentUri : Option String) : Except DataTreeAdaptationError CanonicalTree := do
  let root := Slot.root
  let nodes := Dict.empty.insert root.ref (root.node (documentData adapter.sourceFormat) 1)
  let nodes ← value.buildValue documentUri (root.child 0) "$" nodes
  match canonicalTree root.ref nodes with
  | .ok tree => .ok tree
  | .error cause => .error (failedToAdapt documentUri cause)

/-! ## The parsed form of a canonical value -/

namespace ParsedValue

mutual

def ofCanonical : CanonicalValue → ParsedValue
  | .none => .none
  | .bool b => .bool b
  | .int z => .int z
  | .float f => .float f
  | .str s => .str s
  | .list items => .list (ofItems items)
  | .dict entries => .dict (ofMembers entries)

def ofItems : List CanonicalValue → List ParsedValue
  | [] => []
  | value :: rest => ofCanonical value :: ofItems rest

def ofMembers : List (String × CanonicalValue) → List (ParsedKey × ParsedValue)
  | [] => []
  | (key, value) :: rest => (.str key, ofCanonical value) :: ofMembers rest

end

theorem length_ofItems (items : List CanonicalValue) : (ofItems items).length = items.length := by
  induction items with
  | nil => rfl
  | cons value rest ih => rw [ofItems, List.length_cons, List.length_cons, ih]

theorem length_ofMembers (entries : List (String × CanonicalValue)) : (ofMembers entries).length = entries.length := by
  induction entries with
  | nil => rfl
  | cons entry rest ih => rw [ofMembers, List.length_cons, List.length_cons, ih]

theorem isContainer_ofCanonical (value : CanonicalValue) : (ofCanonical value).isContainer = Adapters.isContainer value := by
  cases value <;> rfl

theorem checkKeys_ofMembers (documentUri : Option String) (path : String) (entries : List (String × CanonicalValue)) :
    checkKeys documentUri path (ofMembers entries) = .ok () := by
  induction entries with
  | nil => rfl
  | cons entry rest ih => rw [ofMembers, checkKeys, ih]

section Building
variable [PyRuntime]

theorem scalarContent_ofCanonical {value : CanonicalValue} (hscalar : Adapters.isContainer value = false) :
    (ofCanonical value).scalarContent = Adapters.scalarContent value := by
  cases value with
  | list | dict => cases hscalar
  | _ => rfl

variable [KeyRuntime] (documentUri : Option String)

theorem buildScalar_ofCanonical {value : CanonicalValue} (hscalar : Adapters.isContainer value = false) (slot : Slot)
    (path : String) (nodes : Nodes) :
    (ofCanonical value).buildValue documentUri slot path nodes = Adapters.buildValue value slot path nodes := by
  cases value with
  | list | dict => cases hscalar
  | _ =>
    simp only [ofCanonical, buildValue, Adapters.buildValue]
    rfl

mutual

/-- Of a parsed form the adapter builds what it builds of the value. -/
theorem buildValue_ofCanonical : ∀ (value : CanonicalValue) (slot : Slot) (path : String) (nodes : Nodes),
    (ofCanonical value).buildValue documentUri slot path nodes = Adapters.buildValue value slot path nodes
  | .dict entries, slot, path, nodes => by
    rw [ofCanonical, buildValue, Adapters.buildValue, checkKeys_ofMembers, length_ofMembers]
    exact buildMembers_ofMembers entries slot 0 path _
  | .list items, slot, path, nodes => by
    rw [ofCanonical, buildValue, Adapters.buildValue, length_ofItems]
    exact buildItems_ofItems items slot 0 path _
  | .none, slot, path, nodes => buildScalar_ofCanonical documentUri rfl slot path nodes
  | .bool _, slot, path, nodes => buildScalar_ofCanonical documentUri rfl slot path nodes
  | .int _, slot, path, nodes => buildScalar_ofCanonical documentUri rfl slot path nodes
  | .float _, slot, path, nodes => buildScalar_ofCanonical documentUri rfl slot path nodes
  | .str _, slot, path, nodes => buildScalar_ofCanonical documentUri rfl slot path nodes

theorem buildMembers_ofMembers : ∀ (entries : List (String × CanonicalValue)) (slot : Slot) (index : Nat) (path : String)
    (nodes : Nodes), buildMembers documentUri (ofMembers entries) slot index path nodes =
      Adapters.buildMembers entries slot index path nodes
  | [], slot, index, path, nodes => by rw [ofMembers, buildMembers, Adapters.buildMembers]
  | (key, value) :: rest, slot, index, path, nodes => by
    rw [ofMembers, buildMembers, Adapters.buildMembers, isContainer_ofCanonical]
    simp only [buildValue_ofCanonical value, buildMembers_ofMembers rest]
    cases hvalue : Adapters.isContainer value with
    | true => rfl
    | false => rw [scalarContent_ofCanonical hvalue]

theorem buildItems_ofItems : ∀ (items : List CanonicalValue) (slot : Slot) (index : Nat) (path : String) (nodes : Nodes),
    buildItems documentUri (ofItems items) slot index path nodes = Adapters.buildItems items slot index path nodes
  | [], slot, index, path, nodes => by rw [ofItems, buildItems, Adapters.buildItems]
  | value :: rest, slot, index, path, nodes => by
    rw [ofItems, buildItems, Adapters.buildItems, isContainer_ofCanonical]
    simp only [buildValue_ofCanonical value, buildItems_ofItems rest]
    cases hvalue : Adapters.isContainer value with
    | true => rfl
    | false => rw [scalarContent_ofCanonical hvalue]

end

end Building

/-! ## Admissible values -/

section Admissible
variable {maxDepth : Int}

theorem occurrences_self (depth : Nat) (value : ParsedValue) : (depth, value) ∈ occurrences depth value := by
  cases value <;> simp [occurrences]

/-- A supported scalar is the parsed form of a finite one. -/
theorem exists_scalar {value : ParsedValue} (h : value.supported = true) :
    ∃ canonical, ofCanonical canonical = value ∧ allFinite canonical = true := by
  cases value with
  | none => exact ⟨.none, rfl, rfl⟩
  | bool b => exact ⟨.bool b, rfl, rfl⟩
  | int z => exact ⟨.int z, rfl, rfl⟩
  | float f => exact ⟨.float f, rfl, h⟩
  | str s => exact ⟨.str s, rfl, rfl⟩
  | date | other | list | dict => cases h

mutual

/-- A value of admissible nodes is the parsed form of a canonical value with finite numbers. -/
theorem exists_ofCanonical : ∀ (value : ParsedValue) (depth : Nat),
    (∀ node ∈ occurrences depth value, Admissible maxDepth node) →
      ∃ canonical, ofCanonical canonical = value ∧ allFinite canonical = true
  | .dict entries, depth, h => by
    rw [occurrences, List.forall_mem_cons] at h
    obtain ⟨canonical, hof, hfinite⟩ := exists_ofMembers entries (depth + 1) (h.1.keys entries rfl) h.2
    exact ⟨.dict canonical, by rw [ofCanonical, hof], by rw [allFinite, hfinite]⟩
  | .list items, depth, h => by
    rw [occurrences, List.forall_mem_cons] at h
    obtain ⟨canonical, hof, hfinite⟩ := exists_ofItems items (depth + 1) h.2
    exact ⟨.list canonical, by rw [ofCanonical, hof], by rw [allFinite, hfinite]⟩
  | .none, depth, h => exists_scalar ((h _ (occurrences_self depth _)).leaf rfl)
  | .bool _, depth, h => exists_scalar ((h _ (occurrences_self depth _)).leaf rfl)
  | .int _, depth, h => exists_scalar ((h _ (occurrences_self depth _)).leaf rfl)
  | .float _, depth, h => exists_scalar ((h _ (occurrences_self depth _)).leaf rfl)
  | .str _, depth, h => exists_scalar ((h _ (occurrences_self depth _)).leaf rfl)
  | .date _, depth, h => exists_scalar ((h _ (occurrences_self depth _)).leaf rfl)
  | .other _, depth, h => exists_scalar ((h _ (occurrences_self depth _)).leaf rfl)

theorem exists_ofMembers : ∀ (entries : List (ParsedKey × ParsedValue)) (depth : Nat), StringKeys entries →
    (∀ node ∈ memberOccurrences depth entries, Admissible maxDepth node) →
      ∃ canonical, ofMembers canonical = entries ∧ allFiniteMembers canonical = true
  | [], _, _, _ => ⟨[], rfl, rfl⟩
  | (key, child) :: rest, depth, hkeys, h => by
    rw [memberOccurrences, List.forall_mem_append] at h
    obtain ⟨name, rfl⟩ := hkeys _ List.mem_cons_self
    obtain ⟨value, hvalue, hfinite⟩ := exists_ofCanonical child depth h.1
    obtain ⟨canonical, hof, hrest⟩ :=
      exists_ofMembers rest depth (fun e he => hkeys e (List.mem_cons_of_mem _ he)) h.2
    exact ⟨(name, value) :: canonical, by rw [ofMembers, hvalue, hof], by rw [allFiniteMembers, hfinite, hrest]; rfl⟩

theorem exists_ofItems : ∀ (items : List ParsedValue) (depth : Nat),
    (∀ node ∈ itemOccurrences depth items, Admissible maxDepth node) →
      ∃ canonical, ofItems canonical = items ∧ allFiniteItems canonical = true
  | [], _, _ => ⟨[], rfl, rfl⟩
  | child :: rest, depth, h => by
    rw [itemOccurrences, List.forall_mem_append] at h
    obtain ⟨value, hvalue, hfinite⟩ := exists_ofCanonical child depth h.1
    obtain ⟨canonical, hof, hrest⟩ := exists_ofItems rest depth h.2
    exact ⟨value :: canonical, by rw [ofItems, hvalue, hof], by rw [allFiniteItems, hfinite, hrest]; rfl⟩

end

end Admissible

end ParsedValue

/-! ## The checks agree -/

/-- The adapter takes every value within some limits. -/
theorem adaptParsed_total [PyRuntime] [KeyRuntime] (adapter : DataTreeAdapter) (documentUri : Option String)
    {maxNodes maxDepth : Int} {value : ParsedValue} (h : WithinLimits maxNodes maxDepth value) :
    ∃ tree, adapter.adaptParsed value documentUri = .ok tree := by
  obtain ⟨canonical, rfl, hfinite⟩ := ParsedValue.exists_ofCanonical value 1 h.admissible
  obtain ⟨tree, htree, -⟩ := adapt_represents adapter documentUri hfinite
  refine ⟨tree, ?_⟩
  unfold DataTreeAdapter.adaptParsed
  simp only [ParsedValue.buildValue_ofCanonical]
  exact htree

/-- Under the same limits both parsers accept the same values, those within the limits, and the
    adapter takes every one of them. -/
theorem structureLimits_agree (json : SecureJsonParser) (yaml : SecureYamlParser)
    (hnodes : json.limits.maxNodes = yaml.limits.maxNodes) (hdepth : json.limits.maxDepth = yaml.limits.maxDepth)
    (value : ParsedValue) (jsonUri yamlUri : Option String) :
    (json.enforceStructureLimits value jsonUri = .ok () ↔ yaml.enforceStructureLimits value yamlUri = .ok ()) ∧
      (json.enforceStructureLimits value jsonUri = .ok () ↔
        WithinLimits json.limits.maxNodes json.limits.maxDepth value) ∧
      (json.enforceStructureLimits value jsonUri = .ok () →
        ∀ (_ : PyRuntime) (_ : KeyRuntime) (adapter : DataTreeAdapter) (documentUri : Option String),
          ∃ tree, adapter.adaptParsed value documentUri = .ok tree) := by
  rw [json.accepts_iff, yaml.accepts_iff, hnodes, hdepth]
  exact ⟨Iff.rfl, Iff.rfl, fun h _ _ adapter documentUri => adaptParsed_total adapter documentUri h⟩

/-- A mapping with a list in it, at the limit of four nodes and three levels. -/
def taggedValue : ParsedValue :=
  .dict [(.str "title", .str "Setup"), (.str "tags", .list [.bool true])]

theorem taggedValue_accepted :
    (SecureJsonParser.mk ⟨3, 4⟩).enforceStructureLimits taggedValue none = .ok () ∧
      (SecureYamlParser.mk ⟨3, 4⟩).enforceStructureLimits taggedValue none = .ok () ∧
      ∃ tree, @DataTreeAdapter.adaptParsed asciiRuntime asciiKeys ⟨"json"⟩ taggedValue none = .ok tree := by
  obtain ⟨hsame, -, hadapt⟩ := structureLimits_agree ⟨⟨3, 4⟩⟩ ⟨⟨3, 4⟩⟩ rfl rfl taggedValue none none
  have hjson : (SecureJsonParser.mk ⟨3, 4⟩).enforceStructureLimits taggedValue none = .ok () := by decide +kernel
  exact ⟨hjson, hsame.mp hjson, hadapt hjson asciiRuntime asciiKeys ⟨"json"⟩ none⟩

/-- One node less, one level less, and a key that is no string. -/
example : (SecureJsonParser.mk ⟨3, 3⟩).enforceStructureLimits taggedValue none =
      .error ⟨"UNSAFE_JSON", "JSON input exceeds the configured maximum node count", none, [("limit", .inl 3)]⟩ ∧
    (SecureYamlParser.mk ⟨2, 4⟩).enforceStructureLimits taggedValue none =
      .error ⟨"UNSAFE_YAML", "YAML input exceeds the configured maximum nesting depth", none, [("limit", .inl 2)]⟩ ∧
    (SecureYamlParser.mk {}).enforceStructureLimits (.dict [(.other "int", .none)]) none =
      .error ⟨"UNSAFE_YAML", "YAML mapping keys must be strings", none, [("key_type", .inr "int")]⟩ := by
  decide +kernel

end Reconciliation.Adapters
