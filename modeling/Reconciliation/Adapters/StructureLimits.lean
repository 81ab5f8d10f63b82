/-
  Reconciliation.Adapters.StructureLimits — the limits on the structure of untrusted input.

  A parsed value is of any type, as are the keys of its mappings. The walks of the JSON and of the
  YAML parser raise in the middle of a recursion whose branches share one counter. A walk that
  passes has counted every node once for each occurrence (`walk_ok`), so both parsers accept
  exactly the values that are within the limits, have strings for keys and hold no scalar but
  the supported ones (`SecureJsonParser.accepts_iff`, `SecureYamlParser.accepts_iff`).
-/
import Reconciliation.Adapters.DataTree

namespace Reconciliation.Adapters

open Reconciliation.Base Reconciliation.Contracts

/-! ## Parsed values -/

/-- A key of a mapping; of one that is not a string, its type. -/
inductive ParsedKey where
  | str (s : String)
  | other (typeName : String)
  deriving DecidableEq

/-- What a parser returns. Of a date, and of a scalar of any other type, only the type is kept. -/
inductive ParsedValue where
  | none
  | bool (b : Bool)
  | int (z : Int)
  | float (f : PyFloat)
  | str (s : String)
  /-- `datetime` and `date`. -/
  | date (typeName : String)
  | other (typeName : String)
  | list (items : List ParsedValue)
  | dict (entries : List (ParsedKey × ParsedValue))

namespace ParsedValue

def isContainer : ParsedValue → Bool
  | .list _ | .dict _ => true
  | _ => false

/-- `type(value).__name__`. -/
def pythonType : ParsedValue → String
  | .none => "NoneType"
  | .bool _ => "bool"
  | .int _ => "int"
  | .float _ => "float"
  | .str _ => "str"
  | .date typeName => typeName
  | .other typeName => typeName
  | .list _ => "list"
  | .dict _ => "dict"

/-- Null, a string, a boolean, an integer or a finite float. -/
def supported : ParsedValue → Bool
  | .none | .bool _ | .int _ | .str _ => true
  | .float f => isFinite f
  | _ => false

end ParsedValue

/-! ## The walks -/

/-- `UnsafeJsonError` and `UnsafeYamlError`, told apart by their codes. -/
structure UnsafeInputError where
  code : String
  message : String
  location : Option String
  context : List (String × (Int ⊕ String)) := []
  deriving DecidableEq

/-- What a walk closes over: the limits, its texts, and its checks of scalars. -/
structure WalkRules where
  maxNodes : Int
  maxDepth : Int
  code : String
  location : Option String
  nodeCountMessage : String
  depthMessage : String
  keyMessage : String
  checkScalar : ParsedValue → Except UnsafeInputError Unit

section Walk
variable (rules : WalkRules)

/-- Count a node, and check both limits. -/
def enter (depth count : Nat) : Except UnsafeInputError Nat :=
  let count := count + 1
  if rules.maxNodes < count then
    .error ⟨rules.code, rules.nodeCountMessage, rules.location, [("limit", .inl rules.maxNodes)]⟩
  else if rules.maxDepth < depth then
    .error ⟨rules.code, rules.depthMessage, rules.location, [("limit", .inl rules.maxDepth)]⟩
  else .ok count

mutual

/-- `walk`, from a count to the count after it. -/
def walk : ParsedValue → Nat → Nat → Except UnsafeInputError Nat
  | .dict entries, depth, count => do
    let count ← enter rules depth count
    walkMembers entries (depth + 1) count
  | .list items, depth, count => do
    let count ← enter rules depth count
    walkItems items (depth + 1) count
  | current, depth, count => do
    let count ← enter rules depth count
    rules.checkScalar current
    return count

def walkMembers : List (ParsedKey × ParsedValue) → Nat → Nat → Except UnsafeInputError Nat
  | [], _, count => .ok count
  | (.other typeName, _) :: _, _, _ =>
    .error ⟨rules.code, rules.keyMessage, rules.location, [("key_type", .inr typeName)]⟩
  | (.str _, child) :: rest, depth, count => do
    let count ← walk child depth count
    walkMembers rest depth count

def walkItems : List ParsedValue → Nat → Nat → Except UnsafeInputError Nat
  | [], _, count => .ok count
  | child :: rest, depth, count => do
    let count ← walk child depth count
    walkItems rest depth count

end

end Walk

structure JsonSecurityLimits where
  maxDepth : Int := 100
  maxNodes : Int := 100000

structure YamlSecurityLimits where
  maxDepth : Int := 100
  maxNodes : Int := 100000

structure SecureJsonParser where
  limits : JsonSecurityLimits := {}

structure SecureYamlParser where
  limits : YamlSecurityLimits := {}

def checkJsonScalar (documentUri : Option String) : ParsedValue → Except UnsafeInputError Unit
  | .float f =>
    if isFinite f then .ok ()
    else .error ⟨"UNSAFE_JSON", "JSON non-finite numeric values are not supported", documentUri, []⟩
  | .none | .str _ | .int _ | .bool _ => .ok ()
  | current =>
    .error ⟨"UNSAFE_JSON", "JSON value has an unsupported type", documentUri, [("python_type", .inr current.pythonType)]⟩

def checkYamlScalar (documentUri : Option String) : ParsedValue → Except UnsafeInputError Unit
  | .float f =>
    if isFinite f then .ok ()
    else .error ⟨"UNSAFE_YAML", "YAML non-finite numeric values are not supported", documentUri, []⟩
  | .date _ =>
    .error ⟨"UNSAFE_YAML", "YAML timestamp values are not supported by the generic data adapter", documentUri, []⟩
  | .none | .str _ | .int _ | .bool _ => .ok ()
  | current =>
    .error ⟨"UNSAFE_YAML", "YAML value has an unsupported type", documentUri, [("python_type", .inr current.pythonType)]⟩

def SecureJsonParser.rules (parser : SecureJsonParser) (documentUri : Option String) : WalkRules where
  maxNodes := parser.limits.maxNodes
  maxDepth := parser.limits.maxDepth
  code := "UNSAFE_JSON"
  location := documentUri
  nodeCountMessage := "JSON input exceeds the configured maximum node count"
  depthMessage := "JSON input exceeds the configured maximum nesting depth"
  keyMessage := "JSON object keys must be strings"
  checkScalar := checkJsonScalar documentUri

def SecureYamlParser.rules (parser : SecureYamlParser) (documentUri : Option String) : WalkRules where
  maxNodes := parser.limits.maxNodes
  maxDepth := parser.limits.maxDepth
  code := "UNSAFE_YAML"
  location := documentUri
  nodeCountMessage := "YAML input exceeds the configured maximum node count"
  depthMessage := "YAML input exceeds the configured maximum nesting depth"
  keyMessage := "YAML mapping keys must be strings"
  checkScalar := checkYamlScalar documentUri

def SecureJsonParser.enforceStructureLimits (parser : SecureJsonParser) (value : ParsedValue) (documentUri : Option String) :
    Except UnsafeInputError Unit := do
  let _ ← walk (parser.rules documentUri) value 1 0

def SecureYamlParser.enforceStructureLimits (parser : SecureYamlParser) (value : ParsedValue) (documentUri : Option String) :
    Except UnsafeInputError Unit := do
  let _ ← walk (parser.rules documentUri) value 1 0

/-! ## What is within the limits -/

mutual

/-- The nodes of a value with their depths, each once for every occurrence. -/
def occurrences (depth : Nat) : ParsedValue → List (Nat × ParsedValue)
  | .dict entries => (depth, .dict entries) :: memberOccurrences (depth + 1) entries
  | .list items => (depth, .list items) :: itemOccurrences (depth + 1) items
  | value => [(depth, value)]

def memberOccurrences (depth : Nat) : List (ParsedKey × ParsedValue) → List (Nat × ParsedValue)
  | [] => []
  | (_, child) :: rest => occurrences depth child ++ memberOccurrences depth rest

def itemOccurrences (depth : Nat) : List ParsedValue → List (Nat × ParsedValue)
  | [] => []
  | child :: rest => occurrences depth child ++ itemOccurrences depth rest

end

def StringKeys (entries : List (ParsedKey × ParsedValue)) : Prop := ∀ e ∈ entries, ∃ name, e.1 = .str name

/-- What is asked of a node at a depth. -/
structure Admissible (maxDepth : Int) (node : Nat × ParsedValue) : Prop where
  depth : node.1 ≤ maxDepth
  keys : ∀ entries, node.2 = .dict entries → StringKeys entries
  leaf : node.2.isContainer = false → node.2.supported = true

structure WithinLimits (maxNodes maxDepth : Int) (value : ParsedValue) : Prop where
  nodes : (occurrences 1 value).length ≤ maxNodes
  admissible : ∀ node ∈ occurrences 1 value, Admissible maxDepth node

/-! ## The walks accept exactly that -/

/-- From one count to the other the nodes are counted, each admissible, and the limit is kept. -/
def Counts (rules : WalkRules) (nodes : List (Nat × ParsedValue)) (count count' : Nat) : Prop :=
  count' = count + nodes.length ∧ count' ≤ rules.maxNodes ∧ ∀ node ∈ nodes, Admissible rules.maxDepth node

section Acceptance
variable {rules : WalkRules}

theorem enter_ok {depth count count' : Nat} : enter rules depth count = .ok count' ↔
    count' = count + 1 ∧ count' ≤ rules.maxNodes ∧ depth ≤ rules.maxDepth := by
  unfold enter
  by_cases hnodes : rules.maxNodes < ((count + 1 : Nat) : Int)
  · simp only [hnodes, if_true, reduceCtorEq, false_iff]
    rintro ⟨rfl, hle, -⟩
    omega
  · simp only [hnodes, if_false]
    by_cases hdepth : rules.maxDepth < (depth : Int)
    · simp only [hdepth, if_true, reduceCtorEq, false_iff]
      rintro ⟨-, -, hle⟩
      omega
    · simp only [hdepth, if_false, Except.ok.injEq]
      constructor
      · rintro rfl
        exact ⟨rfl, by omega, by omega⟩
      · rintro ⟨rfl, -⟩
        rfl

theorem counts_nil {count count' : Nat} (hcount : count ≤ rules.maxNodes) :
    Counts rules [] count count' ↔ count' = count := by
  unfold Counts
  constructor
  · intro h
    simpa using h.1
  · rintro rfl
    exact ⟨by simp, hcount, by simp⟩

/-- One list of nodes after another, with the count handed on. -/
theorem counts_append {first second : List (Nat × ParsedValue)} {count count' : Nat} :
    Counts rules (first ++ second) count count' ↔
      ∃ between, Counts rules first count between ∧ Counts rules second between count' := by
  unfold Counts
  rw [List.length_append, List.forall_mem_append]
  constructor
  · rintro ⟨hcount, hle, hfirst, hsecond⟩
    exact ⟨count + first.length, ⟨rfl, by omega, hfirst⟩, by omega, hle, hsecond⟩
  · rintro ⟨between, ⟨hbetween, -, hfirst⟩, hcount, hle, hsecond⟩
    exact ⟨by omega, hle, hfirst, hsecond⟩

theorem counts_cons {node : Nat × ParsedValue} {nodes : List (Nat × ParsedValue)} {count count' : Nat} :
    Counts rules (node :: nodes) count count' ↔
      ∃ between, Counts rules [node] count between ∧ Counts rules nodes between count' :=
  @counts_append rules [node] nodes count count'

/-- A container passes when its keys are strings, and what it holds passes at the count after it. -/
theorem counts_container {node : Nat × ParsedValue} {below : List (Nat × ParsedValue)} {count count' : Nat}
    (hcontainer : node.2.isContainer = true) : Counts rules (node :: below) count count' ↔
      ∃ between, enter rules node.1 count = .ok between ∧
        (∀ entries, node.2 = .dict entries → StringKeys entries) ∧ Counts rules below between count' := by
  rw [counts_cons]
  refine exists_congr fun between => ?_
  rw [← and_assoc]
  refine and_congr_left fun _ => ?_
  rw [enter_ok]
  unfold Counts
  rw [List.forall_mem_singleton]
  constructor
  · rintro ⟨hcount, hle, hnode⟩
    exact ⟨⟨hcount, hle, hnode.depth⟩, hnode.keys⟩
  · rintro ⟨⟨hcount, hle, hdepth⟩, hkeys⟩
    exact ⟨hcount, hle, hdepth, hkeys, fun hleaf => by rw [hcontainer] at hleaf; cases hleaf⟩

/-- The checks of scalars let the supported ones pass. -/
def ChecksScalars (rules : WalkRules) : Prop :=
  ∀ value : ParsedValue, value.isContainer = false → (rules.checkScalar value = .ok () ↔ value.supported = true)

/-- A scalar passes when it is counted within the limits and supported. -/
theorem walk_scalar (hchecks : ChecksScalars rules) {value : ParsedValue} (hscalar : value.isContainer = false)
    (depth count count' : Nat) :
    walk rules value depth count = .ok count' ↔ Counts rules (occurrences depth value) count count' := by
  have hwalk : walk rules value depth count = (do
      let count ← enter rules depth count
      rules.checkScalar value
      return count) ∧ occurrences depth value = [(depth, value)] := by
    cases value with
    | list | dict => cases hscalar
    | _ => simp [walk, occurrences]
  have hnode : Admissible rules.maxDepth (depth, value) ↔ depth ≤ rules.maxDepth ∧ value.supported = true := by
    constructor
    · intro h
      exact ⟨h.depth, h.leaf hscalar⟩
    · intro h
      refine ⟨h.1, ?_, fun _ => h.2⟩
      rintro entries rfl
      cases hscalar
  rw [hwalk.1, hwalk.2]
  simp only [Outcome.bind_ok, enter_ok, hchecks value hscalar, pure, Except.pure, Except.ok.injEq, Counts,
    List.length_singleton, List.forall_mem_singleton, hnode]
  constructor
  · rintro ⟨between, ⟨hcount, hle, hdepth⟩, _, hsupported, rfl⟩
    exact ⟨hcount, hle, hdepth, hsupported⟩
  · rintro ⟨hcount, hle, hdepth, hsupported⟩
    exact ⟨count', ⟨hcount, hle, hdepth⟩, (), hsupported, rfl⟩

mutual

/-- A walk passes exactly over admissible nodes that fit under the limit, and has then counted them. -/
theorem walk_ok (hchecks : ChecksScalars rules) : ∀ (value : ParsedValue) (depth count count' : Nat),
    walk rules value depth count = .ok count' ↔ Counts rules (occurrences depth value) count count'
  | .dict entries, depth, count, count' => by
    rw [walk, occurrences, counts_container rfl, Outcome.bind_ok]
    refine exists_congr fun between => and_congr_right fun henter => ?_
    rw [walkMembers_ok hchecks entries (depth + 1) between count' (enter_ok.mp henter).2.1]
    simp
  | .list items, depth, count, count' => by
    rw [walk, occurrences, counts_container rfl, Outcome.bind_ok]
    refine exists_congr fun between => and_congr_right fun henter => ?_
    rw [walkItems_ok hchecks items (depth + 1) between count' (enter_ok.mp henter).2.1]
    simp
  | .none, depth, count, count' => walk_scalar hchecks rfl depth count count'
  | .bool _, depth, count, count' => walk_scalar hchecks rfl depth count count'
  | .int _, depth, count, count' => walk_scalar hchecks rfl depth count count'
  | .float _, depth, count, count' => walk_scalar hchecks rfl depth count count'
  | .str _, depth, count, count' => walk_scalar hchecks rfl depth count count'
  | .date _, depth, count, count' => walk_scalar hchecks rfl depth count count'
  | .other _, depth, count, count' => walk_scalar hchecks rfl depth count count'

theorem walkMembers_ok (hchecks : ChecksScalars rules) : ∀ (entries : List (ParsedKey × ParsedValue))
    (depth count count' : Nat), count ≤ rules.maxNodes → (walkMembers rules entries depth count = .ok count' ↔
      StringKeys entries ∧ Counts rules (memberOccurrences depth entries) count count')
  | [], depth, count, count', hcount => by
    rw [walkMembers, memberOccurrences, counts_nil hcount, Except.ok.injEq]
    simp [StringKeys, eq_comm]
  | (.other typeName, child) :: rest, depth, count, count', _ => by
    rw [walkMembers]
    simp [StringKeys]
  | (.str name, child) :: rest, depth, count, count', _ => by
    rw [walkMembers, memberOccurrences, counts_append, Outcome.bind_ok]
    have hkeys : StringKeys ((.str name, child) :: rest) ↔ StringKeys rest := by simp [StringKeys]
    rw [hkeys]
    constructor
    · rintro ⟨between, hchild, hrest⟩
      have hcounts := (walk_ok hchecks child depth count between).mp hchild
      obtain ⟨hstrings, hrest⟩ := (walkMembers_ok hchecks rest depth between count' hcounts.2.1).mp hrest
      exact ⟨hstrings, between, hcounts, hrest⟩
    · rintro ⟨hstrings, between, hcounts, hrest⟩
      exact ⟨between, (walk_ok hchecks child depth count between).mpr hcounts,
        (walkMembers_ok hchecks rest depth between count' hcounts.2.1).mpr ⟨hstrings, hrest⟩⟩

theorem walkItems_ok (hchecks : ChecksScalars rules) : ∀ (items : List ParsedValue) (depth count count' : Nat),
    count ≤ rules.maxNodes →
      (walkItems rules items depth count = .ok count' ↔ Counts rules (itemOccurrences depth items) count count')
  | [], depth, count, count', hcount => by
    rw [walkItems, itemOccurrences, counts_nil hcount, Except.ok.injEq, eq_comm]
  | child :: rest, depth, count, count', _ => by
    rw [walkItems, itemOccurrences, counts_append, Outcome.bind_ok]
    refine exists_congr fun between => ?_
    rw [walk_ok hchecks child depth count between]
    exact and_congr_right fun hcounts => walkItems_ok hchecks rest depth between count' hcounts.2.1

end

/-- What a parser accepts, whatever its texts. -/
theorem accepts_iff (hchecks : ChecksScalars rules) (value : ParsedValue) :
    (do let _ ← walk rules value 1 0) = Except.ok () ↔ WithinLimits rules.maxNodes rules.maxDepth value := by
  have hpass : (do let _ ← walk rules value 1 0) = Except.ok () ↔ ∃ count, walk rules value 1 0 = .ok count := by
    cases walk rules value 1 0 with
    | error e => simp [bind, Except.bind]
    | ok count => simp [bind, Except.bind, pure, Except.pure]
  rw [hpass]
  simp only [walk_ok hchecks]
  unfold Counts
  constructor
  · rintro ⟨count, hcount, hle, hadmissible⟩
    exact ⟨by omega, hadmissible⟩
  · intro h
    exact ⟨_, rfl, by rw [Nat.zero_add]; exact h.nodes, h.admissible⟩

end Acceptance

section Parsers
variable {value : ParsedValue} {documentUri : Option String}

theorem checkJsonScalar_ok (hscalar : value.isContainer = false) :
    checkJsonScalar documentUri value = .ok () ↔ value.supported = true := by
  cases value with
  | list | dict => cases hscalar
  | float f => by_cases hf : isFinite f = true <;> simp [checkJsonScalar, ParsedValue.supported, hf]
  | _ => simp [checkJsonScalar, ParsedValue.supported]

theorem checkYamlScalar_ok (hscalar : value.isContainer = false) :
    checkYamlScalar documentUri value = .ok () ↔ value.supported = true := by
  cases value with
  | list | dict => cases hscalar
  | float f => by_cases hf : isFinite f = true <;> simp [checkYamlScalar, ParsedValue.supported, hf]
  | _ => simp [checkYamlScalar, ParsedValue.supported]

theorem SecureJsonParser.accepts_iff (parser : SecureJsonParser) : parser.enforceStructureLimits value documentUri = .ok () ↔
    WithinLimits parser.limits.maxNodes parser.limits.maxDepth value :=
  @Adapters.accepts_iff (parser.rules documentUri) (fun _ => checkJsonScalar_ok) value

theorem SecureYamlParser.accepts_iff (parser : SecureYamlParser) : parser.enforceStructureLimits value documentUri = .ok () ↔
    WithinLimits parser.limits.maxNodes parser.limits.maxDepth value :=
  @Adapters.accepts_iff (parser.rules documentUri) (fun _ => checkYamlScalar_ok) value

end Parsers

end Reconciliation.Adapters
