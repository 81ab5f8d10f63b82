/-
  Reconciliation.Reports.JsonMembers — the bundled JSON profile and the order of object members.

  Under `generic-json-v1` a node is matched with its image unless another node of the tree
  gives the same evidence (`matched_iff_not_repeated`): two scores below 1 are never that near.
  So documents that are equal but for the order of members are reported without a change
  exactly when below a repeated node, the document apart, every node is repeated
  (`member_order_iff`). A repeated object with a node of its own does not pass:
  that node is reported as moved, into the very object it was in
  (`nestedObjects_moved`).
-/
import Reconciliation.Adapters.Lossless
import Reconciliation.Adapters.MemberOrder
import Reconciliation.Classification.OperationIds
import Reconciliation.Reports.Rearrangement

namespace Reconciliation.Reports

open Reconciliation.Base Reconciliation.Base.Rose Reconciliation.Contracts Reconciliation.Normalization
  Reconciliation.Validation Reconciliation.Evidence Reconciliation.Alignment Reconciliation.Matching
  Reconciliation.Classification Reconciliation.Metrics Reconciliation.Engine Reconciliation.Adapters
  Reconciliation.Builders

/-! ## The bundle -/

def genericJsonNormalization : NormalizationProfile where
  version := "v1"
  collapseWhitespace := true
  nonsemanticMetadataKeys := ["index"]
  preservePropertyKeys := ["key"]
  version_ne := v1_ne
  no_conflict := by decide

def genericJsonMatching : MatchingProfile where
  version := "v1"
  evidencePriority :=
    [.persistentId, .semanticSignature, .nodeType, .childSignature, .ancestorContext, .weightedSimilarity]
  featureWeights := [⟨.persistentId, 55 / 100, by norm_num⟩, ⟨.semanticSignature, 3 / 10, weight_three_tenths⟩,
    ⟨.weightedSimilarity, 15 / 100, by norm_num⟩]
  authoritativeIdFeatures := []
  hardConstraintNodeType := true
  matchThreshold := 6 / 10
  probableThreshold := 4 / 10
  ambiguityMargin := 5 / 100
  disableSimilarityForTranslatable := false
  calibration := ⟨false, none, no_model_required⟩
  version_ne := v1_ne
  matchThreshold_range := by norm_num
  probableThreshold_range := by norm_num
  ambiguityMargin_range := by norm_num
  priority_ne := by simp
  priority_nodup := by decide
  probable_le_match := by norm_num

def genericJsonAlignment : AlignmentProfile where
  version := "v1"
  strategy := .lcs
  defaultOrderSemantics := .ordered
  orderSemanticsByType := ⟨[("data:document", .unordered), ("data:object", .unordered), ("data:property", .ordered),
    ("data:array", .ordered)], by decide⟩
  version_ne := v1_ne

def genericJsonOperations : OperationProfile where
  version := "v1"
  enabledOperations := [.match_, .insert, .delete, .update, .move, .reorder]
  moveConfidenceThreshold := 75 / 100
  unresolvedPresencePolicy := .suppressAmbiguousNodes
  version_ne := v1_ne
  moveConfidenceThreshold_range := by norm_num
  no_extended := by decide

def genericJsonSuppression : SuppressionProfile where
  version := "v1"
  rules := [
    ⟨"generic-json-insert-downstream-position-v1", .insert, "DOWNSTREAM_POSITION_CHANGED", 6 / 10, by decide,
      position_category_ne, by norm_num⟩,
    ⟨"generic-json-delete-downstream-position-v1", .delete, "DOWNSTREAM_POSITION_CHANGED", 6 / 10, by decide,
      position_category_ne, by norm_num⟩,
    ⟨"generic-json-move-descendant-path-v1", .move, "DESCENDANT_PATH_CHANGED", 7 / 10, by decide, path_category_ne,
      threshold_seven_tenths⟩,
    ⟨"generic-json-reorder-position-v1", .reorder, "DOWNSTREAM_POSITION_CHANGED", 6 / 10, by decide, position_category_ne,
      by norm_num⟩]
  independentDefectCheck := true
  version_ne := v1_ne
  ruleIds_nodup := by decide

def genericJsonCommand (source target : CanonicalTree) (executionContext : ExecutionContext) : ReconcileTreesCommand where
  sourceTree := source
  targetTree := target
  normalizationProfile := genericJsonNormalization
  matchingProfile := genericJsonMatching
  alignmentProfile := genericJsonAlignment
  operationProfile := genericJsonOperations
  suppressionProfile := genericJsonSuppression
  executionContext

/-- The result reports no change. -/
def Unchanged (result : ReconciliationResult) : Prop :=
  ∀ op ∈ result.operations.operations, op.val.type ∉ [OperationType.insert, .delete, .update, .move, .reorder]

instance (result : ReconciliationResult) : Decidable (Unchanged result) := inferInstanceAs (Decidable (∀ _ ∈ _, _))

/-! ## Scores near 1 -/

/-- The score of a pair by what its two nodes have and share. -/
def jsonScore (hasId sameId sameSignature sameChildren : Bool) : ℚ :=
  round6 (((if sameId then 55 / 100 else 0) + (if sameSignature then 3 / 10 else 0) + if sameChildren then 15 / 100 else 0) /
    ((if hasId then 55 / 100 else 0) + 45 / 100))

theorem jsonScore_near : ∀ hasId sameId sameSignature sameChildren : Bool, (sameId = true → hasId = true) →
    (4 / 10 ≤ jsonScore hasId sameId sameSignature sameChildren ∧
        1 - jsonScore hasId sameId sameSignature sameChildren ≤ 5 / 100 ↔
      (hasId = true → sameId = true) ∧ sameSignature = true ∧ sameChildren = true) := by
  decide +kernel

theorem scorePair_json (a b : NodeEvidence) : (scorePair a b genericJsonMatching).value =
    jsonScore (decide (a.persistentId ≠ none ∨ b.persistentId ≠ none))
      (decide (a.persistentId ≠ none ∧ a.persistentId = b.persistentId)) (decide (a.signature = b.signature))
      (decide (a.childSignature = b.childSignature)) := by
  have hid : ∀ on, gain genericJsonMatching .persistentId on = if on then 55 / 100 else 0 := by decide +kernel
  have hsignature : ∀ on, gain genericJsonMatching .semanticSignature on = if on then 3 / 10 else 0 := by decide +kernel
  have hlabel : ∀ on, gain genericJsonMatching .normalizedLabel on = 0 := by decide +kernel
  have hchildren : ∀ on, gain genericJsonMatching .weightedSimilarity on = if on then 15 / 100 else 0 := by decide +kernel
  show round6 (tallyPair a b genericJsonMatching).ratio = _
  have hpositive : 0 < (tallyPair a b genericJsonMatching).totalWeight := by
    rw [tallyPair_sums.2, hid, hsignature, hlabel, hchildren]
    split <;> norm_num
  unfold Tally.ratio jsonScore
  rw [if_pos hpositive, tallyPair_sums.1, tallyPair_sums.2]
  simp only [hid, hsignature, hlabel, hchildren, add_zero, if_true]
  rw [add_assoc _ (3 / 10 : ℚ) (15 / 100)]
  norm_num

/-- Two nodes look the same when they give the same evidence. -/
structure SameEvidence (a b : NodeEvidence) : Prop where
  type_eq : a.nodeType = b.nodeType
  id_eq : a.persistentId = b.persistentId
  signature_eq : a.signature = b.signature
  children_eq : a.childSignature = b.childSignature

/-- A score is admissible and within the margin of 1 exactly when the evidence is the same. -/
theorem near_iff_sameEvidence {a b : NodeEvidence} : (Compatible a b genericJsonMatching ∧
    genericJsonMatching.probableThreshold ≤ (scorePair a b genericJsonMatching).value ∧
    1 - (scorePair a b genericJsonMatching).value ≤ genericJsonMatching.ambiguityMargin) ↔ SameEvidence a b := by
  have hnear := jsonScore_near (decide (a.persistentId ≠ none ∨ b.persistentId ≠ none))
    (decide (a.persistentId ≠ none ∧ a.persistentId = b.persistentId)) (decide (a.signature = b.signature))
    (decide (a.childSignature = b.childSignature)) (by simpa using fun h _ => Or.inl h)
  have hids : (a.persistentId ≠ none ∨ b.persistentId ≠ none → a.persistentId ≠ none ∧ a.persistentId = b.persistentId) ↔
      a.persistentId = b.persistentId := by
    cases a.persistentId <;> cases b.persistentId <;> simp
  rw [compatible_iff, scorePair_json]
  refine (and_congr_right fun _ => hnear).trans ?_
  simp only [decide_eq_true_eq, hids]
  constructor
  · intro h
    exact ⟨h.1 rfl, h.2.1, h.2.2.1, h.2.2.2⟩
  · intro h
    exact ⟨fun _ => h.type_eq, h.id_eq, h.signature_eq, h.children_eq⟩

/-! ## Repeated nodes -/

/-- Another node of the tree has the type, the key and the content of this one, and children of the same types. -/
def Repeated [PyRuntime] (tree : CanonicalTree) (ref : NodeRef) : Prop :=
  ∃ ref' node node', ref' ≠ ref ∧ tree.nodes.get? ref = some node ∧ tree.nodes.get? ref' = some node' ∧
    node'.nodeType = node.nodeType ∧ firstPresent node' defaultIdKeys = firstPresent node defaultIdKeys ∧
    signature node' = signature node ∧ childSignature tree node' = childSignature tree node

section Runs
variable [PyRuntime] {source target : CanonicalTree} {executionContext : ExecutionContext} {own evidence : EvidenceIndex}

/-- The bundle matches a node with itself unless it is repeated. -/
theorem matched_iff_not_repeated (h : Admitted (genericJsonCommand source target executionContext))
    (hown : extract (normalizeTree source genericJsonNormalization) (normalizeTree source genericJsonNormalization) = .ok own)
    {s : NodeRef} (hs : s ∈ source.nodes.keys) :
    (ownComparison h own).Matched s s ↔ ¬ Repeated (normalizeTree source genericJsonNormalization) s := by
  have hw : Discerning genericJsonMatching := by decide +kernel
  obtain ⟨hes, -, -, -⟩ := extract_ok.mp hown
  refine (corresponding_self_iff hown hw List.not_mem_nil (mem_keys_normalize.mpr hs)).trans (not_congr ?_)
  refine exists_congr fun t => ⟨fun hx => ?_, fun hx => ?_⟩
  · obtain ⟨hne, a, b, ha, hb, hnear⟩ := hx
    obtain ⟨htype, hid, hsignature, hchildren⟩ := near_iff_sameEvidence.mp hnear
    obtain ⟨node, hn, hnode⟩ := (get_extractTree hes).mp ha
    obtain ⟨node', hn', hnode'⟩ := (get_extractTree hes).mp hb
    obtain ⟨-, hat, hai, has⟩ := nodeEvidence_fields hnode
    obtain ⟨-, hbt, hbi, hbs⟩ := nodeEvidence_fields hnode'
    refine ⟨node, node', hne, hn, hn', ?_, ?_, ?_, ?_⟩
    · rw [← hat, ← hbt, htype]
    · rw [← hai, ← hbi, hid]
    · rw [← has, ← hbs, hsignature]
    · rw [nodeEvidence_children hnode, nodeEvidence_children hnode', hchildren]
  · obtain ⟨node, node', hne, hn, hn', htype, hid, hsignature, hchildren⟩ := hx
    have hknown : ∀ {r n}, (normalizeTree source genericJsonNormalization).nodes.get? r = some n → ∃ e,
        own.source.val.get? r = some e ∧ nodeEvidence (normalizeTree source genericJsonNormalization) r n = .ok e := by
      intro r n hr
      obtain ⟨e, he⟩ := own.source.val.mem_keys.mp ((mem_keys_extractTree hes).mpr (Dict.mem_keys _ |>.mpr ⟨n, hr⟩))
      obtain ⟨n', hn', hnode⟩ := (get_extractTree hes).mp he
      obtain rfl := Option.some.inj (hr.symm.trans hn')
      exact ⟨e, he, hnode⟩
    obtain ⟨a, ha, hnode⟩ := hknown hn
    obtain ⟨b, hb, hnode'⟩ := hknown hn'
    obtain ⟨-, hat, hai, has⟩ := nodeEvidence_fields hnode
    obtain ⟨-, hbt, hbi, hbs⟩ := nodeEvidence_fields hnode'
    rw [nodeEvidence_children hnode, nodeEvidence_children hnode'] at hchildren
    refine ⟨hne, a, b, ha, hb, near_iff_sameEvidence.mpr ⟨?_, ?_, ?_, ?_⟩⟩
    · rw [hat, hbt, htype]
    · rw [hai, hbi, hid]
    · rw [has, hbs, hsignature]
    · exact (Except.ok.inj hchildren).symm

end Runs

/-! ## Documents -/

section Documents
variable [PyRuntime] [KeyRuntime] {adapter : DataTreeAdapter} {v w : CanonicalValue} {source target : CanonicalTree}
  {executionContext : ExecutionContext}

omit [PyRuntime] [KeyRuntime] in
theorem admitted_json {t u : Rose NodeData} (hs : Represents t source) (ht : Represents u target)
    (hlimits : checkPreLimits source target executionContext.resourceLimits executionContext.correlationId = .ok ()) :
    Admitted (genericJsonCommand source target executionContext) where
  source_valid := validateTree_iff.mpr (validateTreeResult_nil_iff.mpr hs.rooted)
  target_valid := validateTree_iff.mpr (validateTreeResult_nil_iff.mpr ht.rooted)
  profiles_valid := by
    show validateProfiles genericJsonMatching genericJsonOperations genericJsonSuppression = []
    decide
  within_limits := hlimits

omit [KeyRuntime] in
/-- References hold no hyphen, so region ids are told apart and the stages return. -/
theorem runStages_json {t : Rose NodeData} (hs : Represents t source)
    (h : Admitted (genericJsonCommand source target executionContext)) {evidence : EvidenceIndex}
    (he : extract (normalizedSource (genericJsonCommand source target executionContext))
      (normalizedTarget (genericJsonCommand source target executionContext)) = .ok evidence) :
    ∃ result, runStages (genericJsonCommand source target executionContext) = .ok result := by
  refine (runStages_total_iff h he).mpr ⟨supported_of_probable (by norm_num [genericJsonCommand, genericJsonMatching])
    List.not_mem_nil, fun p q p' q' hpq hpq' hid => ?_⟩
  have hsealed : ∀ {p q}, (h.comparison evidence).Paired p q → Fields.Sealed '-' p := by
    intro p q hpq
    have hp : p ∈ source.nodes.keys := by
      rcases hpq with ⟨rfl, -⟩ | hm
      · exact source.root_mem
      · exact mem_keys_normalize.mp (corresponding_known he hm).1
    obtain ⟨place, -, -, rfl⟩ := hs.mem_keys.mp hp
    have hroot : Fields.Sealed '-' "n" := Fields.sealed_plain fun c hc => by
      obtain rfl : c = 'n' := by simpa using hc
      decide
    exact sealed_outline (by decide) (by decide) hroot place
  exact arrow_cancel (hsealed hpq) (hsealed hpq') (regionIdFor_eq_iff.mp hid)

/-- Documents that are equal but for the order of members are reported without a change exactly when
    every node below a repeated node, the document apart, is repeated. -/
theorem member_order_iff (hpermuted : Permuted v w) (hfinite : allFinite v = true) {sourceUri targetUri : Option String}
    (hsource : adapter.adapt v sourceUri = .ok source) (htarget : adapter.adapt w targetUri = .ok target)
    (hlimits : checkPreLimits source target executionContext.resourceLimits executionContext.correlationId = .ok ()) :
    Outcome.Returns (reconcile (genericJsonCommand source target executionContext)) Unchanged ↔
      ∀ s p, source.parentOf s = some p → p ≠ source.rootNodeRef →
        Repeated (normalizeTree source genericJsonNormalization) p →
          Repeated (normalizeTree source genericJsonNormalization) s := by
  obtain ⟨source', target', f, hsource', htarget', hs, ht, hr⟩ := adapt_permuted adapter sourceUri targetUri hpermuted hfinite
  obtain rfl := Except.ok.inj (hsource.symm.trans hsource')
  obtain rfl := Except.ok.inj (htarget.symm.trans htarget')
  have h := admitted_json hs ht hlimits
  have hw : Discerning genericJsonMatching := by decide +kernel
  have hfixed : ∀ type, genericJsonAlignment.orderSemanticsFor type = .ordered → KeepsOrder type := by
    intro type hordered hobject
    rw [hobject] at hordered
    cases hordered
  have hmove : OperationType.move ∈ genericJsonOperations.enabledOperations := by decide
  have hpolicy : genericJsonOperations.unresolvedPresencePolicy ≠ .emitAll := by decide
  obtain ⟨own, hown⟩ := extract_total h.source_rooted h.source_rooted
  obtain ⟨evidence, he⟩ := h.exists_evidence
  obtain ⟨result, hrun⟩ := runStages_json hs h he
  have hstages := stages_of_complete ((reconcile_admitted h).trans hrun) (runStages_complete hrun) he
  have hmoves := moved_image h hr hw hown he hstages hmove
  have hunchanged : Unchanged result ↔ ¬ ∃ op ∈ result.operations.operations, op.val.type = .move := by
    constructor
    · intro hall hx
      obtain ⟨op, hop, htype⟩ := hx
      exact hall op hop (by rw [htype]; decide)
    · intro hno op hop
      rcases rearranged_kept h hr hw hown he hpolicy hfixed hstages hop with htype | htype
      · rw [htype]
        decide
      · exact absurd ⟨op, hop, htype⟩ hno
  have hreturns : Outcome.Returns (reconcile (genericJsonCommand source target executionContext)) Unchanged ↔ Unchanged result := by
    rw [reconcile_admitted h]
    constructor
    · intro hx
      obtain ⟨result', hrun', hall⟩ := hx
      obtain rfl := Except.ok.inj (hrun.symm.trans hrun')
      exact hall
    · exact fun hall => ⟨result, hrun, hall⟩
  rw [hreturns, hunchanged, hmoves]
  have hknown : ∀ {s p}, source.parentOf s = some p → s ∈ source.nodes.keys ∧ p ∈ source.nodes.keys := by
    intro s p hp
    have hs' : s ∈ source.nodes.keys :=
      (h.source_node own s).mp (Hierarchy.node_of_parent ((h.source_parent own s).trans hp))
    exact ⟨hs', (hs.rooted.child_of_parent s hs' p hp).1⟩
  constructor
  · intro hno s p hp hroot hrepeated
    by_contra hsingle
    refine hno ⟨s, p, hp, hroot, (matched_iff_not_repeated h hown (hknown hp).1).mpr hsingle, fun hm => ?_⟩
    exact (matched_iff_not_repeated h hown (hknown hp).2).mp hm hrepeated
  · intro hall hx
    obtain ⟨s, p, hp, hroot, hm, hnm⟩ := hx
    refine (matched_iff_not_repeated h hown (hknown hp).1).mp hm (hall s p hp hroot ?_)
    exact not_not.mp fun hno => hnm ((matched_iff_not_repeated h hown (hknown hp).2).mpr hno)

end Documents

/-- Two members of a flat object, in both orders. -/
def flatObject : CanonicalValue := .dict [("a", .int 1), ("b", .int 2)]

def flatObjectSwapped : CanonicalValue := .dict [("b", .int 2), ("a", .int 1)]

theorem permuted_swap {x y : String × CanonicalValue} (hx : Permuted x.2 x.2) (hy : Permuted y.2 y.2) :
    Permuted (.dict [x, y]) (.dict [y, x]) := by
  refine .dict (Equiv.swap (0 : Fin 2) 1) (fun i => ?_) fun i => ?_
  · match i with
    | ⟨0, _⟩ => rfl
    | ⟨1, _⟩ => rfl
  · match i with
    | ⟨0, _⟩ => exact hx
    | ⟨1, _⟩ => exact hy

theorem permuted_single {x : String × CanonicalValue} (hx : Permuted x.2 x.2) : Permuted (.dict [x]) (.dict [x]) :=
  .dict (Equiv.refl (Fin 1)) (fun _ => rfl) fun i => by
    match i with
    | ⟨0, _⟩ => exact hx

theorem flatObject_order : ∃ source target, @DataTreeAdapter.adapt asciiRuntime asciiKeys ⟨"json"⟩ flatObject none = .ok source ∧
    @DataTreeAdapter.adapt asciiRuntime asciiKeys ⟨"json"⟩ flatObjectSwapped none = .ok target ∧
    (Outcome.Returns (@reconcile asciiRuntime (genericJsonCommand source target defaultExecutionContext)) Unchanged ↔
      ∀ s p, source.parentOf s = some p → p ≠ source.rootNodeRef →
        @Repeated asciiRuntime (normalizeTree source genericJsonNormalization) p →
          @Repeated asciiRuntime (normalizeTree source genericJsonNormalization) s) := by
  have hpermuted : Permuted flatObject flatObjectSwapped := permuted_swap (.scalar rfl) (.scalar rfl)
  have hrun : Outcome.Returns (@DataTreeAdapter.adapt asciiRuntime asciiKeys ⟨"json"⟩ flatObject none) fun source =>
      Outcome.Returns (@DataTreeAdapter.adapt asciiRuntime asciiKeys ⟨"json"⟩ flatObjectSwapped none) fun target =>
        checkPreLimits source target defaultExecutionContext.resourceLimits defaultExecutionContext.correlationId = .ok () := by
    decide +kernel
  obtain ⟨source, hsource, target, htarget, hlimits⟩ := hrun
  exact ⟨source, target, hsource, htarget,
    @member_order_iff asciiRuntime asciiKeys _ _ _ _ _ _ hpermuted (by decide) _ _ hsource htarget hlimits⟩

/-- Two objects with one member each, in both orders. -/
def nestedObjects : CanonicalValue := .dict [("a", .dict [("b", .int 1)]), ("c", .dict [("d", .int 2)])]

def nestedObjectsSwapped : CanonicalValue := .dict [("c", .dict [("d", .int 2)]), ("a", .dict [("b", .int 1)])]

/-- The two inner objects cannot be told apart, but their members can: these are reported as moved. -/
theorem nestedObjects_moved : Permuted nestedObjects nestedObjectsSwapped ∧
    Outcome.Returns (@DataTreeAdapter.adapt asciiRuntime asciiKeys ⟨"json"⟩ nestedObjects none) fun source =>
      Outcome.Returns (@DataTreeAdapter.adapt asciiRuntime asciiKeys ⟨"json"⟩ nestedObjectsSwapped none) fun target =>
        Outcome.Returns (@reconcile asciiRuntime (genericJsonCommand source target defaultExecutionContext)) fun result =>
          result.complete = true ∧ SourceIn result [.move] "n.0.0.0.0" ∧ ¬ Unchanged result :=
  ⟨permuted_swap (permuted_single (.scalar rfl)) (permuted_single (.scalar rfl)), by decide +kernel⟩

end Reconciliation.Reports
