/-
  Reconciliation.Reports.TranslationJobs — the job that compares a map with its translation.

  Both documents are read and adapted, the engine finds twins, and the interpretation has one
  issue for every topic, in the order of the references: that it is confirmed, or that its source has
  advanced since. None is an error, and no repair is recommended (`TranslationFindings`). The
  job completes with that result whatever formats it renders (`translation_job`). The count of
  direct issues in its record is the number of topics, confirmed ones included.
-/
import Reconciliation.Jobs.Redaction
import Reconciliation.Reports.Findings
import Reconciliation.Reports.Translations

namespace Reconciliation.Reports

open Reconciliation.Base Reconciliation.Contracts Reconciliation.Evidence Reconciliation.Alignment
  Reconciliation.Matching Reconciliation.Classification Reconciliation.Engine Reconciliation.Validation
  Reconciliation.Normalization Reconciliation.Builders Reconciliation.Adapters Reconciliation.Localization
  Reconciliation.Reporting Reconciliation.Jobs

/-! ## Findings about twins -/

/-- The topics have one issue each, in the order of their references, which names the twin. No issue is
    an error, and none has a repair. -/
structure TranslationFindings [PyRuntime] (source target : CanonicalTree) (localized : LocalizationValidationResult) :
    Prop where
  once : localized.issues.map LocalizationIssue.sourceNodeRef =
    (sortedBy id (source.nodes.keys.filter fun ref => ref ≠ source.rootNodeRef)).map some
  kept : ∀ issue ∈ localized.issues, ∃ ref a b, source.nodes.get? ref = some a ∧ target.nodes.get? ref = some b ∧
    issue.sourceNodeRef = some ref ∧ issue.localeNodeRef = some ref ∧
    issue.localizationStatus = if stateFor a b = .stale then .sourceUpdated else .confirmedMatch
  harmless : ∀ issue ∈ localized.issues, issue.severity ≠ .error
  repairs : localized.recommendations = []

/-- Where ids are unique, there are no duplicates. -/
theorem duplicateIds_nil [PyRuntime] {tree : CanonicalTree} {evidence : KeyedEvidence} (he : extractTree tree = .ok evidence)
    (hunique : ∀ r r' i, idOf tree r = some i → idOf tree r' = some i → r = r') : duplicateIds evidence = [] := by
  refine List.eq_nil_iff_forall_not_mem.mpr fun i hdup => ?_
  have hpos : 0 < (evidence.val.values.filterMap NodeEvidence.persistentId).count i := by
    have := mem_duplicateIds.mp hdup
    omega
  obtain ⟨e, hin, hi⟩ := List.mem_filterMap.mp (List.count_pos_iff.mp hpos)
  obtain ⟨⟨ref, e'⟩, hentry, rfl⟩ := List.mem_map.mp hin
  have hid := (evidence_id_iff he).mp ⟨e', (Dict.get?_eq_some _).mpr hentry, hi⟩
  exact ((holdsAlone_iff he hunique).mpr hid).not_duplicate hdup

/-- The finding of a match says nothing of presence. -/
theorem not_contradicts_match [PyRuntime] {result : ReconciliationResult} {source target : CanonicalTree}
    {policy : Option LocaleVariationPolicy} (c : MatchCandidate) :
    ¬ Contradicts result (matchFinding result source target policy c) := by
  have hmem := @matchStatus_mem _ result source target policy c
  intro hcontra
  rcases hcontra with ⟨he, -⟩ | ⟨he, -⟩
  · rw [show Localization.matchStatus result source target policy c = _ from he] at hmem
    simp [matchStatuses] at hmem
  · rw [show Localization.matchStatus result source target policy c = _ from he] at hmem
    simp [matchStatuses] at hmem

section Runs
variable [PyRuntime] {command : ReconcileTreesCommand} {evidence : EvidenceIndex} {result : ReconciliationResult}
  (h : Admitted command) (htwins : Twins (normalizedSource command) (normalizedTarget command))
  (hp : DecidedById command.matchingProfile) (hs : Stages command evidence result)

include h htwins hp hs

/-- Every operation is a match or an update. -/
theorem plain_types {op : StructuralOperation} (hop : op ∈ result.operations.operations) :
    op.val.type = .match_ ∨ op.val.type = .update := by
  obtain ⟨s, p, -, hval⟩ := reported_twins h htwins hp hs ((hs.reported h op).mp hop)
  rw [hval, matchOf_type]
  split
  · exact Or.inr rfl
  · exact Or.inl rfl

theorem no_move {s : NodeRef} : (moveIndex result).get? s = none := by
  refine Option.eq_none_iff_forall_ne_some.mpr fun op hget => ?_
  obtain ⟨⟨hop, hmove⟩, -⟩ := (moveIndex_eq_some h hs).mp hget
  rcases plain_types h htwins hp hs hop with htype | htype <;> cases hmove.symm.trans htype

omit h hp hs in
/-- No diagnostic of the run is about a duplicate. -/
theorem no_duplicate_diagnostics (hrun : runStages command = .ok result) :
    ∀ d ∈ result.diagnostics, d.code ≠ "DUPLICATE_PERSISTENT_ID" := by
  unfold runStages at hrun
  simp only [Outcome.bind_ok, Outcome.pure_ok] at hrun
  obtain ⟨evidence, he, graph, -, alignment, -, operations, -, causality, -, suppression, -, rfl⟩ := hrun
  obtain ⟨hes, het, hsources, htargets⟩ := extract_ok.mp he
  have hnone : duplicateIdDiagnostics evidence = [] := by
    unfold duplicateIdDiagnostics
    rw [hsources, htargets, duplicateIds_nil hes htwins.unique, duplicateIds_nil het htwins.unique_target]
    rfl
  intro d hd
  rw [hnone, List.nil_append] at hd
  have hstrategy : "ALIGNMENT_STRATEGY_NOT_IMPLEMENTED" ≠ "DUPLICATE_PERSISTENT_ID" := by decide
  have hregion : "UNRESOLVED_ALIGNMENT_REGION" ≠ "DUPLICATE_PERSISTENT_ID" := by decide
  rcases List.mem_append.mp hd with hd | hd
  · split at hd
    · rw [List.mem_singleton.mp hd]
      exact hstrategy
    · cases hd
  · obtain ⟨region, -, rfl⟩ := List.mem_map.mp hd
    exact hregion

/-- The findings are those of the confirmed candidates. -/
theorem findings_twins {locale : String} {policy : Option LocaleVariationPolicy}
    (hdiagnostics : ∀ d ∈ result.diagnostics, d.code ≠ "DUPLICATE_PERSISTENT_ID") :
    findings result command.sourceTree command.targetTree locale policy =
      (result.matchGraph.confirmed.filter fun c => (command.sourceTree.parentOf c.val.sourceNodeRef).isSome).map
        (matchFinding result command.sourceTree command.targetTree policy) := by
  have hreorders : (result.operations.operations.filter fun op => op.val.type = .reorder) = [] := by
    refine List.filter_eq_nil_iff.mpr fun op hop => ?_
    rcases plain_types h htwins hp hs hop with htype | htype <;> simp [htype]
  have hpresence : (result.operations.operations.filterMap
      (presenceFinding command.sourceTree command.targetTree locale policy)) = [] := by
    refine List.filterMap_eq_nil_iff.mpr fun op hop => ?_
    unfold presenceFinding
    rcases plain_types h htwins hp hs hop with htype | htype <;> rw [htype]
  have hconflicts : (result.diagnostics.filter fun d => d.code = "DUPLICATE_PERSISTENT_ID") = [] :=
    List.filter_eq_nil_iff.mpr fun d hd => by simpa using hdiagnostics d hd
  unfold findings
  rw [no_ambiguity htwins hp hs, hreorders, hpresence, hconflicts]
  simp [sortedBy_eq_nil]

/-- A confirmed candidate below the root is that of a node and its twin, for certain. -/
theorem confirmed_twins {c : MatchCandidate} (hc : c ∈ result.matchGraph.confirmed)
    (hbelow : ∃ p, command.sourceTree.parentOf c.val.sourceNodeRef = some p) :
    c.val.targetNodeRef = c.val.sourceNodeRef ∧ c.val.confidence.value = 1 ∧
      c.val.sourceNodeRef ∈ command.sourceTree.nodes.keys ∧ c.val.sourceNodeRef ∈ command.targetTree.nodes.keys := by
  obtain ⟨hin, hstate⟩ := MatchGraph.mem_confirmed.mp hc
  have hcorresponds := (confirmed_iff hs.matched).mp ⟨c, hin, hstate, rfl, rfl⟩
  have heq := eq_of_corresponding_twins htwins hp hs.extracted hcorresponds
  have hknown := corresponding_known hs.extracted hcorresponds
  rw [← heq] at hknown
  obtain ⟨hsource, hne⟩ := (parent_iff h evidence).mp (by simpa only [h.source_parent] using hbelow)
  refine ⟨heq.symm, ?_, hsource, mem_keys_normalize.mp hknown.2⟩
  rw [confidence_of_confirmed hs.matched hin hstate, ← heq]
  exact certainty_of_authoritative (authoritative_twin htwins hp hs.extracted hknown.1 hne)

/-- Its issue says that the topic is confirmed, or that its source has advanced. -/
theorem matchStatus_twins {policy : Option LocaleVariationPolicy} {c : MatchCandidate} {a b : CanonicalNode}
    (hc : c ∈ result.matchGraph.confirmed) (hbelow : ∃ p, command.sourceTree.parentOf c.val.sourceNodeRef = some p)
    (ha : command.sourceTree.nodes.get? c.val.sourceNodeRef = some a)
    (hb : command.targetTree.nodes.get? c.val.targetNodeRef = some b) :
    Localization.matchStatus result command.sourceTree command.targetTree policy c =
      if stateFor a b = .stale then .sourceUpdated else .confirmedMatch := by
  obtain ⟨-, hconfidence, -⟩ := confirmed_twins h htwins hp hs hc hbelow
  have hthreshold : confirmedThreshold policy ≤ 1 := by
    cases policy with
    | none => norm_num [confirmedThreshold]
    | some policy => exact policy.threshold_range.2
  unfold Localization.matchStatus correspondenceStatus
  rw [no_move h htwins hp hs, ha, hb, hconfidence, if_pos hthreshold]
  rfl

/-- The confirmed candidates below the root are those of the topics, in the order of the references. -/
theorem confirmed_sources :
    (result.matchGraph.confirmed.filter fun c => (command.sourceTree.parentOf c.val.sourceNodeRef).isSome).map
        (fun c => c.val.sourceNodeRef) =
      sortedBy id (command.sourceTree.nodes.keys.filter fun ref => ref ≠ command.sourceTree.rootNodeRef) := by
  have hordered := (((candidates_ordered hs.matched).filter fun c => c.val.state = .confirmed).filter fun c =>
    (command.sourceTree.parentOf c.val.sourceNodeRef).isSome)
  refine eq_sortedBy_of_perm id (fun _ _ _ _ => id) (List.pairwise_map.mpr hordered)
    ((List.perm_ext_iff_of_nodup ?_ (command.sourceTree.nodes.nodup.filter _)).mpr fun ref => ?_)
  · obtain ⟨hnodup, -⟩ := MatchGraph.oneToOne_ok.mp result.matchGraph.accepted
    exact hnodup.sublist (List.filter_sublist.map _)
  · rw [List.mem_map, List.mem_filter, decide_eq_true_iff]
    constructor
    · intro hx
      obtain ⟨c, hc, rfl⟩ := hx
      obtain ⟨-, hsome⟩ := List.mem_filter.mp hc
      exact (parent_iff h evidence).mp (by simpa only [h.source_parent] using Option.isSome_iff_exists.mp hsome)
    · intro hx
      obtain ⟨p, hparent⟩ := (parent_iff h evidence).mpr hx
      have hd := twinsCompared h htwins hp hs.extracted
      obtain ⟨c, hin, hstate, rfl, -⟩ := (confirmed_iff hs.matched).mpr (hd.matched_below ref p hparent)
      rw [h.source_parent] at hparent
      exact ⟨c, List.mem_filter.mpr ⟨MatchGraph.mem_confirmed.mpr ⟨hin, hstate⟩, by simp [hparent]⟩, rfl⟩

/-- The interpretation of twins. -/
theorem translationFindings {locale : String} {side : AuthoritativeSide} {policy : Option LocaleVariationPolicy}
    (hdiagnostics : ∀ d ∈ result.diagnostics, d.code ≠ "DUPLICATE_PERSISTENT_ID") :
    TranslationFindings command.sourceTree command.targetTree (localize command result locale side policy) := by
  have hfindings := @findings_twins _ _ _ _ h htwins hp hs locale policy hdiagnostics
  have hkept : ∀ issue ∈ (localize command result locale side policy).issues, ∃ ref a b,
      command.sourceTree.nodes.get? ref = some a ∧ command.targetTree.nodes.get? ref = some b ∧
      issue.sourceNodeRef = some ref ∧ issue.localeNodeRef = some ref ∧
      issue.localizationStatus = if stateFor a b = .stale then .sourceUpdated else .confirmedMatch := by
    intro issue hissue
    obtain ⟨hf, -⟩ := exists_issue_iff.mp ⟨issue, hissue, rfl⟩
    rw [hfindings] at hf
    obtain ⟨c, hc, hfinding⟩ := List.mem_map.mp hf
    obtain ⟨hc, hsome⟩ := List.mem_filter.mp hc
    have hbelow := Option.isSome_iff_exists.mp hsome
    obtain ⟨heq, -, hsource, htarget⟩ := confirmed_twins h htwins hp hs hc hbelow
    obtain ⟨a, ha⟩ := (Dict.mem_keys _).mp hsource
    obtain ⟨b, hb⟩ := (Dict.mem_keys _).mp htarget
    refine ⟨c.val.sourceNodeRef, a, b, ha, hb, (congrArg Finding.source hfinding).symm, ?_, ?_⟩
    · exact (congrArg Finding.locale hfinding).symm.trans (congrArg some heq)
    · exact (congrArg Finding.status hfinding).symm.trans (matchStatus_twins h htwins hp hs hc hbelow ha (heq ▸ hb))
  refine ⟨?_, hkept, fun issue hissue => ?_, ?_⟩
  · have hstated : (findings result command.sourceTree command.targetTree locale policy).filter
        (fun f => ¬ Contradicts result f) = findings result command.sourceTree command.targetTree locale policy := by
      refine List.filter_eq_self.mpr fun f hf => decide_eq_true fun hcontra => ?_
      rw [hfindings] at hf
      obtain ⟨c, -, rfl⟩ := List.mem_map.mp hf
      exact not_contradicts_match c hcontra
    rw [show LocalizationIssue.sourceNodeRef = Finding.source ∘ LocalizationIssue.finding from rfl, ← List.map_map,
      localize, validate_findings, hstated, hfindings, List.map_map, ← confirmed_sources h htwins hp hs, List.map_map]
    rfl
  · obtain ⟨ref, a, b, -, -, -, -, hstatus⟩ := hkept issue hissue
    rw [severity_eq hissue, hstatus]
    split <;> simp [severityOf]
  · refine List.eq_nil_iff_forall_not_mem.mpr fun r hr => ?_
    obtain ⟨-, issue, hissue, -, hrepairs⟩ := recommended hr
    obtain ⟨ref, a, b, -, -, -, -, hstatus⟩ := hkept issue hissue
    have hoperation := hrepairs.operation
    rw [finding_status, hstatus] at hoperation
    split at hoperation <;> cases hoperation

end Runs

/-! ## The job -/

def ditaMapBundle : ProfileBundle :=
  ⟨ditaMapNormalization, defaultMatchingProfile, ditaMapAlignment, defaultOperationProfile, defaultSuppressionProfile⟩

/-- The code and the message that a job records. -/
def recordedError : XmlDocumentError → AdaptationError
  | .input (.malformed _ _) => ⟨"INVALID_INPUT", "input is not well-formed XML"⟩
  | .input (.rejected error) => ⟨error.code, error.message⟩
  | .adaptation error => ⟨"DOCUMENT_ADAPTATION_FAILED", error.message⟩

/-- What is registered for DITA maps. -/
def ditaMapProfile (parser : SecureXmlParser) (fromstring : ByteArray → Except String Element) : DocumentProfile where
  adaptDocument data _ documentUri :=
    (DitaMapAdapter.adaptDocument parser fromstring data.toUTF8 (some documentUri)).mapError recordedError
  bundle := ditaMapBundle

theorem ditaMap_adapted {parser : SecureXmlParser} {fromstring : ByteArray → Except String Element} {content uri : String}
    {root : Element} (h : parser.parse fromstring content.toUTF8 (some uri) = .ok root) (treeId : String) :
    (ditaMapProfile parser fromstring).adaptDocument content treeId uri =
      .ok (DitaMapAdapter.mapping.tree root (some uri)) := by
  show ((DitaMapAdapter.adaptDocument parser fromstring content.toUTF8 (some uri)).mapError recordedError) = _
  unfold DitaMapAdapter.adaptDocument
  rw [h]
  show ((DitaMapAdapter.adapt root (some uri)).mapError _).mapError _ = _
  rw [DitaMapAdapter.adapt, Mapping.adapt_eq]
  rfl

/-- A job that no component stops completes. -/
theorem run_finished [PyRuntime] {components : Components} {request : ComparisonRequest} {profile : DocumentProfile}
    {sourceTree localeTree : CanonicalTree} {reconciliation : ReconciliationResult} {artifacts : List ArtifactSummary}
    (hprofile : components.registry.get? request.documentProfileId = some profile)
    (hboth : adaptBoth components request profile = .ok (sourceTree, localeTree))
    (hengine : components.engine (commandOf components request profile.bundle sourceTree localeTree) = .ok reconciliation)
    (hsave : save components (interpretation request reconciliation sourceTree localeTree) = .ok ())
    (hartifacts : renderArtifacts components request (interpretation request reconciliation sourceTree localeTree)
      sourceTree localeTree = .ok artifacts) : run components request =
        .ok (completed (jobIdOf components request) request (interpretation request reconciliation sourceTree localeTree)
          artifacts) := by
  unfold run
  simp only [hprofile, hboth, hengine]
  unfold finish
  simp only [hsave, hartifacts]
  rfl

section Jobs
variable [ReportRuntime] {components : Components} {request : ComparisonRequest} {parser : SecureXmlParser}
  {fromstring : ByteArray → Except String Element} {root root' : Element}

/-- The job of a map and its translation completes: the topics have one issue each, that it is confirmed
    or that its source has advanced, and nothing is to be repaired. -/
theorem translation_job
    (hprofile : components.registry.get? request.documentProfileId = some (ditaMapProfile parser fromstring))
    (hengine : ∀ command result, reconcile command = .ok result → components.engine command = .ok result)
    (hrenderers : ∀ i, components.renderers i = packagedRenderers)
    (hsave : ∀ result, save components result = .ok ())
    (hsource : parser.parse fromstring request.sourceContent.toUTF8 (some "source") = .ok root)
    (htarget : parser.parse fromstring request.localeContent.toUTF8 (some "locale") = .ok root')
    (hroot : SameSignals root.data root'.data) (hbelow : Translated root.children root'.children)
    (hids : OwnIds (DitaMapAdapter.mapping.tree root (some "source"))) :
    Outcome.Returns (run components request) fun outcome => outcome.record.state = .completed ∧
      ∃ localized, outcome.result = some localized ∧ outcome.record.directIssueCount = localized.issues.length ∧
        TranslationFindings (DitaMapAdapter.mapping.tree root (some "source"))
          (DitaMapAdapter.mapping.tree root' (some "locale")) localized := by
  obtain ⟨tree, tree', htree, htree', hrooted, hrooted', halike⟩ := dita_translated hroot hbelow (some "source") (some "locale")
  obtain rfl := Except.ok.inj ((DitaMapAdapter.mapping.adapt_eq root (some "source")).symm.trans htree)
  obtain rfl := Except.ok.inj ((DitaMapAdapter.mapping.adapt_eq root' (some "locale")).symm.trans htree')
  let sourceTree := DitaMapAdapter.mapping.tree root (some "source")
  let localeTree := DitaMapAdapter.mapping.tree root' (some "locale")
  let command := commandOf components request ditaMapBundle sourceTree localeTree
  have hprofiles : validateProfiles defaultMatchingProfile defaultOperationProfile defaultSuppressionProfile = [] := by
    decide +kernel
  have h : Admitted command := ⟨validateTree_iff.mpr (validateTreeResult_nil_iff.mpr hrooted),
    validateTree_iff.mpr (validateTreeResult_nil_iff.mpr hrooted'), hprofiles, rfl⟩
  have htwins : Twins (normalizedSource command) (normalizedTarget command) := twins_of_retitled halike hids _ _
  have hp : DecidedById command.matchingProfile := ditaMap_decided
  obtain ⟨evidence, he⟩ := h.exists_evidence
  obtain ⟨result, hrun⟩ := (runStages_total_iff h he).mpr
    ⟨hp.supported fun _ _ => not_edge_twins htwins hp he, (twinsCompared h htwins hp he).distinctRegionIds⟩
  obtain ⟨evidence', hs⟩ := runStages_stages hrun
  have hfindings := @translationFindings _ _ _ _ h htwins hp hs request.locale request.authoritativeSide request.policy
    (no_duplicate_diagnostics htwins hrun)
  have hreturns : components.engine command = .ok result := hengine command result (by rw [reconcile_admitted h, hrun])
  have hboth : adaptBoth components request (ditaMapProfile parser fromstring) = .ok (sourceTree, localeTree) := by
    unfold adaptBoth
    simp only [ditaMap_adapted hsource, ditaMap_adapted htarget]
    rfl
  have hfinished := run_finished hprofile hboth hreturns (hsave _) (renderArtifacts_packaged _ _ _ _ hrenderers)
  refine ⟨_, hfinished, rfl, _, rfl, ?_, hfindings⟩
  rfl

end Jobs

/-! ## A handbook -/

def englishText : String := "<map title=\"Handbook\"><topicref href=\"./intro.dita\" navtitle=\"Introduction\"/>" ++
  "<topicref keys=\"setup\" href=\"setup.dita\"><topicmeta><navtitle>Setting up</navtitle></topicmeta>" ++
  "<topicref href=\"setup.dita#first\"/></topicref></map>"

def germanText : String := "<map title=\"Handbuch\"><!\x2d\x2dTODO\x2d\x2d>" ++
  "<topicref navtitle=\"Einleitung\" href=\"./intro.dita\"/><topicref navtitle=\"Einrichtung\" keys=\"setup\"" ++
  " href=\"setup.dita\"><topicref href=\"setup.dita#first\"/></topicref></map>"

/-- What the library reads of the two texts. -/
def readHandbook (raw : ByteArray) : Except String Element :=
  if raw = englishText.toUTF8 then .ok englishMap
  else if raw = germanText.toUTF8 then .ok germanMap
  else .error "not a handbook"

/-- The engine, its errors left without their texts. -/
def handbookEngine (command : ReconcileTreesCommand) : Except EngineError ReconciliationResult :=
  (@reconcile tenthsRuntime.toPyRuntime command).mapError fun _ => ⟨.reconciliationError, "RECONCILIATION_ERROR", ""⟩

def handbookComponents : Components where
  registry := ⟨[("dita-map-v1", ditaMapProfile {} readHandbook)], List.nodup_singleton _⟩
  engine := handbookEngine
  results := none
  renderers := fun _ => @packagedRenderers tenthsRuntime
  artifacts := none
  uuid := "1"

theorem ditaMapId_ne : "dita-map-v1" ≠ "" := by decide

theorem german_ne : "de" ≠ "" := by decide

def handbookRequest : ComparisonRequest where
  sourceContent := englishText
  localeContent := germanText
  locale := "de"
  documentProfileId := "dita-map-v1"
  reportFormats := [.html, .csv]
  locale_ne := german_ne
  documentProfileId_ne := ditaMapId_ne
  policy_locale := no_policy_locale "de"

theorem englishText_parsed : SecureXmlParser.parse {} readHandbook englishText.toUTF8 (some "source") = .ok englishMap :=
  (parse_ok _).mpr ⟨by decide +kernel, if_pos rfl, by decide +kernel, by decide +kernel, Or.inr (by decide +kernel)⟩

theorem germanText_parsed : SecureXmlParser.parse {} readHandbook germanText.toUTF8 (some "locale") = .ok germanMap := by
  have hread : readHandbook germanText.toUTF8 = .ok germanMap := (if_neg (by decide +kernel)).trans (if_pos rfl)
  exact (parse_ok _).mpr ⟨by decide +kernel, hread, by decide +kernel, by decide +kernel, Or.inr (by decide +kernel)⟩

theorem handbook_completed : Outcome.Returns (@run tenthsRuntime.toPyRuntime handbookComponents handbookRequest) fun outcome =>
    outcome.record.state = .completed ∧ ∃ localized, outcome.result = some localized ∧
      outcome.record.directIssueCount = localized.issues.length ∧
      @TranslationFindings tenthsRuntime.toPyRuntime (DitaMapAdapter.mapping.tree englishMap (some "source"))
        (DitaMapAdapter.mapping.tree germanMap (some "locale")) localized := by
  refine @translation_job tenthsRuntime handbookComponents handbookRequest {} readHandbook englishMap germanMap rfl
    (fun command result hrun => ?_) (fun _ => rfl) (fun _ => rfl) englishText_parsed germanText_parsed
    (sameSignals_of_all rfl (by decide)) german_translates ⟨by decide +kernel, ids_unique_iff.mpr (by decide +kernel)⟩
  show handbookEngine command = _
  rw [handbookEngine, hrun]
  rfl

end Reconciliation.Reports
