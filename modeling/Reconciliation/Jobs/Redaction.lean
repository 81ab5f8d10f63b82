/-
  Reconciliation.Jobs.Redaction — what a redacted job's artifacts still tell of the texts.

  A request can ask that labels and messages be redacted. The table is redacted, so the CSV
  tells only whether a text is there; the JSON dumps the issues beside the table, and the
  page is rendered from a table of its own, with the default options. So the artifacts of two
  results that differ in their texts alone are the same exactly when the requested formats
  show these alike (`contents_eq_iff`): the title of a topic is in the JSON and on the page
  (`errataTitles_disclosed`).
-/
import Reconciliation.Builders
import Reconciliation.Contracts.Alike
import Reconciliation.Jobs.ComparisonJob
import Reconciliation.Reporting.Disclosure

namespace Reconciliation.Jobs

open Reconciliation.Base Reconciliation.Contracts Reconciliation.Localization Reconciliation.Reporting

/-! ## What is rendered -/

section Rendering
variable [ReportRuntime] (request : ComparisonRequest) (result : LocalizationValidationResult)
  (sourceTree localeTree : CanonicalTree)

/-- The contents the job service renders for a request, in the order of the formats. -/
def contents : Except ReportGenerationError (List Rendered) :=
  request.reportFormats.mapM fun fmt =>
    renderOne packagedRenderers fmt result (reportTable request result sourceTree localeTree) sourceTree localeTree

def rendered (fmt : ReportFormat) : Rendered :=
  let table := reportTable request result sourceTree localeTree
  match fmt with
  | .csv => ⟨"report.csv", "text/csv", renderCsv table⟩
  | .json => ⟨"result.json", "application/json", renderFull result table⟩
  | .html => ⟨"report.html", "text/html", renderHtml result (some sourceTree) (some localeTree) none⟩

theorem renderOne_packaged (fmt : ReportFormat) :
    renderOne packagedRenderers fmt result (reportTable request result sourceTree localeTree) sourceTree localeTree =
      .ok (rendered request result sourceTree localeTree fmt) := by cases fmt <;> rfl

theorem contents_eq :
    contents request result sourceTree localeTree =
      .ok (request.reportFormats.map (rendered request result sourceTree localeTree)) := by
  unfold contents
  simp only [renderOne_packaged]
  exact List.mapM_pure

/-- A job with these renderers stores each of its artifacts with these contents. -/
theorem renderArtifacts_packaged {components : Components} (h : ∀ i, components.renderers i = packagedRenderers) :
    renderArtifacts components request result sourceTree localeTree =
      .ok (request.reportFormats.zipIdx.map fun e =>
        storeArtifact components result.jobId e.2 e.1 (rendered request result sourceTree localeTree e.1)) := by
  unfold renderArtifacts renderArtifact
  simp only [h, renderOne_packaged]
  exact List.mapM_pure

end Rendering

/-! ## Inputs that differ in texts only -/

/-- The same result, up to the labels and the messages of its issues. -/
def SameButTexts (result result' : LocalizationValidationResult) : Prop :=
  { result with issues := result.issues.map masked } = { result' with issues := result'.issues.map masked }

/-- The same node, up to what stands under its label keys. -/
structure LabelVariant (node node' : CanonicalNode) : Prop extends SameLinks node node' where
  identity_eq : node.identityProperties = node'.identityProperties
  content_eq : ∀ key ∉ labelKeys, node.contentProperties.get? key = node'.contentProperties.get? key
  structural_eq : node.structuralProperties = node'.structuralProperties
  extension_eq : node.extensionProperties = node'.extensionProperties
  location_eq : node.sourceLocation = node'.sourceLocation

/-- The same tree, up to the labels of its nodes. -/
def SameButLabels (tree tree' : CanonicalTree) : Prop := Alike LabelVariant tree tree'

/-- What an artifact shows of a text when the request asks for redaction. -/
def ReportFormat.shows : ReportFormat → Option String → Option String
  | csv, text => text.map fun _ => redacted
  | json, text => text
  | html, text => some (orEmpty text)

theorem SameButTexts.exists_issues {result result' : LocalizationValidationResult} (h : SameButTexts result result') :
    ∃ issues, result' = { result with issues := issues } ∧ result.issues.map masked = issues.map masked := by
  refine ⟨result'.issues, ?_, congrArg LocalizationValidationResult.issues h⟩
  cases result
  cases result'
  simp_all [SameButTexts]

/-! ## The trees do not matter -/

section Trees
variable [PyRuntime] {n n' : Option CanonicalNode} {sourceTree sourceTree' localeTree localeTree' : CanonicalTree}

omit [PyRuntime] in
theorem node_variant (h : SameButLabels sourceTree sourceTree') (ref : Option NodeRef) :
    Option.Rel LabelVariant (node (some sourceTree) ref) (node (some sourceTree') ref) := by
  cases ref with
  | none => exact .none
  | some ref => exact Alike.get h ref

omit [PyRuntime] in
theorem path_variant (h : Option.Rel LabelVariant n n') : path n = path n' := by
  cases h with
  | none => rfl
  | some hn =>
    unfold path
    simp only [Option.bind_eq_bind, Option.bind_some, hn.location_eq]

theorem revision_variant (h : Option.Rel LabelVariant n n') (keys : List String) (hkeys : ∀ key ∈ keys, key ∉ labelKeys) :
    revision n keys = revision n' keys := by
  cases h with
  | none => rfl
  | some hn =>
    unfold revision
    simp only [Option.bind_eq_bind, Option.bind_some]
    induction keys with
    | nil => rfl
    | cons key keys ih =>
      rw [List.findSome?_cons, List.findSome?_cons, hn.content_eq key (hkeys key List.mem_cons_self),
        ih fun k hk => hkeys k (List.mem_cons_of_mem key hk), hn.identity_eq]

omit [PyRuntime] in
theorem nodeType_variant {m m' : Option CanonicalNode} (hn : Option.Rel LabelVariant n n')
    (hm : Option.Rel LabelVariant m m') : (n.or m).map (·.nodeType) = (n'.or m').map (·.nodeType) := by
  cases hn with
  | none =>
    cases hm with
    | none => rfl
    | some hm => simp [hm.type_eq]
  | some hn => simp [hn.type_eq]

/-- The rows read no label from the trees. -/
theorem buildReportTable_variant (hs : SameButLabels sourceTree sourceTree') (hl : SameButLabels localeTree localeTree')
    (result : LocalizationValidationResult) (options : ReportOptions) (decisions : List ReviewerDecision) :
    buildReportTable result (some sourceTree) (some localeTree) options decisions =
      buildReportTable result (some sourceTree') (some localeTree') options decisions := by
  have hrow : ∀ d, issueRow result (some sourceTree) (some localeTree) options d =
      issueRow result (some sourceTree') (some localeTree') options d := by
    intro d
    funext issue
    have hsource := node_variant hs issue.sourceNodeRef
    have hlocale := node_variant hl issue.localeNodeRef
    simp only [issueRow, path_variant hsource, path_variant hlocale, nodeType_variant hsource hlocale,
      revision_variant hsource ["revision"] (by decide),
      revision_variant hlocale ["revision", "source-revision"] (by decide)]
  unfold buildReportTable
  simp only [hrow]

end Trees

theorem rendered_variant [ReportRuntime] {sourceTree sourceTree' localeTree localeTree' : CanonicalTree}
    (hs : SameButLabels sourceTree sourceTree') (hl : SameButLabels localeTree localeTree') (request : ComparisonRequest)
    (result : LocalizationValidationResult) (fmt : ReportFormat) :
    rendered request result sourceTree localeTree fmt = rendered request result sourceTree' localeTree' fmt := by
  unfold rendered reportTable renderHtml
  simp only [buildReportTable_variant hs hl]

/-! ## What each format tells -/

theorem maybeRedact_redacted {options : ReportOptions} (h : options.redactContent = true) :
    (fun text => maybeRedact text options) = ReportFormat.shows .csv := by
  funext text
  unfold maybeRedact ReportFormat.shows
  rw [h]
  rfl

theorem maybeRedact_plain (text : Option String) : maybeRedact text {} = text := by
  cases text <;> rfl

theorem cell_shows {text text' : Option String}
    (h : cell (.text (ReportFormat.csv.shows text)) = cell (.text (ReportFormat.csv.shows text'))) :
    ReportFormat.csv.shows text = ReportFormat.csv.shows text' := by
  have hne : "" ≠ redacted := by decide
  cases text with
  | none =>
    cases text' with
    | none => rfl
    | some _ => exact absurd h hne
  | some _ =>
    cases text' with
    | none => exact absurd h.symm hne
    | some _ => rfl

section Formats
variable [ReportRuntime] {request : ComparisonRequest} {result : LocalizationValidationResult}
  {issues : List LocalizationIssue} {sourceTree localeTree : CanonicalTree}

section Rows
variable {options : ReportOptions} {decisions : Dict String ReviewerDecision} {issue issue' : LocalizationIssue}

/-- A row reads of an issue's texts what redaction leaves of them. -/
theorem issueRow_congr (h : masked issue = masked issue')
    (htexts : texts (maybeRedact · options) issue = texts (maybeRedact · options) issue') :
    issueRow result (some sourceTree) (some localeTree) options decisions issue =
      issueRow result (some sourceTree) (some localeTree) options decisions issue' := by
  simp only [masked, LocalizationIssue.mk.injEq] at h
  simp only [texts, Prod.mk.injEq] at htexts
  simp only [issueRow, h, htexts]

theorem texts_of_cells (hredact : options.redactContent = true)
    (h : cells (issueRow result (some sourceTree) (some localeTree) options decisions issue) =
      cells (issueRow result (some sourceTree) (some localeTree) options decisions issue')) :
    texts (ReportFormat.shows .csv) issue = texts (ReportFormat.shows .csv) issue' := by
  have hview := maybeRedact_redacted hredact
  simp only [funext_iff] at hview
  simp only [cells, ReportRow.modelDump, issueRow, List.map_cons, List.map_nil, List.cons.injEq, hview] at h
  simp only [texts, cell_shows h.2.2.2.2.2.2.2.1, cell_shows h.2.2.2.2.2.2.2.2.1,
    cell_shows h.2.2.2.2.2.2.2.2.2.2.2.2.2.2.2.2.2.2.2.2.2.2.2.2.2.2.1]

theorem rowJson_shape :
    (rowJson (issueRow result (some sourceTree) (some localeTree) options decisions (masked issue))).shape =
      (rowJson (issueRow result (some sourceTree) (some localeTree) options decisions issue)).shape := by
  simp only [rowJson, ReportRow.modelDump, List.map_cons, List.map_nil, Json.shape, Json.shapeEntries, shape_text, issueRow,
    masked]

end Rows

/-- The rows of a result for other issues: these come first, then the suppressed effects, on request. -/
def rowsFor (result : LocalizationValidationResult) (sourceTree localeTree : CanonicalTree) (options : ReportOptions)
    (issues : List LocalizationIssue) : List ReportRow :=
  issues.map (issueRow result (some sourceTree) (some localeTree) options (Dict.ofPairs [])) ++
    (if options.includeSuppressed then suppressedRows result else [])

/-- The CSV tells of a text whether it is there. -/
theorem csv_iff (hredact : request.reportOptions.redactContent = true)
    (h : result.issues.map masked = issues.map masked) :
    rendered request result sourceTree localeTree .csv =
        rendered request { result with issues := issues } sourceTree localeTree .csv ↔
      result.issues.map (texts (ReportFormat.shows .csv)) = issues.map (texts (ReportFormat.shows .csv)) := by
  constructor
  · intro heq
    have hsize : result.issues.length = issues.length := by simpa using congrArg List.length h
    have hcells : (rowsFor result sourceTree localeTree request.reportOptions result.issues).map cells =
        (rowsFor result sourceTree localeTree request.reportOptions issues).map cells :=
      @renderCsv_injective _ (reportTable request result sourceTree localeTree)
        (reportTable request { result with issues := issues } sourceTree localeTree)
        (by simp [reportTable, buildReportTable, hsize, suppressedRows]) (congrArg Rendered.content heq)
    rw [rowsFor, rowsFor, List.map_append, List.map_append] at hcells
    have hrows := List.append_cancel_right hcells
    rw [List.map_map, List.map_map] at hrows
    exact map_eq_of_map (fun a b hab => texts_of_cells hredact hab) hrows
  · intro htexts
    have hrows : rowsFor result sourceTree localeTree request.reportOptions result.issues =
        rowsFor result sourceTree localeTree request.reportOptions issues := by
      refine congrArg (· ++ _) (map_eq_of_maps (fun a b hab htexts => issueRow_congr hab ?_) h htexts)
      rw [maybeRedact_redacted hredact]
      exact htexts
    exact congrArg (fun rows => (⟨"report.csv", "text/csv", renderCsv ⟨reportContractVersion, result.jobId, rows⟩⟩ : Rendered))
      hrows

/-- The JSON tells every text. -/
theorem json_iff (h : result.issues.map masked = issues.map masked) :
    rendered request result sourceTree localeTree .json =
        rendered request { result with issues := issues } sourceTree localeTree .json ↔
      result.issues.map (texts (ReportFormat.shows .json)) = issues.map (texts (ReportFormat.shows .json)) := by
  constructor
  · intro heq
    have hshapes : (rowsFor result sourceTree localeTree request.reportOptions result.issues).map (fun r => (rowJson r).shape) =
        (rowsFor result sourceTree localeTree request.reportOptions issues).map fun r => (rowJson r).shape := by
      rw [rowsFor, rowsFor, List.map_append, List.map_append, List.map_map, List.map_map]
      exact congrArg (· ++ _) (map_eq_of_map (fun _ _ hab => masked_congr hab fun _ => rowJson_shape) h)
    exact texts_of_renderFull h hshapes (congrArg Rendered.content heq)
  · intro htexts
    have hissues : result.issues = issues := (issues_eq_iff h).mpr htexts
    subst hissues
    rfl

/-- The view of an issue, without redaction. -/
def viewOf (result : LocalizationValidationResult) (sourceTree localeTree : CanonicalTree) (issue : LocalizationIssue) :
    IssueView := issueView (issueRow result (some sourceTree) (some localeTree) {} (Dict.ofPairs []) issue)

theorem issueRows_shown : ∀ row ∈ issues.map (issueRow result (some sourceTree) (some localeTree) {} (Dict.ofPairs [])),
    row.isSuppressed = false := by
  intro row hrow
  obtain ⟨issue, -, rfl⟩ := List.mem_map.mp hrow
  rfl

omit [ReportRuntime] in
theorem suppressedRows_hidden : ∀ row ∈ suppressedRows result, row.isSuppressed = true := by
  intro row hrow
  obtain ⟨i, hi, rfl⟩ := List.mem_mapIdx.mp hrow
  rfl

theorem filter_rowsFor :
    (rowsFor result sourceTree localeTree {} issues).filter (fun row => !row.isSuppressed) =
      issues.map (issueRow result (some sourceTree) (some localeTree) {} (Dict.ofPairs [])) := by
  rw [rowsFor, if_pos rfl, List.filter_append,
    List.filter_eq_self.mpr fun row hrow => by rw [issueRows_shown row hrow]; rfl,
    List.filter_eq_nil_iff.mpr fun row hrow => by rw [suppressedRows_hidden row hrow]; exact Bool.false_ne_true,
    List.append_nil]

theorem filter_rowsFor_suppressed :
    (rowsFor result sourceTree localeTree {} issues).filter (fun row => row.isSuppressed) = suppressedRows result := by
  rw [rowsFor, if_pos rfl, List.filter_append,
    List.filter_eq_nil_iff.mpr fun row hrow => by rw [issueRows_shown row hrow]; exact Bool.false_ne_true,
    List.filter_eq_self.mpr suppressedRows_hidden, List.nil_append]

/-- The view model of a result for other issues. -/
def viewModelFor (result : LocalizationValidationResult) (sourceTree localeTree : CanonicalTree)
    (issues : List LocalizationIssue) : ReportView :=
  { buildViewModel result ⟨"", "", []⟩ with
    issues := issues.map (viewOf result sourceTree localeTree)
    suppressed := (suppressedRows result).map suppressedView }

theorem renderHtml_eq :
    renderHtml { result with issues := issues } (some sourceTree) (some localeTree) none =
      page (viewModelFor result sourceTree localeTree issues) := by
  have hissues : ((rowsFor result sourceTree localeTree {} issues).filter fun row => !row.isSuppressed).map issueView =
      issues.map (viewOf result sourceTree localeTree) := by
    rw [filter_rowsFor, List.map_map]
    rfl
  have hsuppressed := congrArg (List.map suppressedView)
    (@filter_rowsFor_suppressed _ result issues sourceTree localeTree)
  unfold viewModelFor
  rw [← hissues, ← hsuppressed]
  rfl

/-- The page tells every text, as long as it is not empty. -/
theorem html_iff (h : result.issues.map masked = issues.map masked) :
    rendered request result sourceTree localeTree .html =
        rendered request { result with issues := issues } sourceTree localeTree .html ↔
      result.issues.map (texts (ReportFormat.shows .html)) = issues.map (texts (ReportFormat.shows .html)) := by
  have hblank : (result.issues.map (viewOf result sourceTree localeTree)).map IssueView.blank =
      (issues.map (viewOf result sourceTree localeTree)).map IssueView.blank := by
    rw [List.map_map, List.map_map]
    exact map_eq_of_map (fun a b hab => masked_congr hab fun _ => rfl) h
  have hprinted : ∀ l : List LocalizationIssue, (l.map (viewOf result sourceTree localeTree)).map IssueView.printed =
      l.map (texts orEmpty) := by
    intro l
    rw [List.map_map]
    refine List.map_congr_left fun issue _ => ?_
    simp only [Function.comp_apply, viewOf, issueView, issueRow, IssueView.printed, texts, maybeRedact_plain]
  have hpage : page (viewModelFor result sourceTree localeTree result.issues) =
      page (viewModelFor result sourceTree localeTree issues) ↔
        result.issues.map (texts orEmpty) = issues.map (texts orEmpty) := by
    rw [← hprinted, ← hprinted]
    exact page_eq_iff hblank
  have hhtml : ∀ l : List LocalizationIssue, rendered request { result with issues := l } sourceTree localeTree .html =
      ⟨"report.html", "text/html", page (viewModelFor result sourceTree localeTree l)⟩ :=
    fun l => congrArg (Rendered.mk "report.html" "text/html") renderHtml_eq
  have hshows : ∀ a b : LocalizationIssue, texts orEmpty a = texts orEmpty b ↔
      texts (ReportFormat.shows .html) a = texts (ReportFormat.shows .html) b := by
    intro a b
    simp only [texts, ReportFormat.shows, Prod.mk.injEq, Option.some.injEq]
  rw [show rendered request result sourceTree localeTree .html = _ from hhtml result.issues, hhtml issues, Rendered.mk.injEq]
  simp only [true_and]
  rw [hpage]
  exact ⟨map_eq_of_map fun a b => (hshows a b).mp, map_eq_of_map fun a b => (hshows a b).mpr⟩

end Formats

/-! ## The artifacts -/

/-- A redacted job renders the same for two results that differ in texts only exactly when no
    requested format shows the difference. -/
theorem contents_eq_iff [ReportRuntime] {request : ComparisonRequest} (hredact : request.reportOptions.redactContent = true)
    {result result' : LocalizationValidationResult} (hresult : SameButTexts result result')
    {sourceTree sourceTree' localeTree localeTree' : CanonicalTree} (hs : SameButLabels sourceTree sourceTree')
    (hl : SameButLabels localeTree localeTree') :
    contents request result sourceTree localeTree = contents request result' sourceTree' localeTree' ↔
      ∀ fmt ∈ request.reportFormats, result.issues.map (texts fmt.shows) = result'.issues.map (texts fmt.shows) := by
  obtain ⟨issues, rfl, hmasked⟩ := hresult.exists_issues
  rw [contents_eq, contents_eq, Except.ok.injEq, List.map_inj_left]
  refine forall₂_congr fun fmt _ => ?_
  rw [← rendered_variant hs hl]
  cases fmt with
  | csv => exact csv_iff hredact hmasked
  | json => exact json_iff hmasked
  | html => exact html_iff hmasked

/-! ## A title that is disclosed -/

section Errata
open Reconciliation.Builders Reconciliation.Engine

/-- The interpreter, as far as the scores 1 and 0.9 show it. -/
@[reducible] def tenthsRuntime : ReportRuntime where
  printable := fun _ => false
  floatRepr := fun f => if f = .finite 1 then "1.0" else "0.9"
  fixed2 := fun q => if q = 1 then "1.00" else "0.90"
  quotesReturn := false

def errataBook : CanonicalTree := buildTree "book"
  [⟨"book", "map", none, [], []⟩, ⟨"errata", "topic", some "book", [("id", .str "e")], [("title", .str "Errata")]⟩]

def correctionsBook : CanonicalTree := buildTree "book"
  [⟨"book", "map", none, [], []⟩, ⟨"errata", "topic", some "book", [("id", .str "e")], [("title", .str "Corrections")]⟩]

def bareBook : CanonicalTree := buildTree "livre" [⟨"livre", "map", none, [], []⟩]

/-- The localization result of a source against a locale without its topic. -/
def missingTopic (sourceTree : CanonicalTree) : Except PyError LocalizationValidationResult :=
  (@reconcile tenthsRuntime.toPyRuntime (defaultCommand sourceTree bareBook)).map fun result =>
    @validate tenthsRuntime.toPyRuntime result sourceTree bareBook "fr" .source none

def redactedRequest (reportFormats : List ReportFormat) : ComparisonRequest where
  sourceContent := ""
  localeContent := ""
  locale := "fr"
  documentProfileId := "dita"
  reportFormats := reportFormats
  reportOptions := { redactContent := true }
  locale_ne := french_ne
  documentProfileId_ne := dita_ne
  policy_locale := no_policy_locale "fr"

instance (result result' : LocalizationValidationResult) : Decidable (SameButTexts result result') :=
  inferInstanceAs (Decidable (_ = _))

theorem missingTopic_runs : Outcome.Returns (missingTopic errataBook) fun result =>
    Outcome.Returns (missingTopic correctionsBook) fun result' => SameButTexts result result' ∧
      result.issues.map (texts (ReportFormat.shows .csv)) = result'.issues.map (texts (ReportFormat.shows .csv)) ∧
      result.issues.map (texts (ReportFormat.shows .json)) ≠ result'.issues.map (texts (ReportFormat.shows .json)) := by
  decide +kernel

theorem bareBook_sameButLabels : SameButLabels bareBook bareBook where
  root := rfl
  nodes := ⟨_, .refl _, List.forall₂_same.mpr fun _ _ => ⟨rfl, ⟨rfl, rfl, rfl⟩, rfl, fun _ _ => rfl, rfl, rfl, rfl⟩⟩

theorem errataBook_sameButLabels : SameButLabels errataBook correctionsBook where
  root := rfl
  nodes := by
    refine ⟨_, .refl _, .cons ⟨rfl, ⟨rfl, rfl, rfl⟩, rfl, fun _ _ => rfl, rfl, rfl, rfl⟩
      (.cons ⟨rfl, ⟨rfl, rfl, rfl⟩, rfl, fun key hkey => ?_, rfl, rfl, rfl⟩ .nil)⟩
    have htitle : "title" ≠ key := by
      rintro rfl
      exact hkey (by decide)
    show (List.find? (fun e => decide (e.1 = key)) [("title", CanonicalValue.str "Errata")]).map Prod.snd =
      (List.find? (fun e => decide (e.1 = key)) [("title", CanonicalValue.str "Corrections")]).map Prod.snd
    rw [List.find?_cons_of_neg (by simpa using htitle), List.find?_cons_of_neg (by simpa using htitle)]

/-- A CSV alone tells the two titles of a missing topic not apart. -/
theorem errataTitles_hidden : ∃ result result', missingTopic errataBook = .ok result ∧
    missingTopic correctionsBook = .ok result' ∧
    @contents tenthsRuntime (redactedRequest [.csv]) result errataBook bareBook =
      @contents tenthsRuntime (redactedRequest [.csv]) result' correctionsBook bareBook := by
  obtain ⟨result, hrun, result', hrun', hsame, hcsv, -⟩ := missingTopic_runs
  refine ⟨result, result', hrun, hrun', ?_⟩
  refine (@contents_eq_iff tenthsRuntime _ rfl _ _ hsame _ _ _ _ errataBook_sameButLabels bareBook_sameButLabels).mpr ?_
  intro fmt hfmt
  rw [List.mem_singleton.mp hfmt]
  exact hcsv

/-- With every format requested, the redacted artifacts tell the two titles apart. -/
theorem errataTitles_disclosed : ∃ result result', missingTopic errataBook = .ok result ∧
    missingTopic correctionsBook = .ok result' ∧ SameButTexts result result' ∧ SameButLabels errataBook correctionsBook ∧
    @contents tenthsRuntime (redactedRequest [.csv, .json, .html]) result errataBook bareBook ≠
      @contents tenthsRuntime (redactedRequest [.csv, .json, .html]) result' correctionsBook bareBook := by
  obtain ⟨result, hrun, result', hrun', hsame, -, hjson⟩ := missingTopic_runs
  refine ⟨result, result', hrun, hrun', hsame, errataBook_sameButLabels, fun heq => hjson ?_⟩
  obtain ⟨issues, rfl, hmasked⟩ := hsame.exists_issues
  rw [@contents_eq tenthsRuntime, @contents_eq tenthsRuntime, Except.ok.injEq, List.map_inj_left] at heq
  have hrendered := heq .json (by simp [redactedRequest])
  rw [← @rendered_variant tenthsRuntime _ _ _ _ errataBook_sameButLabels bareBook_sameButLabels] at hrendered
  exact (@json_iff tenthsRuntime _ _ _ _ _ hmasked).mp hrendered

end Errata

end Reconciliation.Jobs
