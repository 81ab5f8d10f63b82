/-
  Reconciliation.Jobs.ComparisonJob — one comparison job from end to end: adapt, reconcile,
  interpret, persist, render.

  The registry, the adapters, the engine, the repository, the renderers and the store are
  components that return or raise; the renderers and the store may answer differently for
  each artifact, so they are told its position. The event sent to a logger, which changes no
  outcome, is left out.
-/
import Reconciliation.Engine
import Reconciliation.Jobs.Contracts
import Reconciliation.Reporting.Html
import Reconciliation.Reporting.Renderers

namespace Reconciliation.Jobs

open Reconciliation.Base Reconciliation.Contracts Reconciliation.Localization Reconciliation.Reporting

/-! ## Components -/

structure ProfileBundle where
  normalization : NormalizationProfile
  matching : MatchingProfile
  alignment : AlignmentProfile
  operation : OperationProfile
  suppression : SuppressionProfile

structure DocumentProfile where
  adaptDocument (data treeId documentUri : String) : Except AdaptationError CanonicalTree
  bundle : ProfileBundle

structure Renderers where
  csv (table : ReportTable) : Except ReportGenerationError String
  json (result : LocalizationValidationResult) (table : ReportTable) : Except ReportGenerationError String
  html (result : LocalizationValidationResult) (sourceTree localeTree : CanonicalTree) : Except ReportGenerationError String

structure Components where
  registry : Dict String DocumentProfile
  engine (command : ReconcileTreesCommand) : Except EngineError ReconciliationResult
  results : Option (LocalizationValidationResult → Except RepositoryError Unit)
  renderers (index : Nat) : Renderers
  artifacts : Option ((index : Nat) → (jobId name content mediaType : String) → Except ArtifactWriteError ArtifactReference)
  uuid : String

/-- The renderers of the package, which always return. -/
def packagedRenderers [ReportRuntime] : Renderers where
  csv table := .ok (renderCsv table)
  json result table := .ok (renderFull result table)
  html result sourceTree localeTree := .ok (renderHtml result (some sourceTree) (some localeTree) none)

/-! ## Artifacts -/

structure Rendered where
  name : String
  mediaType : String
  content : String
  deriving DecidableEq

/-- The CSV renderer gets the table, the JSON renderer the result as well, the HTML renderer
    the result and the trees. -/
def renderOne (renderers : Renderers) (fmt : ReportFormat) (result : LocalizationValidationResult) (table : ReportTable)
    (sourceTree localeTree : CanonicalTree) : Except ReportGenerationError Rendered :=
  match fmt with
  | .csv => (renderers.csv table).map fun content => ⟨"report.csv", "text/csv", content⟩
  | .json => (renderers.json result table).map fun content => ⟨"result.json", "application/json", content⟩
  | .html => (renderers.html result sourceTree localeTree).map fun content => ⟨"report.html", "text/html", content⟩

/-- What is recorded of a rendered artifact: where it was stored, or its size. -/
def storeArtifact (components : Components) (jobId : String) (index : Nat) (fmt : ReportFormat) (rendered : Rendered) :
    ArtifactSummary :=
  let summary : ArtifactSummary := { format := fmt, name := rendered.name, mediaType := rendered.mediaType }
  match components.artifacts with
  | some write =>
    match write index jobId rendered.name rendered.content rendered.mediaType with
    | .ok ref => { summary with location := some ref.location, sizeBytes := ref.sizeBytes }
    | .error _ => { summary with sizeBytes := 0 }
  | none => { summary with sizeBytes := rendered.content.utf8ByteSize }

/-- The table of a request's reports, with its options. -/
def reportTable [PyRuntime] (request : ComparisonRequest) (result : LocalizationValidationResult)
    (sourceTree localeTree : CanonicalTree) : ReportTable :=
  buildReportTable result (some sourceTree) (some localeTree) request.reportOptions []

/-- The artifact of one position of the request. -/
def renderArtifact [PyRuntime] (components : Components) (request : ComparisonRequest)
    (result : LocalizationValidationResult) (sourceTree localeTree : CanonicalTree) (entry : ReportFormat × Nat) :
    Except ReportGenerationError ArtifactSummary :=
  (renderOne (components.renderers entry.2) entry.1 result (reportTable request result sourceTree localeTree) sourceTree
    localeTree).map (storeArtifact components result.jobId entry.2 entry.1)

def renderArtifacts [PyRuntime] (components : Components) (request : ComparisonRequest)
    (result : LocalizationValidationResult) (sourceTree localeTree : CanonicalTree) :
    Except ReportGenerationError (List ArtifactSummary) :=
  request.reportFormats.zipIdx.mapM (renderArtifact components request result sourceTree localeTree)

/-! ## The job -/

/-- `request.job_id or f"job-…"`. -/
def jobIdFor (request : ComparisonRequest) (uuid : String) : String :=
  (Classification.truthy request.jobId).getD ("job-" ++ uuid)

theorem jobIdFor_ne (request : ComparisonRequest) (uuid : String) : jobIdFor request uuid ≠ "" := by
  unfold jobIdFor
  cases h : Classification.truthy request.jobId with
  | none => simp
  | some jobId =>
    intro hempty
    have hne := (Option.filter_eq_some_iff.mp h).2
    simp only [Option.getD_some] at hempty
    simp [hempty] at hne

/-- An id that is given is kept. -/
theorem jobIdFor_given {request : ComparisonRequest} {jobId : String} (h : request.jobId = some jobId) (hne : jobId ≠ "")
    (uuid : String) : jobIdFor request uuid = jobId := by
  simp [jobIdFor, Classification.truthy, Option.filter, h, hne]

def jobIdOf (components : Components) (request : ComparisonRequest) : String := jobIdFor request components.uuid

theorem jobIdOf_ne (components : Components) (request : ComparisonRequest) : jobIdOf components request ≠ "" :=
  jobIdFor_ne request components.uuid

def correlationIdOf (jobId : String) : String := "corr-" ++ jobId

def executionContext (components : Components) (request : ComparisonRequest) : ExecutionContext where
  jobId := jobIdOf components request
  correlationId := some (correlationIdOf (jobIdOf components request))
  resourceLimits := ⟨none, none, none, no_limit_pos, no_limit_pos, no_limit_pos⟩
  incompleteOnLimit := false
  jobId_ne := jobIdOf_ne components request

def commandOf (components : Components) (request : ComparisonRequest) (bundle : ProfileBundle)
    (sourceTree localeTree : CanonicalTree) : ReconcileTreesCommand where
  sourceTree := sourceTree
  targetTree := localeTree
  normalizationProfile := bundle.normalization
  matchingProfile := bundle.matching
  alignmentProfile := bundle.alignment
  operationProfile := bundle.operation
  suppressionProfile := bundle.suppression
  executionContext := executionContext components request

/-- An outcome without a result. -/
def stopped (state : ComparisonState) (jobId : String) (request : ComparisonRequest) (code message : String) : JobOutcome where
  record :=
    { jobId := jobId
      state := state
      locale := some request.locale
      errorCode := some code
      errorMessage := some message
      correlationId := some (correlationIdOf jobId) }
  result := none

def rejected : String → ComparisonRequest → String → String → JobOutcome := stopped .rejected

def failed : String → ComparisonRequest → String → String → JobOutcome := stopped .failed

def completed (jobId : String) (request : ComparisonRequest) (result : LocalizationValidationResult)
    (artifacts : List ArtifactSummary) : JobOutcome where
  record :=
    { jobId := jobId
      state := .completed
      locale := some request.locale
      statusCounts := result.summary.statusCounts
      directIssueCount := result.summary.directIssueCount
      artifacts := artifacts
      correlationId := some (correlationIdOf jobId) }
  result := some result

/-- `self._results.save(result)`, where there is a repository. -/
def save (components : Components) (result : LocalizationValidationResult) : Except RepositoryError Unit :=
  match components.results with
  | some save => save result
  | none => .ok ()

def interpretation [PyRuntime] (request : ComparisonRequest) (reconciliation : ReconciliationResult)
    (sourceTree localeTree : CanonicalTree) : LocalizationValidationResult :=
  validate reconciliation sourceTree localeTree request.locale request.authoritativeSide request.policy

def unknownProfileMessage [PyRuntime] (request : ComparisonRequest) : String :=
  "unknown document profile " ++ pyReprStr request.documentProfileId

/-- Both documents, the source first. -/
def adaptBoth (components : Components) (request : ComparisonRequest) (profile : DocumentProfile) :
    Except AdaptationError (CanonicalTree × CanonicalTree) := do
  let jobId := jobIdOf components request
  let sourceTree ← profile.adaptDocument request.sourceContent (jobId ++ "-source") "source"
  let localeTree ← profile.adaptDocument request.localeContent (jobId ++ "-locale") "locale"
  return (sourceTree, localeTree)

/-- What follows the engine: interpret, persist, render. Only a renderer's error escapes. -/
def finish [PyRuntime] (components : Components) (request : ComparisonRequest) (reconciliation : ReconciliationResult)
    (sourceTree localeTree : CanonicalTree) : Except ReportGenerationError JobOutcome :=
  let jobId := jobIdOf components request
  let result := interpretation request reconciliation sourceTree localeTree
  match save components result with
  | .error error => .ok (failed jobId request RepositoryError.code error.message)
  | .ok () => (renderArtifacts components request result sourceTree localeTree).map (completed jobId request result)

/-- `_run`. Every error of the engine is a failure, whatever its class. -/
def run [PyRuntime] (components : Components) (request : ComparisonRequest) : Except ReportGenerationError JobOutcome :=
  let jobId := jobIdOf components request
  match components.registry.get? request.documentProfileId with
  | none => .ok (rejected jobId request "UNSUPPORTED_CONTRACT" (unknownProfileMessage request))
  | some profile =>
    match adaptBoth components request profile with
    | .error error => .ok (rejected jobId request error.code error.message)
    | .ok (sourceTree, localeTree) =>
      match components.engine (commandOf components request profile.bundle sourceTree localeTree) with
      | .error error => .ok (failed jobId request error.code error.message)
      | .ok reconciliation => finish components request reconciliation sourceTree localeTree

end Reconciliation.Jobs
