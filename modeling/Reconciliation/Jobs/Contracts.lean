/-
  Reconciliation.Jobs.Contracts — the request, the record and the artifacts of a comparison
  job, and the errors its components declare.
-/
import Reconciliation.Reporting.Contracts

namespace Reconciliation.Jobs

open Reconciliation.Base Reconciliation.Contracts Reconciliation.Localization Reconciliation.Reporting

/-! ## Requests and records -/

inductive ComparisonState where
  | created
  | validatingInputs
  | rejected
  | running
  | completed
  | failed
  deriving DecidableEq

inductive ReportFormat where
  | html
  | csv
  | json
  deriving DecidableEq

structure ComparisonRequest where
  sourceContent : String
  localeContent : String
  locale : String
  documentProfileId : String
  authoritativeSide : AuthoritativeSide := .source
  reportFormats : List ReportFormat := []
  reportOptions : ReportOptions := {}
  policy : Option LocaleVariationPolicy := none
  jobId : Option String := none
  locale_ne : locale ≠ ""
  documentProfileId_ne : documentProfileId ≠ ""
  policy_locale : ∀ p ∈ policy, p.locale = locale := by simp

theorem no_policy_locale (locale : String) : ∀ p ∈ (none : Option LocaleVariationPolicy), p.locale = locale := by simp

theorem french_ne : "fr" ≠ "" := by decide

theorem dita_ne : "dita" ≠ "" := by decide

structure ArtifactSummary where
  format : ReportFormat
  name : String
  mediaType : String
  location : Option String := none
  sizeBytes : Int := 0
  deriving DecidableEq

structure JobRecord where
  jobId : String
  state : ComparisonState
  locale : Option String := none
  statusCounts : Dict String Nat := Dict.empty
  directIssueCount : Nat := 0
  artifacts : List ArtifactSummary := []
  errorCode : Option String := none
  errorMessage : Option String := none
  correlationId : Option String := none
  deriving DecidableEq

def JobRecord.isTerminal (record : JobRecord) : Bool := record.state ∈ [ComparisonState.completed, .rejected, .failed]

structure JobOutcome where
  record : JobRecord
  result : Option LocalizationValidationResult

/-! ## Errors -/

/-- The classes of `core/errors.py`. -/
inductive EngineErrorClass where
  | reconciliationError
  | invalidTree
  | invalidProfile
  | unsupportedContract
  | normalization
  | matching
  | alignment
  | classification
  | rootCause
  | resourceLimitExceeded
  deriving DecidableEq

/-- A `ReconciliationError`, as far as a job reads it. -/
structure EngineError where
  errorClass : EngineErrorClass
  code : String
  message : String

structure AdaptationError where
  code : String
  message : String

structure RepositoryError where
  message : String

def RepositoryError.code : String := "REPOSITORY_ERROR"

structure ReportGenerationError where
  message : String

structure ArtifactWriteError where
  message : String

/-- Where the store put an artifact. -/
structure ArtifactReference where
  jobId : String
  name : String
  mediaType : String
  location : String
  sizeBytes : Int

end Reconciliation.Jobs
