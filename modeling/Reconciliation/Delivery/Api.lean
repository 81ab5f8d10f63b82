/-
  Reconciliation.Delivery.Api — the HTTP interface: comparisons are created, read and decided on.

  The handlers run in a pool of threads. A creation is two events, the service run that
  saves the result and the handler's write of the job's record, and those of several
  creations may come in any order; a decision is one, since a saved result never changes.
  The reads are functions of the state. Proved of every order of events, as long as no job
  id is drawn twice:
  (1) Consistency (`reach_consistent`): a result is stored for exactly the completed jobs,
      with the counts the job's record shows, and every decision tells of an issue of a
      stored result and keeps the status the engine gave it. So the three reads of a job
      agree (`reach_answers`).
  (2) Durability (`path_stable`): what is answered about a job once its record is written
      never changes again, whatever is decided on it, and the decisions only grow.
  (3) A decision is recorded exactly when it is answered with 201, and refused exactly when
      its issue is not in a stored result, it overrides a status with nothing or with itself,
      an id repeats or the storage fails (`addDecision_iff`).
  Storage may fail at every access. Requests the framework refuses by their shape, and the
  two probes, are left out.
-/
import Reconciliation.Base.Machine
import Reconciliation.Infrastructure.Decisions
import Reconciliation.EngineProofs
import Reconciliation.Jobs.Outcomes
import Reconciliation.Jobs.Redaction
import Reconciliation.Localization.ValidationProofs

namespace Reconciliation.Delivery

open Reconciliation.Base Reconciliation.Contracts Reconciliation.Localization Reconciliation.Reporting Reconciliation.Jobs
  Reconciliation.Infrastructure

/-! ## Requests and responses -/

structure CreateComparisonRequest where
  sourceContent : String
  localeContent : String
  locale : String
  documentProfileId : String := "dita-map-v1"
  authoritativeSide : AuthoritativeSide := .source
  locale_ne : locale ≠ ""

structure JobResponse where
  jobId : String
  state : ComparisonState
  locale : Option String
  statusCounts : Dict String Nat
  directIssueCount : Nat
  correlationId : Option String

structure DecisionRequest where
  issueId : String
  decision : DecisionType
  reviewerId : Option String := none
  reason : Option String := none
  comment : Option String := none
  overriddenStatus : Option String := none
  issueId_ne : issueId ≠ ""

structure DecisionResponse where
  decisionId : String
  jobId : String
  issueId : String
  decision : DecisionType
  originalStatus : String
  overriddenStatus : Option String

structure ErrorResponse where
  code : String
  message : String
  correlationId : Option String := none
  retryable : Bool := false
  field : Option String := none

inductive Body where
  | job (response : JobResponse)
  | decision (response : DecisionResponse)
  | content (mediaType text : String)
  | error (response : ErrorResponse)
  | internal

structure Response where
  status : Nat
  body : Body

def errorResponse (status : Nat) (response : ErrorResponse) : Response := ⟨status, .error response⟩

/-- The handler of a `RepositoryError`. -/
def repositoryResponse (error : RepositoryError) : Response :=
  errorResponse 500 { code := RepositoryError.code, message := error.message, retryable := true }

/-- An exception no handler takes, such as a contract's `ValidationError`. -/
def internalError : Response := ⟨500, .internal⟩

def notFound (message : String) : Response := errorResponse 404 { code := "NOT_FOUND", message := message }

def jobResponse (record : JobRecord) : JobResponse where
  jobId := record.jobId
  state := record.state
  locale := record.locale
  statusCounts := record.statusCounts
  directIssueCount := record.directIssueCount
  correlationId := record.correlationId

/-! ## The state -/

/-- A comparison service: its engine answers for the job it was asked about. -/
structure ComparisonService where
  registry : Dict String DocumentProfile
  engine (command : ReconcileTreesCommand) : Except EngineError ReconciliationResult
  engine_jobId : ∀ command result, engine command = .ok result → result.jobId = command.executionContext.jobId

structure ApiState where
  jobs : Dict String JobRecord
  results : Dict String LocalizationValidationResult
  decisions : DecisionTable

/-- `result_repository.get`, or the error of the storage. -/
def loadResult (s : ApiState) (jobId : String) (fault : Option RepositoryError) :
    Except RepositoryError (Option LocalizationValidationResult) :=
  match fault with
  | some error => .error error
  | none => .ok (s.results.get? jobId)

/-! ## Creating -/

/-- The request the handler builds; its contract wants a profile id. -/
def comparisonRequest (body : CreateComparisonRequest) : Option ComparisonRequest :=
  if h : body.documentProfileId ≠ "" then
    some
      { sourceContent := body.sourceContent
        localeContent := body.localeContent
        locale := body.locale
        documentProfileId := body.documentProfileId
        authoritativeSide := body.authoritativeSide
        locale_ne := body.locale_ne
        documentProfileId_ne := h
        policy_locale := no_policy_locale body.locale }
  else none

/-- What a creation meets: the id that is drawn, and the storage. -/
structure CreationContext where
  uuid : String
  fault : Option RepositoryError

def storageOutcome : Option RepositoryError → Except RepositoryError Unit
  | some error => .error error
  | none => .ok ()

section Handlers
variable [ReportRuntime] (service : ComparisonService)

def componentsOf (context : CreationContext) : Components where
  registry := service.registry
  engine := service.engine
  results := some fun _ => storageOutcome context.fault
  renderers := fun _ => packagedRenderers
  artifacts := none
  uuid := context.uuid

/-- `state.service.run`, or an exception (`none`). -/
def serviceRun (body : CreateComparisonRequest) (context : CreationContext) : Option JobOutcome :=
  (comparisonRequest body).bind fun request => (run (componentsOf service context) request).toOption

/-- The repository after a run: the service saved the result it returns, replacing one of the same id. -/
def saved (s : ApiState) (outcome : JobOutcome) : ApiState :=
  match outcome.result with
  | some result => { s with results := s.results.insert result.jobId result }
  | none => s

def written (s : ApiState) (record : JobRecord) : ApiState := { s with jobs := s.jobs.insert record.jobId record }

def creationResponse (record : JobRecord) : Response :=
  match record.state with
  | .rejected =>
    errorResponse 422
      { code := (Classification.truthy record.errorCode).getD "COMPARISON_REJECTED"
        message := (Classification.truthy record.errorMessage).getD "rejected"
        correlationId := record.correlationId }
  | .failed =>
    errorResponse 500
      { code := (Classification.truthy record.errorCode).getD "COMPARISON_FAILED"
        message := (Classification.truthy record.errorMessage).getD "failed"
        correlationId := record.correlationId
        retryable := true }
  | _ => ⟨201, .job (jobResponse record)⟩

def createComparison (s : ApiState) (body : CreateComparisonRequest) (context : CreationContext) : ApiState × Response :=
  match serviceRun service body context with
  | none => (s, internalError)
  | some outcome => (written (saved s outcome) outcome.record, creationResponse outcome.record)

/-! ## Reading -/

def getComparison (s : ApiState) (jobId : String) : Response :=
  match s.jobs.get? jobId with
  | none => notFound ("unknown job " ++ pyReprStr jobId)
  | some record => ⟨200, .job (jobResponse record)⟩

def getResults (s : ApiState) (jobId accept : String) (fault : Option RepositoryError) : Response :=
  match loadResult s jobId fault with
  | .error error => repositoryResponse error
  | .ok none => notFound ("no results for job " ++ pyReprStr jobId)
  | .ok (some result) =>
    let table := buildReportTable result none none {} []
    if "text/csv".toList <:+: accept.toList then ⟨200, .content "text/csv" (renderCsv table)⟩
    else ⟨200, .content "application/json" (renderFull result table)⟩

def getReport (s : ApiState) (jobId : String) (fault : Option RepositoryError) : Response :=
  match loadResult s jobId fault with
  | .error error => repositoryResponse error
  | .ok none => notFound ("no report for job " ++ pyReprStr jobId)
  | .ok (some result) => ⟨200, .content "text/html" (renderHtml result none none none)⟩

/-! ## Deciding -/

structure ReviewerDecisionCommand where
  jobId : String
  issueId : String
  decision : DecisionType
  reviewerId : Option String
  reason : Option String
  comment : Option String
  overriddenStatus : Option String
  jobId_ne : jobId ≠ ""
  issueId_ne : issueId ≠ ""
  override_replaces : decision = .override → overriddenStatus ≠ none ∧ overriddenStatus ≠ some ""

inductive RecordError where
  | rejected (message : String)
  | invalid

omit [ReportRuntime] in
/-- `ReviewerDecisionService.record`; a decision that does not meet its contract is `invalid`. -/
def record (command : ReviewerDecisionCommand) (result : LocalizationValidationResult) (uuid : String) (decidedAt : Int) :
    Except RecordError RecordedDecision :=
  if command.jobId ≠ result.jobId then .error (.rejected "decision job id does not match the result")
  else
    match result.issues.find? fun issue => issue.issueId = command.issueId with
    | none => .error (.rejected "decision references an unknown issue")
    | some issue =>
      if h : command.decision = .override → command.overriddenStatus ≠ some issue.localizationStatus.value then
        .ok
          { decisionId := "decision-" ++ uuid
            jobId := command.jobId
            issueId := command.issueId
            decision := command.decision
            originalStatus := issue.localizationStatus.value
            overriddenStatus := if command.decision = .override then command.overriddenStatus else none
            reviewerId := command.reviewerId
            reason := command.reason
            comment := command.comment
            decidedAt := decidedAt
            decisionId_ne := by simp
            jobId_ne := command.jobId_ne
            issueId_ne := command.issueId_ne
            override_retains := fun hoverride => by
              rw [if_pos hoverride]
              exact ⟨(command.override_replaces hoverride).1, (command.override_replaces hoverride).2, h hoverride⟩ }
      else .error .invalid

/-- The command the handler builds; its contract wants a replacement of an override. -/
def decisionCommand (jobId : String) (body : DecisionRequest) : Option ReviewerDecisionCommand :=
  if h : jobId ≠ "" ∧ (body.decision = .override → body.overriddenStatus ≠ none ∧ body.overriddenStatus ≠ some "") then
    some
      { jobId := jobId
        issueId := body.issueId
        decision := body.decision
        reviewerId := body.reviewerId
        reason := body.reason
        comment := body.comment
        overriddenStatus := body.overriddenStatus
        jobId_ne := h.1
        issueId_ne := body.issueId_ne
        override_replaces := h.2 }
  else none

/-- What a decision meets: the id that is drawn, the clock when it is recorded and stored, and the storage. -/
structure DecisionContext where
  uuid : String
  decidedAt : Int
  now : Int
  loadFault : Option RepositoryError
  addFault : Option RepositoryError

def addRow (table : DecisionTable) (call : AddCall) (fault : Option RepositoryError) : Except RepositoryError DecisionTable :=
  match fault with
  | some error => .error error
  | none => add table call

def decisionResponse (decision : RecordedDecision) : DecisionResponse where
  decisionId := decision.decisionId
  jobId := decision.jobId
  issueId := decision.issueId
  decision := decision.decision
  originalStatus := decision.originalStatus
  overriddenStatus := decision.overriddenStatus

def addDecision (s : ApiState) (jobId : String) (body : DecisionRequest) (context : DecisionContext) : ApiState × Response :=
  match loadResult s jobId context.loadFault with
  | .error error => (s, repositoryResponse error)
  | .ok none => (s, notFound ("no result for job " ++ pyReprStr jobId))
  | .ok (some result) =>
    match decisionCommand jobId body with
    | none => (s, internalError)
    | some command =>
      match record command result context.uuid context.decidedAt with
      | .error (.rejected message) => (s, errorResponse 422 { code := "COMPARISON_REJECTED", message := message })
      | .error .invalid => (s, internalError)
      | .ok decision =>
        match addRow s.decisions ⟨context.now, decision⟩ context.addFault with
        | .error error => (s, repositoryResponse error)
        | .ok decisions => ({ s with decisions := decisions }, ⟨201, .decision (decisionResponse decision)⟩)

/-! ## The server -/

/-- The state, and the records of the runs that have returned and whose handlers have not gone on. -/
structure Server where
  state : ApiState
  running : List JobRecord

inductive Request where
  | returns (body : CreateComparisonRequest) (context : CreationContext)
  | writes (index : Nat)
  | decides (jobId : String) (body : DecisionRequest) (context : DecisionContext)

namespace Server

def init : Server := ⟨⟨Dict.empty, Dict.empty, []⟩, []⟩

def Known (s : Server) (jobId : String) : Prop :=
  (∃ record, s.state.jobs.get? jobId = some record) ∨ ∃ record ∈ s.running, record.jobId = jobId

def returns (s : Server) (body : CreateComparisonRequest) (context : CreationContext) : Server :=
  match serviceRun service body context with
  | none => s
  | some outcome => ⟨saved s.state outcome, s.running ++ [outcome.record]⟩

def writes (s : Server) (index : Nat) : Server :=
  match s.running[index]? with
  | none => s
  | some record => ⟨written s.state record, s.running.eraseIdx index⟩

def decides (s : Server) (jobId : String) (body : DecisionRequest) (context : DecisionContext) : Server :=
  { s with state := (addDecision s.state jobId body context).1 }

end Server

open Server

/-- Every event is possible, but for a creation that draws the id of another job. -/
def apiMachine : Machine Server Request where
  start := Server.init
  Possible s
    | .returns _ context => ¬ s.Known ("job-" ++ context.uuid)
    | .writes _ => True
    | .decides _ _ _ => True
  next s
    | .returns body context => s.returns service body context
    | .writes index => s.writes index
    | .decides jobId body context => s.decides jobId body context

/-! ## What a service run returns -/

/-- What a record shows is what is in the result stored under its id. -/
def Shows (record : JobRecord) : Option LocalizationValidationResult → Prop
  | some result => record.state = .completed ∧ result.jobId = record.jobId ∧ record.locale = some result.locale ∧
      record.statusCounts = result.summary.statusCounts ∧ record.directIssueCount = result.summary.directIssueCount ∧
      record.errorCode = none ∧ (result.issues.map LocalizationIssue.issueId).Nodup
  | none => (record.state = .rejected ∨ record.state = .failed) ∧ record.errorCode ≠ none ∧ record.errorMessage ≠ none ∧
      record.statusCounts = Dict.empty

/-- A record and the result stored under its id, if any, tell of one run. -/
structure Accounts (record : JobRecord) (result : Option LocalizationValidationResult) : Prop where
  jobId_ne : record.jobId ≠ ""
  correlationId : record.correlationId = some (correlationIdOf record.jobId)
  shows : Shows record result

variable {service} {s t : Server} {body : CreateComparisonRequest} {context : CreationContext} {outcome : JobOutcome}

/-- A job that finishes has interpreted what the engine returned for it. -/
theorem course_finishes {components : Components} {request : ComparisonRequest} {result : LocalizationValidationResult}
    {sourceTree localeTree : CanonicalTree} (h : course components request = .finishes result sourceTree localeTree) :
    ∃ command reconciliation, components.engine command = .ok reconciliation ∧
      command.executionContext.jobId = jobIdOf components request ∧
      result = interpretation request reconciliation sourceTree localeTree := by
  unfold course at h
  cases hprofile : components.registry.get? request.documentProfileId with
  | none => simp [hprofile] at h
  | some profile =>
    simp only [hprofile] at h
    cases htrees : adaptBoth components request profile with
    | error error => simp [htrees] at h
    | ok trees =>
      simp only [htrees] at h
      cases hengine : components.engine (commandOf components request profile.bundle trees.1 trees.2) with
      | error error => simp [hengine] at h
      | ok reconciliation =>
        simp only [hengine] at h
        cases hsave : save components (interpretation request reconciliation trees.1 trees.2) with
        | error error => simp [hsave] at h
        | ok saved =>
          simp only [hsave] at h
          cases h
          exact ⟨_, reconciliation, hengine, rfl, rfl⟩

omit [ReportRuntime] in
theorem stopped_shows {state : ComparisonState} (hstate : state = .rejected ∨ state = .failed) (jobId : String)
    (request : ComparisonRequest) (code message : String) :
    Shows (stopped state jobId request code message).record (stopped state jobId request code message).result :=
  ⟨hstate, by simp [stopped], by simp [stopped], rfl⟩

theorem serviceRun_accounts (h : serviceRun service body context = some outcome) :
    outcome.record.jobId = "job-" ++ context.uuid ∧ Accounts outcome.record outcome.result := by
  obtain ⟨request, hrequest, hrun⟩ := Option.bind_eq_some_iff.mp h
  have hjob : request.jobId = none := by
    unfold comparisonRequest at hrequest
    split at hrequest
    · cases hrequest
      rfl
    · cases hrequest
  have hid : jobIdOf (componentsOf service context) request = "job-" ++ context.uuid := by
    simp [jobIdOf, jobIdFor, hjob, Classification.truthy, componentsOf]
  have hok : run (componentsOf service context) request = .ok outcome := by
    cases hres : run (componentsOf service context) request with
    | error error =>
      rw [hres] at hrun
      cases hrun
    | ok returned =>
      rw [hres] at hrun
      cases hrun
      rfl
  have hne : jobIdOf (componentsOf service context) request ≠ "" := jobIdOf_ne _ _
  rw [run_eq] at hok
  cases hcourse : course (componentsOf service context) request with
  | unknownProfile =>
    rw [hcourse] at hok
    cases hok
    exact ⟨hid, hne, rfl, stopped_shows (Or.inl rfl) _ _ _ _⟩
  | adaptationFails error =>
    rw [hcourse] at hok
    cases hok
    exact ⟨hid, hne, rfl, stopped_shows (Or.inl rfl) _ _ _ _⟩
  | engineRaises error =>
    rw [hcourse] at hok
    cases hok
    exact ⟨hid, hne, rfl, stopped_shows (Or.inr rfl) _ _ _ _⟩
  | saveFails error =>
    rw [hcourse] at hok
    cases hok
    exact ⟨hid, hne, rfl, stopped_shows (Or.inr rfl) _ _ _ _⟩
  | finishes result sourceTree localeTree =>
    rw [hcourse] at hok
    obtain ⟨artifacts, -, rfl⟩ := Outcome.map_ok.mp hok
    obtain ⟨command, reconciliation, hengine, hcommand, rfl⟩ := course_finishes hcourse
    exact ⟨hid, hne, rfl, rfl, (service.engine_jobId _ _ hengine).trans hcommand, rfl, rfl, rfl, rfl,
      issueIds_nodup _ _ _ _ _ _⟩

/-! ## What a decision changes -/

/-- The decision that is recorded of a request on an issue. -/
structure Records (recorded : RecordedDecision) (jobId : String) (body : DecisionRequest) (context : DecisionContext)
    (issue : LocalizationIssue) : Prop where
  decisionId : recorded.decisionId = "decision-" ++ context.uuid
  jobId : recorded.jobId = jobId
  issueId : recorded.issueId = body.issueId
  decision : recorded.decision = body.decision
  originalStatus : recorded.originalStatus = issue.localizationStatus.value
  overriddenStatus : recorded.overriddenStatus = if body.decision = .override then body.overriddenStatus else none
  reviewerId : recorded.reviewerId = body.reviewerId
  reason : recorded.reason = body.reason
  comment : recorded.comment = body.comment
  decidedAt : recorded.decidedAt = context.decidedAt

/-- A replacement that an override may give to a status. -/
def Replaces (body : DecisionRequest) (status : String) : Prop :=
  body.decision = .override → body.overriddenStatus ≠ none ∧ body.overriddenStatus ≠ some "" ∧ body.overriddenStatus ≠ some status

/-- What the handler and the service let through, and the table takes. -/
structure Accepted (s : ApiState) (jobId : String) (body : DecisionRequest) (context : DecisionContext)
    (result : LocalizationValidationResult) (issue : LocalizationIssue) : Prop where
  loads : context.loadFault = none
  adds : context.addFault = none
  jobId_ne : jobId ≠ ""
  result_get : s.results.get? jobId = some result
  result_jobId : result.jobId = jobId
  issue_find : (result.issues.find? fun issue => issue.issueId = body.issueId) = some issue
  replaces : Replaces body issue.localizationStatus.value
  fresh : "decision-" ++ context.uuid ∉ s.decisions.map ReviewerDecisionRecord.decisionId

section Deciding
variable {state : ApiState} {jobId : String} {request : DecisionRequest} {met : DecisionContext}

omit [ReportRuntime] in
theorem decisionCommand_eq (hne : jobId ≠ "")
    (hreplaces : request.decision = .override → request.overriddenStatus ≠ none ∧ request.overriddenStatus ≠ some "") :
    decisionCommand jobId request = some ⟨jobId, request.issueId, request.decision, request.reviewerId, request.reason,
      request.comment, request.overriddenStatus, hne, request.issueId_ne, hreplaces⟩ := dif_pos ⟨hne, hreplaces⟩

omit [ReportRuntime] in
/-- The service records a decision on an issue of the command's own result, unless it overrides a status with itself. -/
theorem record_ok {command : ReviewerDecisionCommand} {result : LocalizationValidationResult} {uuid : String} {decidedAt : Int}
    {decision : RecordedDecision} (h : record command result uuid decidedAt = .ok decision) :
    command.jobId = result.jobId ∧ decision.decisionId = "decision-" ++ uuid ∧
      ∃ issue, (result.issues.find? fun issue => issue.issueId = command.issueId) = some issue ∧
        (command.decision = .override → command.overriddenStatus ≠ some issue.localizationStatus.value) := by
  unfold record at h
  by_cases hjob : command.jobId = result.jobId
  · rw [if_neg (not_not.mpr hjob)] at h
    cases hfind : result.issues.find? fun issue => issue.issueId = command.issueId with
    | none =>
      rw [hfind] at h
      cases h
    | some issue =>
      rw [hfind] at h
      by_cases hdiffers : command.decision = .override → command.overriddenStatus ≠ some issue.localizationStatus.value
      · simp only [dif_pos hdiffers] at h
        cases h
        exact ⟨hjob, rfl, issue, rfl, hdiffers⟩
      · simp only [dif_neg hdiffers] at h
        cases h
  · rw [if_pos hjob] at h
    cases h

/-- A request that is accepted adds the row of its decision. -/
theorem addDecision_accepted {result : LocalizationValidationResult} {issue : LocalizationIssue}
    (h : Accepted state jobId request met result issue) :
    ∃ decision, Records decision jobId request met issue ∧
      addDecision state jobId request met =
        ({ state with decisions := state.decisions ++ [(⟨met.now, decision⟩ : AddCall).record] },
          ⟨201, .decision (decisionResponse decision)⟩) := by
  have hvalid : request.decision = .override → request.overriddenStatus ≠ none ∧ request.overriddenStatus ≠ some "" :=
    fun hoverride => ⟨(h.replaces hoverride).1, (h.replaces hoverride).2.1⟩
  have hdiffers : request.decision = .override → request.overriddenStatus ≠ some issue.localizationStatus.value :=
    fun hoverride => (h.replaces hoverride).2.2
  have hcommand := decisionCommand_eq h.jobId_ne hvalid
  have hrecord : ∃ decision, record ⟨jobId, request.issueId, request.decision, request.reviewerId, request.reason,
      request.comment, request.overriddenStatus, h.jobId_ne, request.issueId_ne, hvalid⟩ result met.uuid met.decidedAt =
        .ok decision ∧ Records decision jobId request met issue := by
    unfold record
    rw [if_neg (not_not.mpr h.result_jobId.symm)]
    simp only [h.issue_find, dif_pos hdiffers]
    exact ⟨_, rfl, ⟨rfl, rfl, rfl, rfl, rfl, rfl, rfl, rfl, rfl, rfl⟩⟩
  obtain ⟨decision, hrecord, hrecords⟩ := hrecord
  have hadd : addRow state.decisions ⟨met.now, decision⟩ met.addFault =
      .ok (state.decisions ++ [(⟨met.now, decision⟩ : AddCall).record]) := by
    rcases add_cases state.decisions ⟨met.now, decision⟩ with ⟨hused, -⟩ | ⟨-, hadd, -⟩
    · rw [hrecords.decisionId] at hused
      exact absurd hused h.fresh
    · simp only [addRow, h.adds, hadd]
  refine ⟨decision, hrecords, ?_⟩
  simp only [addDecision, loadResult, h.loads, h.result_get, hcommand, hrecord, hadd]

/-- One that is not changes nothing. -/
theorem addDecision_refused (h : ∀ result issue, ¬ Accepted state jobId request met result issue) :
    (addDecision state jobId request met).1 = state ∧ (addDecision state jobId request met).2.status ≠ 201 := by
  have herror : (500 : Nat) ≠ 201 := by decide
  unfold addDecision loadResult
  cases hloads : met.loadFault with
  | some error => exact ⟨rfl, herror⟩
  | none =>
    simp only
    cases hget : state.results.get? jobId with
    | none => exact ⟨rfl, show (404 : Nat) ≠ 201 by decide⟩
    | some result =>
      simp only
      by_cases hvalid : jobId ≠ "" ∧
          (request.decision = .override → request.overriddenStatus ≠ none ∧ request.overriddenStatus ≠ some "")
      · rw [decisionCommand_eq hvalid.1 hvalid.2]
        simp only
        cases hrecord : record _ result met.uuid met.decidedAt with
        | error error =>
          cases error with
          | rejected message => exact ⟨rfl, show (422 : Nat) ≠ 201 by decide⟩
          | invalid => exact ⟨rfl, herror⟩
        | ok decision =>
          obtain ⟨hjob, hid, issue, hfind, hdiffers⟩ := record_ok hrecord
          simp only
          cases hadds : met.addFault with
          | some error => exact ⟨rfl, herror⟩
          | none =>
            rcases add_cases state.decisions ⟨met.now, decision⟩ with ⟨-, ⟨error, hadd⟩, -⟩ | ⟨hfresh, -, -⟩
            · rw [show addRow state.decisions ⟨met.now, decision⟩ none = .error error from hadd]
              exact ⟨rfl, herror⟩
            · -- nothing is in the way, so the request was accepted
              refine absurd ⟨hloads, hadds, hvalid.1, hget, hjob.symm, hfind, ?_, hid ▸ hfresh⟩ (h result issue)
              exact fun hoverride => ⟨(hvalid.2 hoverride).1, (hvalid.2 hoverride).2, hdiffers hoverride⟩
      · rw [show decisionCommand jobId request = none from dif_neg hvalid]
        exact ⟨rfl, herror⟩

end Deciding

/-! ## Consistency -/

/-- A row tells of an issue of the stored result, with the status the engine gave it. -/
def Decided (results : Dict String LocalizationValidationResult) (row : ReviewerDecisionRecord) : Prop :=
  row.payload.decisionId = row.decisionId ∧ row.payload.jobId = row.jobId ∧ row.payload.issueId = row.issueId ∧
    ∃ result issue, results.get? row.jobId = some result ∧ issue ∈ result.issues ∧ issue.issueId = row.issueId ∧
      row.payload.originalStatus = issue.localizationStatus.value

structure Consistent (s : Server) : Prop where
  jobs : ∀ jobId record, s.state.jobs.get? jobId = some record →
    record.jobId = jobId ∧ Accounts record (s.state.results.get? jobId)
  running : ∀ record ∈ s.running, Accounts record (s.state.results.get? record.jobId) ∧
    s.state.jobs.get? record.jobId = none
  running_nodup : (s.running.map JobRecord.jobId).Nodup
  results : ∀ jobId result, s.state.results.get? jobId = some result → s.Known jobId
  decisions : ∀ row ∈ s.state.decisions, Decided s.state.results row
  decisions_nodup : (s.state.decisions.map ReviewerDecisionRecord.decisionId).Nodup

omit [ReportRuntime] in
theorem Consistent.no_result (h : Consistent s) {jobId : String} (hnew : ¬ s.Known jobId) :
    s.state.results.get? jobId = none := by
  cases hget : s.state.results.get? jobId with
  | none => rfl
  | some result => exact absurd (h.results jobId result hget) hnew

omit [ReportRuntime] in
/-- What a run saves: its result under the id of its record, and nothing else. -/
theorem saved_results (state : ApiState) (haccounts : Accounts outcome.record outcome.result) (jobId : String) :
    (saved state outcome).results.get? jobId =
      if jobId = outcome.record.jobId ∧ outcome.result ≠ none then outcome.result else state.results.get? jobId := by
  unfold saved
  cases hresult : outcome.result with
  | none => simp
  | some result =>
    rw [hresult] at haccounts
    obtain ⟨-, hid, -⟩ := haccounts.shows
    show (state.results.insert result.jobId result).get? jobId = _
    rw [Dict.get?_insert, hid]
    simp

omit [ReportRuntime] in
theorem saved_other (state : ApiState) (outcome : JobOutcome) :
    (saved state outcome).jobs = state.jobs ∧ (saved state outcome).decisions = state.decisions := by
  unfold saved
  cases outcome.result with
  | none => exact ⟨rfl, rfl⟩
  | some result => exact ⟨rfl, rfl⟩

omit [ReportRuntime] in
/-- A run under an id of its own saves its result beside the stored ones. -/
theorem saved_fresh (h : Consistent s) (haccounts : Accounts outcome.record outcome.result)
    (hnew : ¬ s.Known outcome.record.jobId) :
    (saved s.state outcome).results.get? outcome.record.jobId = outcome.result ∧
      ∀ jobId, jobId ≠ outcome.record.jobId →
        (saved s.state outcome).results.get? jobId = s.state.results.get? jobId := by
  refine ⟨?_, fun jobId hne => ?_⟩
  · rw [saved_results s.state haccounts, h.no_result hnew]
    by_cases hresult : outcome.result = none
    · rw [if_neg (fun hand => hand.2 hresult), hresult]
    · rw [if_pos ⟨rfl, hresult⟩]
  · rw [saved_results s.state haccounts, if_neg (fun hand => hne hand.1)]

theorem returns_cases (s : Server) (body : CreateComparisonRequest) (context : CreationContext) :
    s.returns service body context = s ∨ ∃ outcome, outcome.record.jobId = "job-" ++ context.uuid ∧
      Accounts outcome.record outcome.result ∧
      s.returns service body context = ⟨saved s.state outcome, s.running ++ [outcome.record]⟩ := by
  unfold Server.returns
  cases hrun : serviceRun service body context with
  | none => exact Or.inl rfl
  | some outcome =>
    obtain ⟨hid, haccounts⟩ := serviceRun_accounts hrun
    exact Or.inr ⟨outcome, hid, haccounts, rfl⟩

theorem decides_cases (s : Server) (jobId : String) (body : DecisionRequest) (context : DecisionContext) :
    s.decides jobId body context = s ∨ ∃ result issue decision, Accepted s.state jobId body context result issue ∧
      Records decision jobId body context issue ∧ s.decides jobId body context =
        { s with state.decisions := s.state.decisions ++ [(⟨context.now, decision⟩ : AddCall).record] } := by
  by_cases h : ∃ result issue, Accepted s.state jobId body context result issue
  · obtain ⟨result, issue, haccepted⟩ := h
    obtain ⟨decision, hrecords, heq⟩ := addDecision_accepted haccepted
    refine Or.inr ⟨result, issue, decision, haccepted, hrecords, ?_⟩
    unfold Server.decides
    rw [heq]
  · have hrefused := addDecision_refused fun result issue haccepted => h ⟨result, issue, haccepted⟩
    unfold Server.decides
    rw [hrefused.1]
    exact Or.inl rfl

/-- A creation is its two events in a row. -/
theorem createComparison_eq (s : Server) (body : CreateComparisonRequest) (context : CreationContext) :
    (s.returns service body context).writes s.running.length =
      { s with state := (createComparison service s.state body context).1 } := by
  unfold Server.returns createComparison
  cases hrun : serviceRun service body context with
  | none =>
    unfold Server.writes
    rw [List.getElem?_eq_none (Nat.le_refl _)]
  | some outcome =>
    have hget : (s.running ++ [outcome.record])[s.running.length]? = some outcome.record := List.getElem?_concat_length
    have herase : (s.running ++ [outcome.record]).eraseIdx s.running.length = s.running := by
      rw [List.eraseIdx_append_of_length_le (Nat.le_refl _)]
      simp
    simp only [Server.writes, hget, herase]

omit [ReportRuntime] in
theorem consistent_init : Consistent Server.init where
  jobs jobId record hget := by cases hget
  running record hmem := by cases hmem
  running_nodup := List.nodup_nil
  results jobId result hget := by cases hget
  decisions row hmem := by cases hmem
  decisions_nodup := List.nodup_nil

omit [ReportRuntime] in
theorem Decided.mono {results results' : Dict String LocalizationValidationResult} {row : ReviewerDecisionRecord}
    (h : Decided results row)
    (hkept : ∀ jobId result, results.get? jobId = some result → results'.get? jobId = some result) :
    Decided results' row := by
  obtain ⟨hid, hjob, hissue, result, issue, hget, hrest⟩ := h
  exact ⟨hid, hjob, hissue, result, issue, hkept _ _ hget, hrest⟩

omit [ReportRuntime] in
theorem consistent_saved (h : Consistent s) (haccounts : Accounts outcome.record outcome.result)
    (hnew : ¬ s.Known outcome.record.jobId) :
    Consistent ⟨saved s.state outcome, s.running ++ [outcome.record]⟩ := by
  obtain ⟨hresult, hothers⟩ := saved_fresh h haccounts hnew
  obtain ⟨hjobs, hdecisions⟩ := saved_other s.state outcome
  have hother : ∀ jobId, s.Known jobId → (saved s.state outcome).results.get? jobId = s.state.results.get? jobId :=
    fun jobId hknown => hothers jobId fun heq => hnew (heq ▸ hknown)
  have hkept : ∀ jobId result, s.state.results.get? jobId = some result →
      (saved s.state outcome).results.get? jobId = some result :=
    fun jobId result hget => (hother jobId (h.results jobId result hget)).trans hget
  refine ⟨?_, ?_, ?_, ?_, ?_, ?_⟩
  · intro jobId record hget
    have hget : s.state.jobs.get? jobId = some record := hjobs ▸ hget
    obtain ⟨hid, hrecord⟩ := h.jobs jobId record hget
    exact ⟨hid, by rwa [hother jobId (Or.inl ⟨record, hget⟩)]⟩
  · intro record hmem
    show Accounts record ((saved s.state outcome).results.get? record.jobId) ∧ (saved s.state outcome).jobs.get? _ = none
    rw [hjobs]
    rcases List.mem_append.mp hmem with hold | hlast
    · obtain ⟨hrecord, hnone⟩ := h.running record hold
      exact ⟨by rwa [hother _ (Or.inr ⟨record, hold, rfl⟩)], hnone⟩
    · cases List.mem_singleton.mp hlast
      refine ⟨hresult ▸ haccounts, ?_⟩
      cases hget : s.state.jobs.get? outcome.record.jobId with
      | none => rfl
      | some record => exact absurd (Or.inl ⟨record, hget⟩) hnew
  · rw [List.map_append, List.map_singleton]
    refine List.nodup_append.mpr ⟨h.running_nodup, List.nodup_singleton _, fun a ha b hb hab => hnew (Or.inr ?_)⟩
    obtain ⟨record, hmem, rfl⟩ := List.mem_map.mp ha
    exact ⟨record, hmem, hab.trans (List.mem_singleton.mp hb)⟩
  · intro jobId result hget
    by_cases hid : jobId = outcome.record.jobId
    · exact Or.inr ⟨outcome.record, List.mem_append_right _ (List.mem_singleton_self _), hid.symm⟩
    · rcases h.results jobId result ((hothers jobId hid).symm.trans hget) with ⟨record, hrecord⟩ | ⟨record, hmem, hjob⟩
      · exact Or.inl ⟨record, hjobs.symm ▸ hrecord⟩
      · exact Or.inr ⟨record, List.mem_append_left _ hmem, hjob⟩
  · intro row hmem
    exact (h.decisions row (hdecisions ▸ hmem)).mono hkept
  · exact hdecisions.symm ▸ h.decisions_nodup

omit [ReportRuntime] in
theorem get_written (state : ApiState) (record : JobRecord) (jobId : String) :
    (written state record).jobs.get? jobId = if jobId = record.jobId then some record else state.jobs.get? jobId :=
  Dict.get?_insert _ _ _ _

omit [ReportRuntime] in
/-- The records that still run are of other jobs than the one that is written. -/
theorem eraseIdx_other (h : Consistent s) {index : Nat} {record record' : JobRecord} (hget : s.running[index]? = some record)
    (hmem : record' ∈ s.running.eraseIdx index) : record' ∈ s.running ∧ record'.jobId ≠ record.jobId := by
  obtain ⟨i, hne, hi⟩ := List.mem_eraseIdx_iff_getElem?.mp hmem
  refine ⟨List.mem_of_getElem? hi, fun heq => hne ?_⟩
  have hlt : i < (s.running.map JobRecord.jobId).length := by
    simpa using (List.getElem?_eq_some_iff.mp hi).1
  refine (List.getElem?_inj hlt h.running_nodup).mp ?_
  rw [List.getElem?_map, List.getElem?_map, hi, hget, Option.map_some, Option.map_some, heq]

omit [ReportRuntime] in
theorem consistent_written (h : Consistent s) {index : Nat} {record : JobRecord} (hget : s.running[index]? = some record) :
    Consistent ⟨written s.state record, s.running.eraseIdx index⟩ := by
  have hrecord := h.running record (List.mem_of_getElem? hget)
  refine ⟨?_, ?_, ?_, ?_, h.decisions, h.decisions_nodup⟩
  · intro jobId record' hget'
    rw [get_written] at hget'
    by_cases hid : jobId = record.jobId
    · rw [if_pos hid] at hget'
      cases hget'
      exact ⟨hid.symm, hid ▸ hrecord.1⟩
    · rw [if_neg hid] at hget'
      exact h.jobs jobId record' hget'
  · intro record' hmem
    obtain ⟨hold, hne⟩ := eraseIdx_other h hget hmem
    refine ⟨(h.running record' hold).1, ?_⟩
    rw [get_written, if_neg hne]
    exact (h.running record' hold).2
  · exact h.running_nodup.sublist ((List.eraseIdx_sublist _ _).map _)
  · intro jobId result hresult
    by_cases hid : jobId = record.jobId
    · exact Or.inl ⟨record, (get_written _ _ _).trans (if_pos hid)⟩
    · rcases h.results jobId result hresult with ⟨record', hjobs⟩ | ⟨record', hmem, hjob⟩
      · exact Or.inl ⟨record', (get_written _ _ _).trans ((if_neg hid).trans hjobs)⟩
      · obtain ⟨i, hi⟩ := List.getElem?_of_mem hmem
        refine Or.inr ⟨record', List.mem_eraseIdx_iff_getElem?.mpr ⟨i, fun heq => hid ?_, hi⟩, hjob⟩
        rw [heq, hget] at hi
        cases hi
        exact hjob.symm

omit [ReportRuntime] in
theorem consistent_decided (h : Consistent s) {jobId : String} {body : DecisionRequest} {context : DecisionContext}
    {result : LocalizationValidationResult} {issue : LocalizationIssue} {decision : RecordedDecision}
    (haccepted : Accepted s.state jobId body context result issue) (hrecords : Records decision jobId body context issue) :
    Consistent { s with state.decisions := s.state.decisions ++ [(⟨context.now, decision⟩ : AddCall).record] } := by
  refine ⟨h.jobs, h.running, h.running_nodup, h.results, ?_, ?_⟩
  · intro row hmem
    rcases List.mem_append.mp hmem with hold | hnew
    · exact h.decisions row hold
    · cases List.mem_singleton.mp hnew
      have hissue : issue.issueId = body.issueId := by simpa using List.find?_some haccepted.issue_find
      refine ⟨rfl, rfl, rfl, result, issue, ?_, List.mem_of_find?_eq_some haccepted.issue_find, ?_, hrecords.originalStatus⟩
      · exact (congrArg _ hrecords.jobId).trans haccepted.result_get
      · exact hissue.trans hrecords.issueId.symm
  · show ((s.state.decisions ++ [_]).map ReviewerDecisionRecord.decisionId).Nodup
    rw [List.map_append, List.map_singleton]
    refine List.nodup_append.mpr ⟨h.decisions_nodup, List.nodup_singleton _, fun a ha b hb hab => haccepted.fresh ?_⟩
    have hid : a = decision.decisionId := hab.trans (List.mem_singleton.mp hb)
    rw [← hrecords.decisionId, ← hid]
    exact ha

variable {Ok : Server → Request → Prop}

/-- Every event keeps the server consistent. -/
theorem consistent_next (h : Consistent s) {request : Request} (hpossible : (apiMachine service).Possible s request) :
    Consistent ((apiMachine service).next s request) := by
  cases request with
  | returns body context =>
    show Consistent (s.returns service body context)
    rcases @returns_cases _ service s body context with hsame | ⟨outcome, hid, haccounts, heq⟩
    · rwa [hsame]
    · rw [heq]
      exact consistent_saved h haccounts (hid ▸ hpossible)
  | writes index =>
    show Consistent (s.writes index)
    unfold Server.writes
    cases hget : s.running[index]? with
    | none => exact h
    | some record => exact consistent_written h hget
  | decides jobId body context =>
    show Consistent (s.decides jobId body context)
    rcases decides_cases s jobId body context with hsame | ⟨result, issue, decision, haccepted, hrecords, heq⟩
    · rwa [hsame]
    · rw [heq]
      exact consistent_decided h haccepted hrecords

/-- In every order of events, records, results and decisions tell of the same runs. -/
theorem reach_consistent (h : (apiMachine service).Reach Ok s) : Consistent s :=
  h.invariant consistent_init fun _ _ hc hpossible _ => consistent_next hc hpossible

/-- A creation under an id of its own is answered with 201 exactly when its result is stored. -/
theorem createComparison_created (h : Consistent s) (hnew : ¬ s.Known ("job-" ++ context.uuid)) :
    (createComparison service s.state body context).2.status = 201 ↔
      ∃ result, (createComparison service s.state body context).1.results.get? ("job-" ++ context.uuid) = some result := by
  unfold createComparison
  cases hrun : serviceRun service body context with
  | none => simp [internalError, h.no_result hnew]
  | some outcome =>
    obtain ⟨hid, haccounts⟩ := serviceRun_accounts hrun
    have hshows := haccounts.shows
    show (creationResponse outcome.record).status = 201 ↔ ∃ result, (saved s.state outcome).results.get? _ = some result
    rw [← hid, (saved_fresh h haccounts (hid ▸ hnew)).1]
    cases hresult : outcome.result with
    | none =>
      rw [hresult] at hshows
      rcases hshows.1 with hstate | hstate
      · simp [creationResponse, hstate, errorResponse]
      · simp [creationResponse, hstate, errorResponse]
    | some result =>
      rw [hresult] at hshows
      simp [creationResponse, hshows.1]

/-! ## What is answered -/

/-- A record of the job is written, or is still with the handler of its run. -/
def Holds (s : Server) (jobId : String) (record : JobRecord) : Prop :=
  s.state.jobs.get? jobId = some record ∨ record ∈ s.running ∧ record.jobId = jobId

omit [ReportRuntime] in
theorem known_iff {jobId : String} : s.Known jobId ↔ ∃ record, Holds s jobId record := by
  constructor
  · rintro (⟨record, hget⟩ | ⟨record, hmem, hid⟩)
    · exact ⟨record, Or.inl hget⟩
    · exact ⟨record, Or.inr ⟨hmem, hid⟩⟩
  · rintro ⟨record, hget | ⟨hmem, hid⟩⟩
    · exact Or.inl ⟨record, hget⟩
    · exact Or.inr ⟨record, hmem, hid⟩

omit [ReportRuntime] in
theorem Consistent.accounts (h : Consistent s) {jobId : String} {record : JobRecord} (hholds : Holds s jobId record) :
    record.jobId = jobId ∧ Accounts record (s.state.results.get? jobId) := by
  rcases hholds with hget | ⟨hmem, rfl⟩
  · exact h.jobs jobId record hget
  · exact ⟨rfl, (h.running record hmem).1⟩

omit [ReportRuntime] in
theorem Accounts.completed_iff {record : JobRecord} {result : Option LocalizationValidationResult} (h : Accounts record result) :
    record.state = .completed ↔ result ≠ none := by
  have hshows := h.shows
  cases result with
  | none => rcases hshows.1 with hstate | hstate <;> simp [hstate]
  | some result => exact ⟨fun _ => by simp, fun _ => hshows.1⟩

omit [ReportRuntime] in
/-- A result is stored as soon as a run of the job has completed, also while its record is not written. -/
theorem Consistent.stored_iff (h : Consistent s) (jobId : String) :
    s.state.results.get? jobId ≠ none ↔ ∃ record, Holds s jobId record ∧ record.state = .completed := by
  constructor
  · intro hstored
    obtain ⟨result, hget⟩ := Option.ne_none_iff_exists'.mp hstored
    obtain ⟨record, hholds⟩ := known_iff.mp (h.results jobId result hget)
    exact ⟨record, hholds, (h.accounts hholds).2.completed_iff.mpr hstored⟩
  · rintro ⟨record, hholds, hstate⟩
    exact (h.accounts hholds).2.completed_iff.mp hstate

theorem getResults_ok (state : ApiState) (jobId accept : String) :
    (getResults state jobId accept none).status = 200 ↔ state.results.get? jobId ≠ none := by
  unfold getResults loadResult
  cases state.results.get? jobId with
  | none => simp [notFound, errorResponse]
  | some result =>
    refine iff_of_true ?_ (Option.some_ne_none result)
    simp only
    split
    · rfl
    · rfl

theorem getReport_ok (state : ApiState) (jobId : String) :
    (getReport state jobId none).status = 200 ↔ state.results.get? jobId ≠ none := by
  unfold getReport loadResult
  cases state.results.get? jobId with
  | none => simp [notFound, errorResponse]
  | some result => simp

/-- In every order of events the reads of a job agree: its results and its report are there exactly
    when a run of it completed, with the counts its record shows, and when it is decided on. -/
theorem reach_answers (h : (apiMachine service).Reach Ok s) (jobId accept : String) :
    ((getResults s.state jobId accept none).status = 200 ↔ ∃ record, Holds s jobId record ∧ record.state = .completed) ∧
    ((getReport s.state jobId none).status = 200 ↔ (getResults s.state jobId accept none).status = 200) ∧
    (∀ record, s.state.jobs.get? jobId = some record →
      getComparison s.state jobId = ⟨200, .job (jobResponse record)⟩ ∧ Accounts record (s.state.results.get? jobId)) ∧
    ∀ row ∈ s.state.decisions, row.jobId = jobId →
      (getResults s.state jobId accept none).status = 200 ∧ Decided s.state.results row := by
  have hconsistent := reach_consistent h
  refine ⟨?_, ?_, fun record hget => ⟨?_, (hconsistent.jobs jobId record hget).2⟩, fun row hrow hjob => ?_⟩
  · rw [getResults_ok, hconsistent.stored_iff]
  · rw [getReport_ok, getResults_ok]
  · unfold getComparison
    rw [hget]
  · have hdecided := hconsistent.decisions row hrow
    refine ⟨(getResults_ok _ _ _).mpr ?_, hdecided⟩
    obtain ⟨-, -, -, result, -, hget, -⟩ := hdecided
    rw [← hjob, hget]
    exact Option.some_ne_none result

/-! ## Durability -/

/-- What the server has told of its jobs in one state still holds in another. -/
structure Keeps (s t : ApiState) : Prop where
  jobs : ∀ jobId record, s.jobs.get? jobId = some record → t.jobs.get? jobId = some record
  results : ∀ jobId result, s.results.get? jobId = some result → t.results.get? jobId = some result
  settled : ∀ jobId record, s.jobs.get? jobId = some record → s.results.get? jobId = none → t.results.get? jobId = none
  decisions : s.decisions <+: t.decisions

omit [ReportRuntime] in
theorem Keeps.refl (s : ApiState) : Keeps s s := ⟨fun _ _ h => h, fun _ _ h => h, fun _ _ _ h => h, List.prefix_refl _⟩

omit [ReportRuntime] in
theorem Keeps.trans {a b c : ApiState} (h : Keeps a b) (h' : Keeps b c) : Keeps a c where
  jobs _ _ hget := h'.jobs _ _ (h.jobs _ _ hget)
  results _ _ hget := h'.results _ _ (h.results _ _ hget)
  settled _ _ hjobs hnone := h'.settled _ _ (h.jobs _ _ hjobs) (h.settled _ _ hjobs hnone)
  decisions := h.decisions.trans h'.decisions

theorem keeps_next (h : Consistent s) {request : Request} (hpossible : (apiMachine service).Possible s request) :
    Keeps s.state ((apiMachine service).next s request).state := by
  cases request with
  | returns body context =>
    show Keeps s.state (s.returns service body context).state
    rcases @returns_cases _ service s body context with hsame | ⟨outcome, hid, haccounts, heq⟩
    · rw [hsame]
      exact .refl _
    · have hnew : ¬ s.Known outcome.record.jobId := hid ▸ hpossible
      obtain ⟨hjobs, hdecisions⟩ := saved_other s.state outcome
      have hother : ∀ jobId, s.Known jobId → (saved s.state outcome).results.get? jobId = s.state.results.get? jobId :=
        fun jobId hknown => (saved_fresh h haccounts hnew).2 jobId fun hjob => hnew (hjob ▸ hknown)
      rw [heq]
      refine ⟨fun jobId record hget => hjobs.symm ▸ hget, ?_, ?_, hdecisions.symm ▸ List.prefix_refl _⟩
      · exact fun jobId result hget => (hother jobId (h.results _ _ hget)).trans hget
      · exact fun jobId record hget hnone => (hother jobId (Or.inl ⟨record, hget⟩)).trans hnone
  | writes index =>
    show Keeps s.state (s.writes index).state
    unfold Server.writes
    cases hget : s.running[index]? with
    | none => exact .refl _
    | some record =>
      have hnone := (h.running record (List.mem_of_getElem? hget)).2
      refine ⟨fun jobId record' hjobs => ?_, fun _ _ hresult => hresult, fun _ _ _ hresult => hresult, List.prefix_refl _⟩
      rw [get_written, if_neg]
      · exact hjobs
      · rintro rfl
        rw [hnone] at hjobs
        cases hjobs
  | decides jobId body context =>
    show Keeps s.state (s.decides jobId body context).state
    rcases decides_cases s jobId body context with hsame | ⟨result, issue, decision, -, -, heq⟩
    · rw [hsame]
      exact .refl _
    · rw [heq]
      exact ⟨fun _ _ hget => hget, fun _ _ hget => hget, fun _ _ _ hnone => hnone, List.prefix_append _ _⟩

theorem path_keeps (h : Consistent s) (hpath : (apiMachine service).Path s t) : Keeps s.state t.state := by
  induction hpath with
  | refl s => exact .refl _
  | next hpossible _ ih => exact (keeps_next h hpossible).trans (ih (consistent_next h hpossible))

omit [ReportRuntime] in
/-- A stored result, or none of a job whose record is written, is still what is loaded. -/
theorem Keeps.result_eq {a b : ApiState} (h : Keeps a b) {jobId : String} {record : JobRecord}
    (hjobs : a.jobs.get? jobId = some record) : b.results.get? jobId = a.results.get? jobId := by
  cases hget : a.results.get? jobId with
  | none => exact h.settled jobId record hjobs hget
  | some result => exact h.results jobId result hget

/-- Whatever comes after, a job whose record is written is answered as before, and no decision is lost. -/
theorem path_stable (h : (apiMachine service).Reach Ok s) (hpath : (apiMachine service).Path s t) {jobId : String}
    {record : JobRecord} (hjobs : s.state.jobs.get? jobId = some record) :
    getComparison t.state jobId = getComparison s.state jobId ∧
      (∀ accept fault, getResults t.state jobId accept fault = getResults s.state jobId accept fault) ∧
      (∀ fault, getReport t.state jobId fault = getReport s.state jobId fault) ∧
      s.state.decisions <+: t.state.decisions := by
  have hkeeps := path_keeps (reach_consistent h) hpath
  have hload : ∀ fault, loadResult t.state jobId fault = loadResult s.state jobId fault := by
    intro fault
    unfold loadResult
    rw [hkeeps.result_eq hjobs]
  refine ⟨?_, fun accept fault => ?_, fun fault => ?_, hkeeps.decisions⟩
  · unfold getComparison
    rw [hkeeps.jobs _ _ hjobs, hjobs]
  · unfold getResults
    rw [hload]
  · unfold getReport
    rw [hload]

/-! ## What is recorded -/

omit [ReportRuntime] in
/-- A stored result is that of a run the server knows. -/
theorem Consistent.stored (h : Consistent s) {jobId : String} {result : LocalizationValidationResult}
    (hget : s.state.results.get? jobId = some result) : jobId ≠ "" ∧ result.jobId = jobId ∧
      (result.issues.map LocalizationIssue.issueId).Nodup := by
  obtain ⟨record, hholds⟩ := known_iff.mp (h.results jobId result hget)
  obtain ⟨hjob, haccounts⟩ := h.accounts hholds
  rw [hget] at haccounts
  obtain ⟨-, hid, -, -, -, -, hnodup⟩ := haccounts.shows
  exact ⟨hjob ▸ haccounts.jobId_ne, hid.trans hjob, hnodup⟩

omit [ReportRuntime] in
theorem find?_issue {issues : List LocalizationIssue} (hnodup : (issues.map LocalizationIssue.issueId).Nodup)
    {issue : LocalizationIssue} {issueId : String} :
    (issues.find? fun issue => issue.issueId = issueId) = some issue ↔ issue ∈ issues ∧ issue.issueId = issueId := by
  constructor
  · intro hfind
    exact ⟨List.mem_of_find?_eq_some hfind, by simpa using List.find?_some hfind⟩
  · intro hx
    cases hfind : issues.find? fun issue => issue.issueId = issueId with
    | none => exact absurd hx.2 (by simpa using List.find?_eq_none.mp hfind issue hx.1)
    | some found =>
      have hid : found.issueId = issueId := by simpa using List.find?_some hfind
      rw [List.inj_on_of_nodup_map hnodup (List.mem_of_find?_eq_some hfind) hx.1 (hid.trans hx.2.symm)]

/-- A decision is answered with 201 exactly when it is on an issue of a stored result, does not override
    a status with nothing or with itself, and no id repeats nor storage fails; its row is then added,
    with the engine's status, and otherwise the state stays as it is. -/
theorem addDecision_iff (h : (apiMachine service).Reach Ok s) (jobId : String) (body : DecisionRequest)
    (context : DecisionContext) :
    ((addDecision s.state jobId body context).2.status = 201 ↔
      (∃ result issue, s.state.results.get? jobId = some result ∧ issue ∈ result.issues ∧ issue.issueId = body.issueId ∧
          Replaces body issue.localizationStatus.value) ∧
        "decision-" ++ context.uuid ∉ s.state.decisions.map ReviewerDecisionRecord.decisionId ∧
        context.loadFault = none ∧ context.addFault = none) ∧
    ((addDecision s.state jobId body context).2.status = 201 →
      ∃ result issue decision, s.state.results.get? jobId = some result ∧ issue ∈ result.issues ∧
        Records decision jobId body context issue ∧ (addDecision s.state jobId body context).1 =
          { s.state with decisions := s.state.decisions ++ [(⟨context.now, decision⟩ : AddCall).record] }) ∧
    ((addDecision s.state jobId body context).2.status ≠ 201 → (addDecision s.state jobId body context).1 = s.state) := by
  have hconsistent := reach_consistent h
  by_cases hx : ∃ result issue, Accepted s.state jobId body context result issue
  · obtain ⟨result, issue, haccepted⟩ := hx
    obtain ⟨decision, hrecords, heq⟩ := addDecision_accepted haccepted
    have hissue := (find?_issue (hconsistent.stored haccepted.result_get).2.2).mp haccepted.issue_find
    rw [heq]
    refine ⟨⟨fun _ => ⟨⟨result, issue, haccepted.result_get, hissue.1, hissue.2, haccepted.replaces⟩, haccepted.fresh,
      haccepted.loads, haccepted.adds⟩, fun _ => rfl⟩, fun _ => ?_, fun hne => absurd rfl hne⟩
    exact ⟨result, issue, decision, haccepted.result_get, hissue.1, hrecords, rfl⟩
  · have hrefused := addDecision_refused fun result issue haccepted => hx ⟨result, issue, haccepted⟩
    refine ⟨⟨fun hstatus => absurd hstatus hrefused.2, fun hall => absurd ?_ hx⟩, fun hstatus => absurd hstatus hrefused.2,
      fun _ => hrefused.1⟩
    obtain ⟨⟨result, issue, hget, hmem, hid, hreplaces⟩, hfresh, hloads, hadds⟩ := hall
    obtain ⟨hne, hjob, hnodup⟩ := hconsistent.stored hget
    exact ⟨result, issue, hloads, hadds, hne, hget, hjob, (find?_issue hnodup).mpr ⟨hmem, hid⟩, hreplaces, hfresh⟩

end Handlers

/-! ## A missing topic, decided on -/

section Errata
open Reconciliation.Builders Reconciliation.Engine

/-- The engine answers for the job it was asked about. -/
theorem reconcile_jobId [PyRuntime] {command : ReconcileTreesCommand} {result : ReconciliationResult}
    (h : reconcile command = .ok result) : result.jobId = command.executionContext.jobId := by
  by_cases hadmitted : Admitted command
  · rw [reconcile_admitted hadmitted] at h
    unfold runStages at h
    simp only [Outcome.bind_ok, Outcome.pure_ok] at h
    obtain ⟨-, -, -, -, -, -, -, -, -, -, -, -, rfl⟩ := h
    rfl
  · rcases not_admitted_outcome hadmitted with ⟨error, hrun⟩ | ⟨diagnostics, hrun⟩
    · rw [hrun] at h
      cases h
    · rw [hrun] at h
      cases h
      rfl

theorem plainEngine_jobId (command : ReconcileTreesCommand) (result : ReconciliationResult)
    (h : plainEngine command = .ok result) : result.jobId = command.executionContext.jobId := by
  unfold plainEngine at h
  cases hrun : @reconcile asciiRuntime command with
  | error error =>
    rw [hrun] at h
    cases h
  | ok result' =>
    rw [hrun] at h
    cases h
    exact @reconcile_jobId asciiRuntime _ _ hrun

/-- One profile, which reads the source as a book of one topic and its translation as a book without. -/
def errataService : ComparisonService where
  registry := ⟨[("dita-map-v1", ⟨fun data _ _ => .ok (if data = "errata" then errataBook else bareBook), bookBundle⟩)], by
    decide⟩
  engine := plainEngine
  engine_jobId := plainEngine_jobId

def errataCreation : CreateComparisonRequest where
  sourceContent := "errata"
  localeContent := ""
  locale := "fr"
  locale_ne := french_ne

/-- The comparison is created, and its handler writes the record. -/
def errataCompared : Server := (@Server.returns tenthsRuntime errataService Server.init errataCreation ⟨"7", none⟩).writes 0

theorem firstIssue_ne : "issue-1" ≠ "" := by decide

def errataOverride : DecisionRequest where
  issueId := "issue-1"
  decision := .override
  overriddenStatus := some "EXEMPT_LOCALE_VARIATION"
  issueId_ne := firstIssue_ne

def errataReview : DecisionContext := ⟨"8", 1, 2, none, none⟩

def errataDecided : Server := @Server.decides tenthsRuntime errataCompared "job-7" errataOverride errataReview

abbrev errataMachine : Machine Server Request := @apiMachine tenthsRuntime errataService

theorem errataCompared_reach : errataMachine.Reach (fun _ _ => True) errataCompared := by
  have hnew : ¬ Server.init.Known "job-7" := by
    rintro (⟨record, hget⟩ | ⟨record, hmem, -⟩)
    · cases hget
    · cases hmem
  have hreturned : errataMachine.Reach (fun _ _ => True)
      (errataMachine.next Server.init (.returns errataCreation ⟨"7", none⟩)) := .next .start hnew trivial
  show errataMachine.Reach _ (errataMachine.next _ (.writes 0))
  exact .next hreturned trivial trivial

theorem errataDecided_reach : errataMachine.Reach (fun _ _ => True) errataDecided := by
  show errataMachine.Reach _ (errataMachine.next errataCompared (.decides "job-7" errataOverride errataReview))
  exact .next errataCompared_reach trivial trivial

theorem errataDecided_rows : errataDecided.state.decisions.map ReviewerDecisionRecord.decisionId = ["decision-8"] ∧
    (errataCompared.state.jobs.get? "job-7").map JobRecord.state = some .completed := by
  decide +kernel

/-- The job was decided on, so its results are there. -/
theorem errataDecided_answers : ∃ row ∈ errataDecided.state.decisions,
    (@getResults tenthsRuntime errataDecided.state row.jobId "" none).status = 200 ∧ Decided errataDecided.state.results row := by
  cases hdecisions : errataDecided.state.decisions with
  | nil =>
    have hrows := errataDecided_rows.1
    rw [hdecisions] at hrows
    cases hrows
  | cons row rows =>
    have hmem : row ∈ errataDecided.state.decisions := hdecisions ▸ List.mem_cons_self
    exact ⟨row, List.mem_cons_self, (@reach_answers tenthsRuntime _ _ _ errataDecided_reach row.jobId "").2.2.2 row hmem rfl⟩

/-- The decision does not show in what is answered about the job. -/
theorem errataDecided_stable : ∃ record, errataCompared.state.jobs.get? "job-7" = some record ∧
    @getComparison tenthsRuntime errataDecided.state "job-7" = @getComparison tenthsRuntime errataCompared.state "job-7" ∧
    (∀ accept fault, @getResults tenthsRuntime errataDecided.state "job-7" accept fault =
      @getResults tenthsRuntime errataCompared.state "job-7" accept fault) ∧
    (∀ fault, @getReport tenthsRuntime errataDecided.state "job-7" fault =
      @getReport tenthsRuntime errataCompared.state "job-7" fault) ∧
    errataCompared.state.decisions <+: errataDecided.state.decisions := by
  obtain ⟨record, hjobs, -⟩ := Option.map_eq_some_iff.mp errataDecided_rows.2
  have hpossible : errataMachine.Possible errataCompared (.decides "job-7" errataOverride errataReview) := trivial
  exact ⟨record, hjobs, @path_stable tenthsRuntime _ _ _ _ errataCompared_reach (.next hpossible (.refl _)) _ _ hjobs⟩

/-- The missing topic is called a variation of the locale. -/
theorem errataOverride_recorded :
    (@addDecision tenthsRuntime errataCompared.state "job-7" errataOverride errataReview).2.status = 201 ∧
    ∃ result issue decision, errataCompared.state.results.get? "job-7" = some result ∧ issue ∈ result.issues ∧
      Records decision "job-7" errataOverride errataReview issue ∧
      (@addDecision tenthsRuntime errataCompared.state "job-7" errataOverride errataReview).1 =
        { errataCompared.state with
          decisions := errataCompared.state.decisions ++ [(⟨errataReview.now, decision⟩ : AddCall).record] } := by
  have hstatus : (@addDecision tenthsRuntime errataCompared.state "job-7" errataOverride errataReview).2.status = 201 := by
    decide +kernel
  exact ⟨hstatus, (@addDecision_iff tenthsRuntime _ _ _ errataCompared_reach _ _ _).2.1 hstatus⟩

end Errata

end Reconciliation.Delivery
