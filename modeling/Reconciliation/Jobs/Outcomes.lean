/-
  Reconciliation.Jobs.Outcomes — how a job ends, for every behaviour of its components.

  The course of a job is the first component that stops it, or the result it finishes with.
  An unknown profile or a failed adaptation is a rejection, a failed save a failure, and a
  job that finishes is completed and keeps its result (`run_eq`). Two things are not as the
  service documents them: an invalid tree or an invalid profile is a failure like any other
  error of the engine, and a renderer that raises takes the whole job with it. A job ends as
  documented exactly when neither happens (`run_asDocumented_iff`).
-/
import Reconciliation.Builders
import Reconciliation.Jobs.ComparisonJob

namespace Reconciliation.Jobs

open Reconciliation.Base Reconciliation.Contracts Reconciliation.Localization Reconciliation.Reporting

/-! ## Courses -/

inductive Course where
  | unknownProfile
  | adaptationFails (error : AdaptationError)
  | engineRaises (error : EngineError)
  | saveFails (error : RepositoryError)
  | finishes (result : LocalizationValidationResult) (sourceTree localeTree : CanonicalTree)

/-- The input was at fault: the tree or the profile is invalid. -/
def EngineError.Invalid (error : EngineError) : Prop :=
  error.errorClass = .invalidTree ∨ error.errorClass = .invalidProfile

section Run
variable [PyRuntime] (components : Components) (request : ComparisonRequest)

/-- The first component that stops the job, or the interpreted result once it is saved. -/
def course : Course :=
  match components.registry.get? request.documentProfileId with
  | none => .unknownProfile
  | some profile =>
    match adaptBoth components request profile with
    | .error error => .adaptationFails error
    | .ok (sourceTree, localeTree) =>
      match components.engine (commandOf components request profile.bundle sourceTree localeTree) with
      | .error error => .engineRaises error
      | .ok reconciliation =>
        let result := interpretation request reconciliation sourceTree localeTree
        match save components result with
        | .error error => .saveFails error
        | .ok () => .finishes result sourceTree localeTree

/-- The job as its course has it: everything but rendering ends in a record. -/
theorem run_eq : run components request =
    match course components request with
    | .unknownProfile =>
      .ok (rejected (jobIdOf components request) request "UNSUPPORTED_CONTRACT" (unknownProfileMessage request))
    | .adaptationFails error => .ok (rejected (jobIdOf components request) request error.code error.message)
    | .engineRaises error => .ok (failed (jobIdOf components request) request error.code error.message)
    | .saveFails error => .ok (failed (jobIdOf components request) request RepositoryError.code error.message)
    | .finishes result sourceTree localeTree =>
      (renderArtifacts components request result sourceTree localeTree).map
        (completed (jobIdOf components request) request result) := by
  unfold run course
  cases components.registry.get? request.documentProfileId with
  | none => rfl
  | some profile =>
    simp only
    cases adaptBoth components request profile with
    | error error => rfl
    | ok trees =>
      simp only
      cases components.engine (commandOf components request profile.bundle trees.1 trees.2) with
      | error error => rfl
      | ok reconciliation =>
        simp only [finish]
        cases save components (interpretation request reconciliation trees.1 trees.2) with
        | error error => rfl
        | ok _ => rfl

/-! ## What is documented -/

variable (result : LocalizationValidationResult) (sourceTree localeTree : CanonicalTree)

/-- The renderer of a position returns. -/
def Renders (index : Nat) (fmt : ReportFormat) (rendered : Rendered) : Prop :=
  renderOne (components.renderers index) fmt result (reportTable request result sourceTree localeTree) sourceTree localeTree =
    .ok rendered

/-- Neither the renderer nor the store fails on the artifact of a position, and this is what is recorded of it. -/
def Produced (index : Nat) (fmt : ReportFormat) (artifact : ArtifactSummary) : Prop :=
  ∃ rendered, Renders components request result sourceTree localeTree index fmt rendered ∧
    match components.artifacts with
    | none => artifact = ⟨fmt, rendered.name, rendered.mediaType, none, rendered.content.utf8ByteSize⟩
    | some write => ∃ ref, write index result.jobId rendered.name rendered.content rendered.mediaType = .ok ref ∧
      artifact = ⟨fmt, rendered.name, rendered.mediaType, some ref.location, ref.sizeBytes⟩

/-- There is a slot for each requested artifact, in order, and every artifact that could be produced is in its slot. -/
def Filled (artifacts : List ArtifactSummary) : Prop :=
  ∃ slots : List (Option ArtifactSummary), slots.length = request.reportFormats.length ∧ artifacts = slots.reduceOption ∧
    ∀ i fmt artifact, request.reportFormats[i]? = some fmt →
      Produced components request result sourceTree localeTree i fmt artifact → slots[i]? = some (some artifact)

/-- The outcome is the one the service documents. -/
structure AsDocumented (outcome : JobOutcome) : Prop where
  rejected_iff : outcome.record.state = .rejected ↔ course components request = .unknownProfile ∨
    (∃ error, course components request = .adaptationFails error) ∨
    ∃ error, course components request = .engineRaises error ∧ error.Invalid
  failed_iff : outcome.record.state = .failed ↔
    (∃ error, course components request = .engineRaises error ∧ ¬ error.Invalid) ∨
    ∃ error, course components request = .saveFails error
  completed : ∀ result sourceTree localeTree, course components request = .finishes result sourceTree localeTree →
    outcome.record.state = .completed ∧ outcome.result = some result ∧
      Filled components request result sourceTree localeTree outcome.record.artifacts

/-! ## Rendering -/

variable {components request result sourceTree localeTree}

/-- The job's artifacts are rendered exactly when every renderer returns. -/
theorem renderArtifacts_total_iff :
    (∃ artifacts, renderArtifacts components request result sourceTree localeTree = .ok artifacts) ↔
      ∀ i fmt, request.reportFormats[i]? = some fmt →
        ∃ rendered, Renders components request result sourceTree localeTree i fmt rendered := by
  constructor
  · intro hx i fmt hi
    obtain ⟨artifacts, h⟩ := hx
    have hmem : (fmt, i) ∈ request.reportFormats.zipIdx := List.mk_mem_zipIdx_iff_getElem?.mpr hi
    obtain ⟨artifact, -, ha⟩ := Outcome.right_of_mem_left (Outcome.mapM_ok.mp h) hmem
    obtain ⟨rendered, hr, -⟩ := Outcome.map_ok.mp ha
    exact ⟨rendered, hr⟩
  · intro hall
    refine Outcome.mapM_total fun e he => ?_
    obtain ⟨rendered, hr⟩ := hall e.2 e.1 (List.mk_mem_zipIdx_iff_getElem?.mp he)
    exact ⟨_, Outcome.map_ok.mpr ⟨rendered, hr, rfl⟩⟩

/-- What is stored of an artifact that could be produced. -/
theorem storeArtifact_of_produced {i : Nat} {fmt : ReportFormat} {artifact : ArtifactSummary}
    (h : Produced components request result sourceTree localeTree i fmt artifact) :
    renderArtifact components request result sourceTree localeTree (fmt, i) = .ok artifact := by
  obtain ⟨rendered, hr, hstore⟩ := h
  refine Outcome.map_ok.mpr ⟨rendered, hr, ?_⟩
  unfold storeArtifact
  cases hstores : components.artifacts with
  | none =>
    rw [hstores] at hstore
    exact hstore.symm
  | some write =>
    rw [hstores] at hstore
    obtain ⟨ref, href, rfl⟩ := hstore
    simp only [href]

omit [PyRuntime] in
theorem forall₂_getElem? {α β : Type} {R : α → β → Prop} {l : List α} {out : List β} (h : List.Forall₂ R l out) {i : Nat}
    {a : α} (ha : l[i]? = some a) : ∃ b, out[i]? = some b ∧ R a b := by
  induction h generalizing i with
  | nil => simp at ha
  | @cons c b _ _ hab _ ih =>
    cases i with
    | zero =>
      cases ha
      exact ⟨b, rfl, hab⟩
    | succ i => exact ih ha

/-- A failing store leaves the other artifacts as they are. -/
theorem renderArtifacts_filled {artifacts : List ArtifactSummary}
    (h : renderArtifacts components request result sourceTree localeTree = .ok artifacts) :
    Filled components request result sourceTree localeTree artifacts := by
  have hall := Outcome.mapM_ok.mp h
  refine ⟨artifacts.map some, ?_, ?_, ?_⟩
  · rw [List.length_map, ← hall.length_eq, List.length_zipIdx]
  · rw [List.reduceOption, List.filterMap_map, Function.id_comp, List.filterMap_some]
  · intro i fmt artifact hi hp
    have hentry : request.reportFormats.zipIdx[i]? = some (fmt, i) := by simp [hi]
    obtain ⟨artifact', hget, hrun⟩ := forall₂_getElem? hall hentry
    rw [storeArtifact_of_produced hp] at hrun
    cases hrun
    rw [List.getElem?_map, hget, Option.map_some]

/-! ## The outcome -/

/-- A job ends as documented exactly when the engine raises no error of an invalid tree or
    profile, and every requested renderer returns once the result is saved. -/
theorem run_asDocumented_iff :
    (∃ outcome, run components request = .ok outcome ∧ AsDocumented components request outcome) ↔
      (∀ error, course components request = .engineRaises error → ¬ error.Invalid) ∧
      ∀ result sourceTree localeTree, course components request = .finishes result sourceTree localeTree →
        ∀ i fmt, request.reportFormats[i]? = some fmt →
          ∃ rendered, Renders components request result sourceTree localeTree i fmt rendered := by
  rw [run_eq]
  constructor
  · intro hx
    obtain ⟨outcome, hrun, hdoc⟩ := hx
    refine ⟨fun error herror hinvalid => ?_, fun result sourceTree localeTree hfin => ?_⟩
    · have hstate := hdoc.rejected_iff.mpr (Or.inr (Or.inr ⟨error, herror, hinvalid⟩))
      rw [herror] at hrun
      cases hrun
      cases hstate
    · rw [hfin] at hrun
      obtain ⟨artifacts, hartifacts, -⟩ := Outcome.map_ok.mp hrun
      exact renderArtifacts_total_iff.mp ⟨artifacts, hartifacts⟩
  · intro hx
    obtain ⟨hvalid, hrenders⟩ := hx
    cases hcourse : course components request with
    | unknownProfile =>
      refine ⟨_, rfl, ⟨⟨fun _ => Or.inl hcourse, fun _ => rfl⟩, ?_, by simp [hcourse]⟩⟩
      simp [hcourse, rejected, stopped]
    | adaptationFails error =>
      refine ⟨_, rfl, ⟨⟨fun _ => Or.inr (Or.inl ⟨error, hcourse⟩), fun _ => rfl⟩, ?_, by simp [hcourse]⟩⟩
      simp [hcourse, rejected, stopped]
    | engineRaises error =>
      have herror := hvalid error hcourse
      refine ⟨_, rfl, ⟨?_, ⟨fun _ => Or.inl ⟨error, hcourse, herror⟩, fun _ => rfl⟩, by simp [hcourse]⟩⟩
      simp [hcourse, failed, stopped, herror]
    | saveFails error =>
      refine ⟨_, rfl, ⟨?_, ⟨fun _ => Or.inr ⟨error, hcourse⟩, fun _ => rfl⟩, by simp [hcourse]⟩⟩
      simp [hcourse, failed, stopped]
    | finishes result sourceTree localeTree =>
      obtain ⟨artifacts, hartifacts⟩ := renderArtifacts_total_iff.mpr (hrenders result sourceTree localeTree hcourse)
      refine ⟨_, Outcome.map_ok.mpr ⟨artifacts, hartifacts, rfl⟩, ⟨?_, ?_, ?_⟩⟩
      · simp [hcourse, Jobs.completed]
      · simp [hcourse, Jobs.completed]
      · intro result' sourceTree' localeTree' hcourse'
        cases hcourse.symm.trans hcourse'
        exact ⟨rfl, rfl, renderArtifacts_filled hartifacts⟩

end Run

/-! ## Two jobs that do not -/

section Book
open Reconciliation.Builders

def emptyBook : CanonicalTree := buildTree "book" [⟨"book", "map", none, [], []⟩]

def bookBundle : ProfileBundle :=
  ⟨defaultNormalizationProfile, defaultMatchingProfile, defaultAlignmentProfile, defaultOperationProfile,
    defaultSuppressionProfile⟩

/-- One profile, whose adapter reads every document as an empty book. -/
def bookComponents (engine : ReconcileTreesCommand → Except EngineError ReconciliationResult) (renderers : Renderers) :
    Components where
  registry := ⟨[("dita", ⟨fun _ _ _ => .ok emptyBook, bookBundle⟩)], by decide⟩
  engine := engine
  results := none
  renderers := fun _ => renderers
  artifacts := none
  uuid := "1"

def bookRequest : ComparisonRequest where
  sourceContent := ""
  localeContent := ""
  locale := "fr"
  documentProfileId := "dita"
  reportFormats := [.csv, .html]
  locale_ne := french_ne
  documentProfileId_ne := dita_ne
  policy_locale := no_policy_locale "fr"

/-- An engine that refuses the source tree. -/
def refusingEngine (_ : ReconcileTreesCommand) : Except EngineError ReconciliationResult :=
  .error ⟨.invalidTree, "INVALID_TREE", "source tree is not valid"⟩

/-- The package's engine, its errors left without their texts. -/
def plainEngine (command : ReconcileTreesCommand) : Except EngineError ReconciliationResult :=
  match @Engine.reconcile asciiRuntime command with
  | .ok result => .ok result
  | .error _ => .error ⟨.reconciliationError, "RECONCILIATION_ERROR", ""⟩

/-- Renderers of which only the HTML one raises. -/
def templateless : Renderers where
  csv _ := .ok ""
  json _ _ := .ok ""
  html _ _ _ := .error ⟨"template not found"⟩

theorem plainEngine_returns : Outcome.Returns (plainEngine (commandOf (bookComponents plainEngine templateless) bookRequest
    bookBundle emptyBook emptyBook)) fun _ => True := by
  decide +kernel

/-- A refused tree is recorded as a failure, and a renderer that raises leaves no outcome. -/
theorem bookJobs_undocumented :
    (∃ outcome, @run asciiRuntime (bookComponents refusingEngine templateless) bookRequest = .ok outcome ∧
      outcome.record.state = .failed ∧
      ∃ error, @course asciiRuntime (bookComponents refusingEngine templateless) bookRequest = .engineRaises error ∧
        error.Invalid) ∧
    ∃ error, @run asciiRuntime (bookComponents plainEngine templateless) bookRequest = .error error := by
  refine ⟨⟨_, rfl, rfl, _, rfl, Or.inl rfl⟩, ⟨"template not found"⟩, ?_⟩
  obtain ⟨result, hresult, -⟩ := plainEngine_returns
  unfold run
  show (match plainEngine (commandOf (bookComponents plainEngine templateless) bookRequest bookBundle emptyBook emptyBook) with
    | .error error => _
    | .ok reconciliation => _) = _
  rw [hresult]
  rfl

end Book

end Reconciliation.Jobs
