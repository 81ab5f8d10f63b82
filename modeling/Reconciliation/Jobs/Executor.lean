/-
  Reconciliation.Jobs.Executor — the threaded executor, whatever the order in which the runs
  it started come to an end.

  A submission writes a RUNNING record under its job id and starts an execution. An
  execution ends with the record its service run returned, written under the job id, or
  raises and writes nothing. Both take the lock, so they are the events of a machine, and a
  run of the machine is one interleaving. The size of the pool only makes an execution
  wait, so it is left out, and so is the shutdown.

  Nothing ties a record to the submission it belongs to. A job whose latest execution raises
  stays RUNNING, and an earlier execution of the same id that returns last leaves its own
  record. A job converges in every run where neither happens (`reach_converged`), and each
  event that lets one of them happen can be continued to a state where everything of the
  job has ended and it has not converged (`exists_not_converged`). With the runs of the
  service and ids that are not used twice, only a run that raises is in the way
  (`fresh_converged`).
-/
import Reconciliation.Base.Machine
import Reconciliation.Jobs.Outcomes

namespace Reconciliation.Jobs

open Reconciliation.Base Reconciliation.Contracts Reconciliation.Reporting

/-! ## The executor -/

inductive Progress where
  | pending
  | returned (record : JobRecord)
  | raised
  deriving DecidableEq

/-- A run of the service handed to the pool. -/
structure Execution where
  request : ComparisonRequest
  progress : Progress

/-- The futures are the positions of their executions. -/
structure ThreadedJobExecutor where
  records : Dict String JobRecord
  futures : Dict String Nat
  executions : List Execution

namespace ThreadedJobExecutor

def init : ThreadedJobExecutor := ⟨Dict.empty, Dict.empty, []⟩

def runningRecord (jobId : String) (request : ComparisonRequest) : JobRecord where
  jobId := jobId
  state := .running
  locale := some request.locale

def submit (s : ThreadedJobExecutor) (request : ComparisonRequest) (uuid : String) : ThreadedJobExecutor :=
  let jobId := jobIdFor request uuid
  { records := s.records.insert jobId (runningRecord jobId request)
    futures := s.futures.insert jobId s.executions.length
    executions := s.executions ++ [⟨{ request with jobId := some jobId }, .pending⟩] }

def progressOf : Option JobOutcome → Progress
  | none => .raised
  | some outcome => .returned outcome.record

/-- The record is written under the id it carries. -/
def recordsAfter (records : Dict String JobRecord) : Option JobOutcome → Dict String JobRecord
  | none => records
  | some outcome => records.insert outcome.record.jobId outcome.record

/-- `_execute`, as its service run returns, or raises (`none`). -/
def execute (s : ThreadedJobExecutor) (index : Nat) (run : Option JobOutcome) : ThreadedJobExecutor where
  records := recordsAfter s.records run
  futures := s.futures
  executions := s.executions.modify index fun e => { e with progress := progressOf run }

def get (s : ThreadedJobExecutor) (jobId : String) : Option JobRecord := s.records.get? jobId

inductive Waited where
  | blocks
  | raises
  | returns (record : Option JobRecord)

/-- `wait` once no other event comes between the end of the future and the record. -/
def wait (s : ThreadedJobExecutor) (jobId : String) : Waited :=
  match (s.futures.get? jobId).bind (s.executions[·]?) with
  | none => .returns (s.get jobId)
  | some e =>
    match e.progress with
    | .pending => .blocks
    | .raised => .raises
    | .returned _ => .returns (s.get jobId)

end ThreadedJobExecutor

open ThreadedJobExecutor

inductive Event where
  | submit (request : ComparisonRequest) (uuid : String)
  | ends (index : Nat) (run : Option JobOutcome)

/-- A pending execution may raise, or return any outcome for its job id. -/
def executorMachine : Machine ThreadedJobExecutor Event where
  start := init
  Possible s
    | .submit _ _ => True
    | .ends index run => ∃ e, s.executions[index]? = some e ∧ e.progress = .pending ∧
        ∀ outcome ∈ run, e.request.jobId = some outcome.record.jobId
  next s
    | .submit request uuid => s.submit request uuid
    | .ends index run => s.execute index run

/-! ## Convergence -/

/-- The most recent submission of a job id started this execution. -/
structure Latest (s : ThreadedJobExecutor) (jobId : String) (k : Nat) (e : Execution) : Prop where
  get : s.executions[k]? = some e
  jobId_eq : e.request.jobId = some jobId
  last : ∀ j e', k < j → s.executions[j]? = some e' → e'.request.jobId ≠ some jobId

/-- Once every execution of a job id has ended, its record is a terminal one, that of the most recent submission. -/
def Converged (jobId : String) (s : ThreadedJobExecutor) : Prop :=
  ∀ k e, Latest s jobId k e → (∀ e' ∈ s.executions, e'.request.jobId = some jobId → e'.progress ≠ .pending) →
    ∃ record, e.progress = .returned record ∧ record.isTerminal ∧ s.get jobId = some record

/-- The latest execution of the job returns a terminal record, and once it has, no other one
    returns a different record. -/
def Orderly (jobId : String) (s : ThreadedJobExecutor) : Event → Prop
  | .submit _ _ => True
  | .ends index run => ∀ k e, Latest s jobId k e →
      (index = k → ∃ outcome ∈ run, outcome.record.isTerminal) ∧
      (index ≠ k → ∀ outcome ∈ run, outcome.record.jobId = jobId →
        e.progress = .pending ∨ e.progress = .returned outcome.record)

/-! ## What an event does -/

section Events
variable {Ok : ThreadedJobExecutor → Event → Prop} {s : ThreadedJobExecutor} {jobId : String} {k : Nat} {e : Execution}

theorem reach_submit (h : executorMachine.Reach Ok s) {request : ComparisonRequest} {uuid : String}
    (hok : Ok s (.submit request uuid)) : executorMachine.Reach Ok (s.submit request uuid) :=
  show executorMachine.Reach Ok (executorMachine.next s (.submit request uuid)) from h.next trivial hok

theorem reach_execute (h : executorMachine.Reach Ok s) {index : Nat} {run : Option JobOutcome}
    (hpossible : executorMachine.Possible s (.ends index run)) (hok : Ok s (.ends index run)) :
    executorMachine.Reach Ok (s.execute index run) := h.next hpossible hok

/-- A job id with an execution has a latest one. -/
theorem exists_latest {i : Nat} (hget : s.executions[i]? = some e) (hjob : e.request.jobId = some jobId) :
    ∃ k e', i ≤ k ∧ Latest s jobId k e' := by
  induction hn : s.executions.length - i using Nat.strongRecOn generalizing i e with
  | ind n ih =>
    by_cases hlast : ∀ j e', i < j → s.executions[j]? = some e' → e'.request.jobId ≠ some jobId
    · exact ⟨i, e, le_refl i, hget, hjob, hlast⟩
    · push Not at hlast
      obtain ⟨j, e', hj, hget', hjob'⟩ := hlast
      have hlength : j < s.executions.length := (List.getElem?_eq_some_iff.mp hget').1
      obtain ⟨k, e'', hk, hlatest⟩ := ih (s.executions.length - j) (by omega) hget' hjob' rfl
      exact ⟨k, e'', by omega, hlatest⟩

theorem Latest.unique {k' : Nat} {e' : Execution} (h : Latest s jobId k e) (h' : Latest s jobId k' e') : k = k' ∧ e = e' := by
  have hk : k = k' := by
    rcases Nat.lt_trichotomy k k' with hlt | heq | hlt
    · exact absurd h'.jobId_eq (h.last k' e' hlt h'.get)
    · exact heq
    · exact absurd h.jobId_eq (h'.last k e hlt h.get)
  subst hk
  exact ⟨rfl, Option.some.inj (h.get.symm.trans h'.get)⟩

/-- After a submission, its own execution is the latest of its job id, and the others are as before. -/
theorem latest_submit {request : ComparisonRequest} {uuid : String} (h : Latest (s.submit request uuid) jobId k e) :
    (jobIdFor request uuid = jobId ∧ k = s.executions.length ∧ e.progress = .pending) ∨
      (jobIdFor request uuid ≠ jobId ∧ Latest s jobId k e) := by
  have hnew : (s.submit request uuid).executions[s.executions.length]? =
      some ⟨{ request with jobId := some (jobIdFor request uuid) }, .pending⟩ := List.getElem?_concat_length
  have hk : k < s.executions.length + 1 := by
    have hlength := (List.getElem?_eq_some_iff.mp h.get).1
    simpa [submit] using hlength
  by_cases hlast : k = s.executions.length
  · subst hlast
    have he := hnew.symm.trans h.get
    cases he
    exact Or.inl ⟨Option.some.inj h.jobId_eq, rfl, rfl⟩
  · have hlt : k < s.executions.length := by omega
    have hold : ∀ j, j < s.executions.length → (s.submit request uuid).executions[j]? = s.executions[j]? :=
      fun j hj => List.getElem?_append_left hj
    refine Or.inr ⟨fun hjob => h.last _ _ hlt hnew (congrArg some hjob), ⟨(hold k hlt).symm.trans h.get, h.jobId_eq, ?_⟩⟩
    intro j e' hj hget
    exact h.last j e' hj ((hold j (List.getElem?_eq_some_iff.mp hget).1).trans hget)

/-- An execution that ends stays where it is. -/
theorem latest_execute {index : Nat} {run : Option JobOutcome} {e' : Execution} :
    Latest (s.execute index run) jobId k e' ↔
      ∃ e, Latest s jobId k e ∧ e' = if index = k then { e with progress := progressOf run } else e := by
  have hget : ∀ j, (s.execute index run).executions[j]? =
      (s.executions[j]?).map fun e => if index = j then { e with progress := progressOf run } else e := by
    intro j
    show (s.executions.modify index fun e => { e with progress := progressOf run })[j]? = _
    rw [List.getElem?_modify]
    rfl
  have hjob : ∀ (j : Nat) (e : Execution),
      (if index = j then { e with progress := progressOf run } else e).request.jobId = e.request.jobId := by
    intro j e
    split
    · rfl
    · rfl
  constructor
  · intro h
    have hk := h.get
    rw [hget] at hk
    obtain ⟨e, he, rfl⟩ := Option.map_eq_some_iff.mp hk
    refine ⟨e, ⟨he, (hjob k e).symm.trans h.jobId_eq, fun j e' hj he' => ?_⟩, rfl⟩
    rw [← hjob j e']
    exact h.last j _ hj (by rw [hget, he', Option.map_some])
  · intro hx
    obtain ⟨e, h, rfl⟩ := hx
    refine ⟨by rw [hget, h.get, Option.map_some], (hjob k e).trans h.jobId_eq, fun j e' hj he' => ?_⟩
    rw [hget] at he'
    obtain ⟨e'', he'', rfl⟩ := Option.map_eq_some_iff.mp he'
    rw [hjob]
    exact h.last j e'' hj he''

theorem get_submit (request : ComparisonRequest) (uuid : String) :
    (s.submit request uuid).get jobId =
      if jobId = jobIdFor request uuid then some (runningRecord (jobIdFor request uuid) request) else s.get jobId :=
  Dict.get?_insert _ _ _ _

theorem get_returned (index : Nat) (outcome : JobOutcome) :
    (s.execute index (some outcome)).get jobId = if jobId = outcome.record.jobId then some outcome.record else s.get jobId :=
  Dict.get?_insert _ _ _ _

/-! ## Orderly runs -/

/-- The latest execution of the job is pending, or has returned the record that stands under its id. -/
def Settled (jobId : String) (s : ThreadedJobExecutor) : Prop :=
  ∀ k e, Latest s jobId k e → e.progress = .pending ∨
    ∃ record, e.progress = .returned record ∧ record.isTerminal ∧ s.get jobId = some record

theorem Settled.converged (h : Settled jobId s) : Converged jobId s := by
  intro k e hlatest hended
  rcases h k e hlatest with hpending | hreturned
  · exact absurd hpending (hended e (List.mem_of_getElem? hlatest.get) hlatest.jobId_eq)
  · exact hreturned

theorem settled_submit (h : Settled jobId s) (request : ComparisonRequest) (uuid : String) :
    Settled jobId (s.submit request uuid) := by
  intro k e hlatest
  rcases latest_submit hlatest with ⟨-, -, hpending⟩ | ⟨hne, hlatest⟩
  · exact Or.inl hpending
  · rw [get_submit, if_neg (Ne.symm hne)]
    exact h k e hlatest

theorem settled_execute (h : Settled jobId s) {index : Nat} {run : Option JobOutcome}
    (hpossible : executorMachine.Possible s (.ends index run)) (horderly : Orderly jobId s (.ends index run)) :
    Settled jobId (s.execute index run) := by
  intro k e' hlatest'
  obtain ⟨e, hlatest, rfl⟩ := latest_execute.mp hlatest'
  obtain ⟨hlast, hother⟩ := horderly k e hlatest
  by_cases hindex : index = k
  · -- the latest execution ends, with a terminal record of its own id
    subst hindex
    obtain ⟨outcome, houtcome, hterminal⟩ := hlast rfl
    obtain ⟨e₀, hget, -, hid⟩ := hpossible
    cases hlatest.get.symm.trans hget
    have hjob := Option.some.inj ((hid outcome houtcome).symm.trans hlatest.jobId_eq)
    cases houtcome
    rw [if_pos rfl]
    exact Or.inr ⟨outcome.record, rfl, hterminal, by rw [get_returned, if_pos hjob.symm]⟩
  · rw [if_neg hindex]
    refine (h k e hlatest).imp id fun hx => ?_
    obtain ⟨record, hrecord, hterminal, hstands⟩ := hx
    refine ⟨record, hrecord, hterminal, ?_⟩
    cases run with
    | none => exact hstands
    | some outcome =>
      rw [get_returned]
      split
      · -- another execution of the job: the latest one has returned this very record
        rename_i hjob
        rcases hother hindex outcome rfl hjob.symm with hpending | hsame
        · cases hpending.symm.trans hrecord
        · cases hsame.symm.trans hrecord
          rfl
      · exact hstands

/-- In a run whose events are all orderly for a job, the job is settled in every state. -/
theorem reach_settled (h : executorMachine.Reach (Orderly jobId) s) : Settled jobId s := by
  refine h.invariant ?_ ?_
  · intro k e hlatest
    cases hlatest.get
  · intro s event hsettled hpossible horderly
    cases event with
    | submit request uuid => exact settled_submit hsettled request uuid
    | ends index run => exact settled_execute hsettled hpossible horderly

/-- In a run whose events are all orderly for a job, the job has converged whenever all of it has ended. -/
theorem reach_converged (h : executorMachine.Reach (Orderly jobId) s) : Converged jobId s := (reach_settled h).converged

/-! ## Waiting for a job -/

/-- The future of a job id is that of its latest execution. -/
theorem reach_future (h : executorMachine.Reach Ok s) :
    ∀ k e, Latest s jobId k e → s.futures.get? jobId = some k := by
  refine h.invariant (I := fun s => ∀ k e, Latest s jobId k e → s.futures.get? jobId = some k) ?_ ?_
  · intro k e hlatest
    cases hlatest.get
  intro s event hfutures _ _
  cases event with
  | submit request uuid =>
    intro k e hlatest
    show (s.futures.insert (jobIdFor request uuid) s.executions.length).get? jobId = some k
    rw [Dict.get?_insert]
    rcases latest_submit hlatest with ⟨hjob, hk, -⟩ | ⟨hne, hlatest⟩
    · rw [if_pos hjob.symm, hk]
    · rw [if_neg (Ne.symm hne)]
      exact hfutures k e hlatest
  | ends index run =>
    intro k e' hlatest'
    obtain ⟨e, hlatest, -⟩ := latest_execute.mp hlatest'
    exact hfutures k e hlatest

/-- In an orderly run, waiting for a submitted job blocks, or gives the record of its latest
    execution, whether the earlier ones have ended or not. -/
theorem wait_orderly (h : executorMachine.Reach (Orderly jobId) s) (hmem : e ∈ s.executions)
    (hjob : e.request.jobId = some jobId) :
    ∃ k e', Latest s jobId k e' ∧ ((e'.progress = .pending ∧ s.wait jobId = .blocks) ∨
      ∃ record, e'.progress = .returned record ∧ record.isTerminal ∧ s.wait jobId = .returns (some record)) := by
  obtain ⟨i, hget⟩ := List.getElem?_of_mem hmem
  obtain ⟨k, e', -, hlatest⟩ := exists_latest hget hjob
  have hwait : s.wait jobId = match e'.progress with
      | .pending => .blocks
      | .raised => .raises
      | .returned _ => .returns (s.get jobId) := by
    unfold wait
    rw [reach_future h k e' hlatest, Option.bind_some, hlatest.get]
  refine ⟨k, e', hlatest, (reach_settled h k e' hlatest).imp (fun hpending => ⟨hpending, ?_⟩) fun hx => ?_⟩
  · rw [hwait, hpending]
  · obtain ⟨record, hrecord, hterminal, hstands⟩ := hx
    exact ⟨record, hrecord, hterminal, by rw [hwait, hrecord, hstands]⟩

/-! ## Events that are not orderly -/

def pendingCount (s : ThreadedJobExecutor) : Nat := s.executions.countP fun e => e.progress = .pending

/-- The latest execution of the job has ended, and its record does not stand or is none. -/
def Broken (jobId : String) (s : ThreadedJobExecutor) : Prop :=
  ∃ k e, Latest s jobId k e ∧ e.progress ≠ .pending ∧
    ∀ record, e.progress = .returned record → record.isTerminal → s.get jobId ≠ some record

/-- An event that is not orderly breaks its job. -/
theorem broken_of_not_orderly {event : Event} (hpossible : executorMachine.Possible s event)
    (h : ¬ Orderly jobId s event) : Broken jobId (executorMachine.next s event) := by
  cases event with
  | submit request uuid => exact absurd trivial h
  | ends index run =>
    simp only [Orderly, not_forall] at h
    obtain ⟨k, e, hlatest, hnot⟩ := h
    suffices hends : (if index = k then { e with progress := progressOf run } else e).progress ≠ .pending ∧
        ∀ record, (if index = k then { e with progress := progressOf run } else e).progress = .returned record →
          record.isTerminal → (s.execute index run).get jobId ≠ some record from
      ⟨k, _, latest_execute.mpr ⟨e, hlatest, rfl⟩, hends⟩
    by_cases hindex : index = k
    · -- the latest execution raises, or returns a record that is not terminal
      have hno : ∀ outcome ∈ run, ¬ outcome.record.isTerminal = true := by
        intro outcome houtcome hterminal
        exact hnot ⟨fun _ => ⟨outcome, houtcome, hterminal⟩, fun hne => absurd hindex hne⟩
      rw [if_pos hindex]
      cases run with
      | none => exact ⟨Progress.noConfusion, fun _ => Progress.noConfusion⟩
      | some outcome =>
        refine ⟨Progress.noConfusion, fun record hrecord hterminal => ?_⟩
        cases hrecord
        exact absurd hterminal (hno outcome rfl)
    · -- another execution of the job returns, after the latest one has ended otherwise
      rw [if_neg hindex]
      have hx : ∃ outcome ∈ run, outcome.record.jobId = jobId ∧ e.progress ≠ .pending ∧
          e.progress ≠ .returned outcome.record := by
        by_contra hno
        refine hnot ⟨fun heq => absurd heq hindex, fun _ outcome houtcome hjob => ?_⟩
        by_contra hor
        exact hno ⟨outcome, houtcome, hjob, fun hp => hor (Or.inl hp), fun hr => hor (Or.inr hr)⟩
      obtain ⟨outcome, houtcome, hjob, hpending, hdiffers⟩ := hx
      refine ⟨hpending, fun record hrecord _ hstands => hdiffers ?_⟩
      cases houtcome
      have hget : (s.execute index (some outcome)).get jobId = some outcome.record := by
        rw [get_returned, if_pos hjob.symm]
      rw [hrecord, Option.some.inj (hstands.symm.trans hget)]

theorem countP_modify_lt {α : Type} {p : α → Bool} {f : α → α} {l : List α} {i : Nat} {a : α} (hget : l[i]? = some a)
    (ha : p a = true) (hf : p (f a) = false) : (l.modify i f).countP p < l.countP p := by
  induction l generalizing i with
  | nil => simp at hget
  | cons b l ih =>
    cases i with
    | zero =>
      cases hget
      simp [ha, hf]
    | succ i =>
      have hlt := ih hget
      simp only [List.modify_succ_cons, List.countP_cons]
      omega

/-- A broken job stays so while the executions that are left raise. -/
theorem broken_raise (h : Broken jobId s) (hpending : pendingCount s ≠ 0) :
    ∃ event, executorMachine.Possible s event ∧ Broken jobId (executorMachine.next s event) ∧
      pendingCount (executorMachine.next s event) < pendingCount s := by
  obtain ⟨e₀, hmem, hp⟩ := List.countP_pos_iff.mp (Nat.pos_of_ne_zero hpending)
  obtain ⟨index, hget⟩ := List.getElem?_of_mem hmem
  have hp := of_decide_eq_true hp
  obtain ⟨k, e, hlatest, hended, hstands⟩ := h
  have hne : index ≠ k := by
    rintro rfl
    cases hlatest.get.symm.trans hget
    exact hended hp
  refine ⟨.ends index none, ⟨e₀, hget, hp, by simp⟩, ⟨k, _, latest_execute.mpr ⟨e, hlatest, rfl⟩, ?_⟩, ?_⟩
  · rw [if_neg hne]
    exact ⟨hended, hstands⟩
  · exact countP_modify_lt hget (decide_eq_true hp) rfl

/-- An event that is not orderly for a job can be continued until everything has ended and
    the job has not converged. -/
theorem exists_not_converged {event : Event} (hpossible : executorMachine.Possible s event) (h : ¬ Orderly jobId s event) :
    ∃ t, executorMachine.Path (executorMachine.next s event) t ∧ (∀ e ∈ t.executions, e.progress ≠ .pending) ∧
      ¬ Converged jobId t := by
  obtain ⟨t, hpath, hbroken, hzero⟩ := Machine.exists_path_end pendingCount (fun _ hb hp => broken_raise hb hp)
    (broken_of_not_orderly hpossible h)
  have hended : ∀ e ∈ t.executions, e.progress ≠ .pending := by
    intro e hmem hp
    exact absurd hzero (Nat.pos_iff_ne_zero.mp (List.countP_pos_iff.mpr ⟨e, hmem, decide_eq_true hp⟩))
  refine ⟨t, hpath, hended, fun hconverged => ?_⟩
  obtain ⟨k, e, hlatest, -, hstands⟩ := hbroken
  obtain ⟨record, hrecord, hterminal, hget⟩ := hconverged k e hlatest fun e' hmem _ => hended e' hmem
  exact hstands record hrecord hterminal hget

/-! ## Runs of the service -/

/-- The service's outcomes are terminal, under the id of their job. -/
theorem run_record [PyRuntime] {components : Components} {request : ComparisonRequest} {outcome : JobOutcome}
    (h : run components request = .ok outcome) :
    outcome.record.jobId = jobIdOf components request ∧ outcome.record.isTerminal := by
  rw [run_eq] at h
  cases hcourse : course components request with
  | unknownProfile =>
    rw [hcourse] at h
    cases h
    exact ⟨rfl, rfl⟩
  | adaptationFails error =>
    rw [hcourse] at h
    cases h
    exact ⟨rfl, rfl⟩
  | engineRaises error =>
    rw [hcourse] at h
    cases h
    exact ⟨rfl, rfl⟩
  | saveFails error =>
    rw [hcourse] at h
    cases h
    exact ⟨rfl, rfl⟩
  | finishes result sourceTree localeTree =>
    rw [hcourse] at h
    obtain ⟨artifacts, -, rfl⟩ := Outcome.map_ok.mp h
    exact ⟨rfl, rfl⟩

/-- The job ids of the executions, in the order they were submitted. -/
def submittedIds (s : ThreadedJobExecutor) : List (Option String) := s.executions.map fun e => e.request.jobId

theorem submittedIds_submit (request : ComparisonRequest) (uuid : String) :
    submittedIds (s.submit request uuid) = submittedIds s ++ [some (jobIdFor request uuid)] := by
  simp [submittedIds, submit]

theorem submittedIds_execute (index : Nat) (run : Option JobOutcome) :
    submittedIds (s.execute index run) = submittedIds s := by
  refine List.ext_getElem? fun j => ?_
  simp only [submittedIds, execute, List.getElem?_map, List.getElem?_modify]
  cases s.executions[j]? with
  | none => rfl
  | some e =>
    simp only [Option.map_some]
    split
    · rfl
    · rfl

theorem reach_submittedIds_ne (h : executorMachine.Reach Ok s) :
    ∀ id ∈ submittedIds s, ∃ jobId, id = some jobId ∧ jobId ≠ "" := by
  refine h.invariant (I := fun s => ∀ id ∈ submittedIds s, ∃ jobId, id = some jobId ∧ jobId ≠ "") ?_ ?_
  · intro id hid
    cases hid
  intro s event hids _ _
  cases event with
  | submit request uuid =>
    intro id hid
    rw [show submittedIds (executorMachine.next s (.submit request uuid)) = _ from submittedIds_submit request uuid] at hid
    rcases List.mem_append.mp hid with hold | hnew
    · exact hids id hold
    · exact ⟨_, List.mem_singleton.mp hnew, jobIdFor_ne request uuid⟩
  | ends index run =>
    rw [show submittedIds (executorMachine.next s (.ends index run)) = _ from submittedIds_execute index run]
    exact hids

/-- Whatever its components do, the service's run on the request of a pending execution may end it. -/
theorem service_possible [PyRuntime] (h : executorMachine.Reach Ok s)
    {index : Nat} (hget : s.executions[index]? = some e) (hpending : e.progress = .pending) (components : Components) :
    executorMachine.Possible s (.ends index (run components e.request).toOption) := by
  refine ⟨e, hget, hpending, fun outcome houtcome => ?_⟩
  obtain ⟨jobId, hid, hne⟩ := reach_submittedIds_ne h _ (List.mem_map.mpr ⟨e, List.mem_of_getElem? hget, rfl⟩)
  cases hrun : run components e.request with
  | error error =>
    rw [hrun] at houtcome
    cases houtcome
  | ok outcome' =>
    rw [hrun] at houtcome
    cases houtcome
    rw [(run_record hrun).1, jobIdOf, jobIdFor_given hid hne]
    exact hid

/-- A submission under an id of its own, or a run of the service that returns. -/
def Fresh [PyRuntime] (s : ThreadedJobExecutor) : Event → Prop
  | .submit request uuid => some (jobIdFor request uuid) ∉ submittedIds s
  | .ends index outcome => ∀ e, s.executions[index]? = some e →
      ∃ components returned, run components e.request = .ok returned ∧ outcome = some returned

theorem fresh_nodup [PyRuntime] (h : executorMachine.Reach Fresh s) : (submittedIds s).Nodup := by
  refine h.invariant (I := fun s => (submittedIds s).Nodup) ?_ ?_
  · exact List.nodup_nil
  intro s event hnodup _ hfresh
  cases event with
  | submit request uuid =>
    rw [show submittedIds (executorMachine.next s (.submit request uuid)) = _ from submittedIds_submit request uuid]
    exact List.nodup_append.mpr ⟨hnodup, List.nodup_singleton _, fun a ha b hb hab =>
      hfresh (List.mem_singleton.mp hb ▸ hab ▸ ha)⟩
  | ends index run =>
    rw [show submittedIds (executorMachine.next s (.ends index run)) = _ from submittedIds_execute index run]
    exact hnodup

/-- With ids that are not used twice and runs of the service that all return, every job converges. -/
theorem fresh_converged [PyRuntime] (h : executorMachine.Reach Fresh s) (jobId : String) : Converged jobId s := by
  refine reach_converged (h.weaken (fun s hs => fresh_nodup hs) ?_)
  intro s event hnodup hpossible hfresh
  cases event with
  | submit request uuid => trivial
  | ends index outcome =>
    intro k e hlatest
    obtain ⟨e₀, hget, -, hid⟩ := hpossible
    obtain ⟨components, returned, hrun, rfl⟩ := hfresh e₀ hget
    refine ⟨fun _ => ⟨returned, rfl, (run_record hrun).2⟩, fun hne outcome houtcome hjob => absurd ?_ hne⟩
    have hlt : index < (submittedIds s).length := by
      simpa [submittedIds] using (List.getElem?_eq_some_iff.mp hget).1
    refine (List.getElem?_inj hlt hnodup).mp ?_
    simp only [submittedIds, List.getElem?_map, hget, hlatest.get, Option.map_some, hlatest.jobId_eq]
    rw [hid outcome houtcome, hjob]

end Events

/-! ## A job submitted twice -/

section Nightly

/-- A nightly job under a profile nobody registered. -/
def nightlyRequest : ComparisonRequest :=
  { bookRequest with jobId := some "nightly", documentProfileId := "docbook", documentProfileId_ne := by decide }

/-- The same job once the profile is corrected. -/
def correctedRequest : ComparisonRequest := { bookRequest with jobId := some "nightly" }

def nightlyOutcome : JobOutcome :=
  rejected "nightly" nightlyRequest "UNSUPPORTED_CONTRACT" "unknown document profile 'docbook'"

def correctedOutcome : JobOutcome :=
  failed "nightly" correctedRequest "INVALID_TREE" "source tree is not valid"

theorem nightlyOutcomes_run : @run asciiRuntime (bookComponents refusingEngine templateless) nightlyRequest = .ok nightlyOutcome ∧
    @run asciiRuntime (bookComponents refusingEngine templateless) correctedRequest = .ok correctedOutcome := ⟨rfl, rfl⟩

def bothSubmitted : ThreadedJobExecutor := (init.submit nightlyRequest "1").submit correctedRequest "2"

theorem bothSubmitted_reach {Ok : ThreadedJobExecutor → Event → Prop} (h : ∀ s request uuid, Ok s (.submit request uuid)) :
    executorMachine.Reach Ok bothSubmitted :=
  reach_submit (reach_submit .start (h _ nightlyRequest "1")) (h _ correctedRequest "2")

theorem bothSubmitted_latest : Latest bothSubmitted "nightly" 1 ⟨correctedRequest, .pending⟩ where
  get := rfl
  jobId_eq := rfl
  last := by
    intro j e' hj hget
    have hlength : j < 2 := (List.getElem?_eq_some_iff.mp hget).1
    omega

/-- The corrected job ends last, and its record stands. -/
theorem nightly_converged :
    Converged "nightly" ((bothSubmitted.execute 0 (some nightlyOutcome)).execute 1 (some correctedOutcome)) := by
  have hsubmitted : executorMachine.Reach (Orderly "nightly") bothSubmitted := bothSubmitted_reach fun _ _ _ => trivial
  have hlatest : Latest (bothSubmitted.execute 0 (some nightlyOutcome)) "nightly" 1 ⟨correctedRequest, .pending⟩ :=
    latest_execute.mpr ⟨_, bothSubmitted_latest, rfl⟩
  refine reach_converged (reach_execute (reach_execute hsubmitted ?_ ?_) ?_ ?_)
  · exact ⟨_, rfl, rfl, fun outcome houtcome => by cases houtcome; rfl⟩
  · intro k e h
    obtain ⟨rfl, rfl⟩ := bothSubmitted_latest.unique h
    exact ⟨fun h => absurd h (by decide), fun _ _ _ _ => Or.inl rfl⟩
  · exact ⟨_, rfl, rfl, fun outcome houtcome => by cases houtcome; rfl⟩
  · intro k e h
    obtain ⟨rfl, rfl⟩ := hlatest.unique h
    exact ⟨fun _ => ⟨correctedOutcome, rfl, rfl⟩, fun h => absurd rfl h⟩

def overwritten : ThreadedJobExecutor := (bothSubmitted.execute 1 (some correctedOutcome)).execute 0 (some nightlyOutcome)

def stranded : ThreadedJobExecutor := (init.submit correctedRequest "1").execute 0 none

theorem overwritten_latest : Latest overwritten "nightly" 1 ⟨correctedRequest, .returned correctedOutcome.record⟩ :=
  latest_execute.mpr ⟨_, latest_execute.mpr ⟨_, bothSubmitted_latest, rfl⟩, rfl⟩

theorem stranded_latest : Latest stranded "nightly" 0 ⟨correctedRequest, .raised⟩ where
  get := rfl
  jobId_eq := rfl
  last := by
    intro j e' hj hget
    have hlength : j < 1 := (List.getElem?_eq_some_iff.mp hget).1
    omega

/-- The rejected job ends last and leaves its record, and a job whose only run raises stays RUNNING. -/
theorem nightly_diverged :
    (executorMachine.Reach (fun _ _ => True) overwritten ∧ (∀ e ∈ overwritten.executions, e.progress ≠ .pending) ∧
      overwritten.get "nightly" = some nightlyOutcome.record ∧ ¬ Converged "nightly" overwritten) ∧
    executorMachine.Reach (fun _ _ => True) stranded ∧ (∀ e ∈ stranded.executions, e.progress ≠ .pending) ∧
      stranded.get "nightly" = some (runningRecord "nightly" correctedRequest) ∧ ¬ Converged "nightly" stranded := by
  have hended : ∀ e ∈ overwritten.executions, e.progress ≠ .pending := by decide
  have hraised : ∀ e ∈ stranded.executions, e.progress ≠ .pending := by decide
  refine ⟨⟨?_, hended, rfl, fun hconverged => ?_⟩, ?_, hraised, rfl, fun hconverged => ?_⟩
  · refine reach_execute (reach_execute (bothSubmitted_reach fun _ _ _ => trivial) ?_ trivial) ?_ trivial
    · exact ⟨_, rfl, rfl, fun outcome houtcome => by cases houtcome; rfl⟩
    · exact ⟨_, rfl, rfl, fun outcome houtcome => by cases houtcome; rfl⟩
  · obtain ⟨record, hreturned, -, hget⟩ := hconverged 1 _ overwritten_latest fun e he _ => hended e he
    cases hreturned
    have hsame : nightlyOutcome.record = correctedOutcome.record := Option.some.inj hget
    exact absurd hsame (by decide)
  · refine reach_execute (reach_submit .start trivial) ?_ trivial
    exact ⟨_, rfl, rfl, by simp⟩
  · obtain ⟨record, hreturned, -⟩ := hconverged 0 _ stranded_latest fun e he _ => hraised e he
    cases hreturned

end Nightly

end Reconciliation.Jobs
