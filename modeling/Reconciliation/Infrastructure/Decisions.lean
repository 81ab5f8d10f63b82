/-
  Reconciliation.Infrastructure.Decisions — reviewer decisions kept in a table and listed again.

  A decision is stored with the reading of the clock, and a job's decisions are listed by
  reading and then by id. Readings do not decrease, so the list is in the order of the adds
  exactly when, of two decisions of one job added at the same reading, the earlier has the
  smaller id (`keepsDecisions_iff`, `sameReading_reordered`). An add with a used id always
  fails and changes nothing. With the list in order, a report shows the decision on an issue
  that was added last. The stored payload is the decision itself.
-/
import Mathlib.Data.Prod.Lex
import Reconciliation.Builders
import Reconciliation.Jobs.Contracts
import Reconciliation.Reporting.Rows

namespace Reconciliation.Infrastructure

open Reconciliation.Base Reconciliation.Contracts Reconciliation.Localization Reconciliation.Reporting Reconciliation.Jobs
  Reconciliation.Builders

/-! ## Records -/

/-- A recorded decision; the report reads the part it extends. -/
structure RecordedDecision extends ReviewerDecision where
  decisionId : String
  jobId : String
  originalStatus : String
  reviewerId : Option String := none
  reason : Option String := none
  comment : Option String := none
  decidedAt : Int
  decisionId_ne : decisionId ≠ ""
  jobId_ne : jobId ≠ ""
  issueId_ne : issueId ≠ ""
  override_retains : decision = .override →
    overriddenStatus ≠ none ∧ overriddenStatus ≠ some "" ∧ overriddenStatus ≠ some originalStatus

/-- A row of the table; `payload` is the decision as JSON. -/
structure ReviewerDecisionRecord where
  decisionId : String
  jobId : String
  issueId : String
  payload : RecordedDecision
  createdAt : Int

/-- A call of `add`, and the reading of the clock it meets. -/
structure AddCall where
  now : Int
  decision : RecordedDecision

def AddCall.record (call : AddCall) : ReviewerDecisionRecord :=
  ⟨call.decision.decisionId, call.decision.jobId, call.decision.issueId, call.decision, call.now⟩

abbrev DecisionTable := List ReviewerDecisionRecord

section Repository

/-- `order_by(created_at, decision_id)`. -/
def orderKey (record : ReviewerDecisionRecord) : Int ×ₗ String := toLex (record.createdAt, record.decisionId)

def listForJob (table : DecisionTable) (jobId : String) : List RecordedDecision :=
  (sortedBy orderKey (table.filter fun record => record.jobId = jobId)).map ReviewerDecisionRecord.payload

variable [PyRuntime]

def add (table : DecisionTable) (call : AddCall) : Except RepositoryError DecisionTable :=
  if ∃ record ∈ table, record.decisionId = call.decision.decisionId then
    .error ⟨"reviewer decision " ++ pyReprStr call.decision.decisionId ++ " already exists"⟩
  else
    .ok (table ++ [call.record])

/-- The table after a call: one that fails leaves it as it was. -/
def afterAdd (table : DecisionTable) (call : AddCall) : DecisionTable :=
  match add table call with
  | .ok table => table
  | .error _ => table

def afterAdds (table : DecisionTable) (calls : List AddCall) : DecisionTable := calls.foldl afterAdd table

/-- The calls that succeed, in order. -/
def succeeded (table : DecisionTable) : List AddCall → List AddCall
  | [] => []
  | call :: calls =>
    match add table call with
    | .ok table => call :: succeeded table calls
    | .error _ => succeeded table calls

end Repository

/-! ## What is stored -/

/-- The calls whose ids are used for the first time. -/
def firstUses (used : List String) : List AddCall → List AddCall
  | [] => []
  | call :: calls =>
    if call.decision.decisionId ∈ used then firstUses used calls
    else call :: firstUses (used ++ [call.decision.decisionId]) calls

section FirstUses
variable {used : List String} {calls : List AddCall}

theorem firstUses_sublist : (firstUses used calls).Sublist calls := by
  induction calls generalizing used with
  | nil => exact .slnil
  | cons call calls ih =>
    unfold firstUses
    by_cases h : call.decision.decisionId ∈ used
    · rw [if_pos h]
      exact ih.cons call
    · rw [if_neg h]
      exact ih.cons_cons call

/-- No id is used twice, nor one that was used before. -/
theorem firstUses_fresh (used : List String) (calls : List AddCall) :
    ((firstUses used calls).map fun c => c.decision.decisionId).Nodup ∧
      ∀ c ∈ firstUses used calls, c.decision.decisionId ∉ used := by
  induction calls generalizing used with
  | nil => simp [firstUses]
  | cons call calls ih =>
    unfold firstUses
    by_cases h : call.decision.decisionId ∈ used
    · rw [if_pos h]
      exact ih used
    · rw [if_neg h]
      obtain ⟨hnodup, hfresh⟩ := ih (used ++ [call.decision.decisionId])
      refine ⟨?_, ?_⟩
      · rw [List.map_cons, List.nodup_cons]
        refine ⟨fun hmem => ?_, hnodup⟩
        obtain ⟨c, hc, heq⟩ := List.mem_map.mp hmem
        exact hfresh c hc (by simp [heq])
      · intro c hc hused
        rcases List.mem_cons.mp hc with rfl | hc
        · exact h hused
        · exact hfresh c hc (List.mem_append_left _ hused)

/-- Every id that is used is used for the first time. -/
theorem mem_ids_firstUses (used : List String) (calls : List AddCall) (id : String) :
    id ∈ used ∨ id ∈ (firstUses used calls).map (fun c => c.decision.decisionId) ↔
      id ∈ used ∨ id ∈ calls.map fun c => c.decision.decisionId := by
  induction calls generalizing used with
  | nil => rfl
  | cons call calls ih =>
    unfold firstUses
    by_cases h : call.decision.decisionId ∈ used
    · rw [if_pos h, ih used, List.map_cons, List.mem_cons]
      by_cases hid : id = call.decision.decisionId
      · simp [hid, h]
      · simp [hid]
    · have := ih (used ++ [call.decision.decisionId])
      rw [if_neg h, List.map_cons, List.map_cons, List.mem_cons, List.mem_cons]
      simp only [List.mem_append, List.mem_singleton] at this
      tauto

end FirstUses

section Table
variable [PyRuntime] {table : DecisionTable} {call : AddCall} {calls : List AddCall}

/-- An add fails exactly on a used id. -/
theorem add_cases (table : DecisionTable) (call : AddCall) :
    (call.decision.decisionId ∈ table.map ReviewerDecisionRecord.decisionId ∧ (∃ e, add table call = .error e) ∧
        afterAdd table call = table) ∨
      (call.decision.decisionId ∉ table.map ReviewerDecisionRecord.decisionId ∧
        add table call = .ok (table ++ [call.record]) ∧ afterAdd table call = table ++ [call.record]) := by
  have hused : (∃ record ∈ table, record.decisionId = call.decision.decisionId) ↔
      call.decision.decisionId ∈ table.map ReviewerDecisionRecord.decisionId := by simp
  unfold afterAdd add
  by_cases h : ∃ record ∈ table, record.decisionId = call.decision.decisionId
  · rw [if_pos h]
    exact Or.inl ⟨hused.mp h, ⟨_, rfl⟩, rfl⟩
  · rw [if_neg h]
    exact Or.inr ⟨fun hin => h (hused.mpr hin), rfl, rfl⟩

/-- The calls that succeed are the first uses of their ids, and the table holds their records. -/
theorem afterAdds_eq (table : DecisionTable) (calls : List AddCall) :
    succeeded table calls = firstUses (table.map ReviewerDecisionRecord.decisionId) calls ∧
      afterAdds table calls =
        table ++ (firstUses (table.map ReviewerDecisionRecord.decisionId) calls).map AddCall.record := by
  induction calls generalizing table with
  | nil => simp [succeeded, firstUses, afterAdds]
  | cons call calls ih =>
    unfold succeeded firstUses afterAdds
    rw [List.foldl_cons]
    rcases add_cases table call with ⟨hused, ⟨e, hfail⟩, hkept⟩ | ⟨hfresh, hadd, hnow⟩
    · rw [if_pos hused, hkept, hfail]
      exact ih table
    · obtain ⟨hsucceeded, htable⟩ := ih (table ++ [call.record])
      have hids : (table ++ [call.record]).map ReviewerDecisionRecord.decisionId =
          table.map ReviewerDecisionRecord.decisionId ++ [call.decision.decisionId] := by simp [AddCall.record]
      rw [hids] at hsucceeded htable
      rw [if_neg hfresh, hnow, hadd]
      refine ⟨congrArg (call :: ·) hsucceeded, ?_⟩
      show afterAdds (table ++ [call.record]) calls = _
      rw [htable, List.map_cons, List.append_assoc, List.singleton_append]

end Table

/-! ## What is listed -/

/-- The promise: decisions are kept in order, and the report shows the latest. -/
structure KeepsDecisions [PyRuntime] (calls : List AddCall) : Prop where
  /-- (1) a job's list is the decisions whose add succeeded, in the order of the adds -/
  listed : ∀ jobId, listForJob (afterAdds [] calls) jobId =
    ((succeeded [] calls).filter fun c => c.decision.jobId = jobId).map AddCall.decision
  /-- (2) an add with a used id fails and leaves the table as it was; any other succeeds -/
  rejected : ∀ before call after, calls = before ++ call :: after →
    (∃ c ∈ before, c.decision.decisionId = call.decision.decisionId) →
      (∃ e, add (afterAdds [] before) call = .error e) ∧ afterAdd (afterAdds [] before) call = afterAdds [] before
  accepted : ∀ before call after, calls = before ++ call :: after →
    (∀ c ∈ before, c.decision.decisionId ≠ call.decision.decisionId) →
      ∃ table, add (afterAdds [] before) call = .ok table
  /-- (3) a report built with the list shows, for an issue, the decision added last -/
  reported : ∀ jobId result sourceTree localeTree options (i : Nat) (issue : LocalizationIssue), result.issues[i]? = some issue →
    ∃ row, (buildReportTable result sourceTree localeTree options
        ((listForJob (afterAdds [] calls) jobId).map RecordedDecision.toReviewerDecision)).rows[i]? = some row ∧
      row.reviewerDecision = (((succeeded [] calls).filter fun c =>
        c.decision.jobId = jobId ∧ c.decision.issueId = issue.issueId).getLast?).map
          fun c => decisionCell c.decision.toReviewerDecision

/-- Of two decisions of one job added at the same reading, the earlier has the smaller id. -/
def TiesInIdOrder (calls : List AddCall) : Prop :=
  (firstUses [] calls).Pairwise fun a b =>
    a.decision.jobId = b.decision.jobId → a.now = b.now → a.decision.decisionId < b.decision.decisionId

section Listed
variable {calls : List AddCall}

/-- A list is sorted as it stands exactly when its keys do not decrease. -/
theorem sortedBy_eq_self_iff {α κ : Type} [LinearOrder κ] (key : α → κ) {l : List α} :
    sortedBy key l = l ↔ l.Pairwise fun a b => key a ≤ key b := by
  constructor
  · intro h
    have := pairwise_sortedBy key l
    rwa [h] at this
  · exact fun h => List.Pairwise.insertionSort_eq h

/-- A mapped list tells the list, if the map tells its elements. -/
theorem eq_of_map_eq {α β : Type} {f : α → β} {l l' : List α} (hinj : ∀ a ∈ l, ∀ b ∈ l', f a = f b → a = b)
    (h : l.map f = l'.map f) : l = l' := by
  induction l generalizing l' with
  | nil => simpa using h.symm
  | cons a l ih =>
    cases l' with
    | nil => simp at h
    | cons b l' =>
      obtain ⟨hab, hrest⟩ := List.cons.inj h
      rw [hinj a (by simp) b (by simp) hab, ih (fun x hx y hy => hinj x (by simp [hx]) y (by simp [hy])) hrest]

theorem orderKey_le {a b : AddCall} : orderKey a.record ≤ orderKey b.record ↔
    a.now < b.now ∨ a.now = b.now ∧ a.decision.decisionId ≤ b.decision.decisionId := Prod.Lex.toLex_le_toLex

/-- The list of a job whose records are in order is the list of its decisions as they were added. -/
theorem listForJob_iff {records : List AddCall} (hnodup : (records.map fun c => c.decision.decisionId).Nodup) (jobId : String) :
    listForJob (records.map AddCall.record) jobId =
        (records.filter fun c => c.decision.jobId = jobId).map AddCall.decision ↔
      (records.filter fun c => c.decision.jobId = jobId).Pairwise fun a b => orderKey a.record ≤ orderKey b.record := by
  have hfilter : (records.map AddCall.record).filter (fun record => record.jobId = jobId) =
      (records.filter fun c => c.decision.jobId = jobId).map AddCall.record := by
    rw [List.filter_map]
    rfl
  have hpayload : (records.filter fun c => c.decision.jobId = jobId).map AddCall.decision =
      ((records.filter fun c => c.decision.jobId = jobId).map AddCall.record).map ReviewerDecisionRecord.payload := by
    rw [List.map_map]
    rfl
  have hinj : ∀ a ∈ records, ∀ b ∈ records, a.record.payload = b.record.payload → a.record = b.record := by
    intro a ha b hb hab
    have : a = b := List.inj_on_of_nodup_map hnodup ha hb (congrArg RecordedDecision.decisionId hab)
    rw [this]
  have hsorted : ((records.filter fun c => c.decision.jobId = jobId).Pairwise fun a b =>
        orderKey a.record ≤ orderKey b.record) ↔
      sortedBy orderKey ((records.filter fun c => c.decision.jobId = jobId).map AddCall.record) =
        (records.filter fun c => c.decision.jobId = jobId).map AddCall.record := by
    rw [sortedBy_eq_self_iff, List.pairwise_map]
  unfold listForJob
  rw [hfilter, hpayload, hsorted]
  constructor
  · intro h
    refine eq_of_map_eq ?_ h
    intro r hr r' hr' heq
    obtain ⟨a, ha, rfl⟩ := List.mem_map.mp ((mem_sortedBy _).mp hr)
    obtain ⟨b, hb, rfl⟩ := List.mem_map.mp hr'
    exact hinj a (List.mem_of_mem_filter ha) b (List.mem_of_mem_filter hb) heq
  · intro h
    rw [h]

/-- With readings that do not decrease, every job's records are in order exactly when ties are. -/
theorem ordered_iff (hclock : calls.Pairwise fun a b => a.now ≤ b.now) :
    (∀ jobId, ((firstUses [] calls).filter fun c => c.decision.jobId = jobId).Pairwise fun a b =>
        orderKey a.record ≤ orderKey b.record) ↔ TiesInIdOrder calls := by
  have hclock' : (firstUses [] calls).Pairwise fun a b => a.now ≤ b.now := hclock.sublist firstUses_sublist
  have hids : (firstUses [] calls).Pairwise fun a b => a.decision.decisionId ≠ b.decision.decisionId :=
    List.pairwise_map.mp (firstUses_fresh [] calls).1
  simp only [List.pairwise_filter, decide_eq_true_eq, orderKey_le]
  constructor
  · intro h
    refine List.pairwise_iff_forall_sublist.mpr fun {a b} hab hjob hnow => ?_
    have hle := List.pairwise_iff_forall_sublist.mp (h a.decision.jobId) hab rfl hjob.symm
    have hne := List.pairwise_iff_forall_sublist.mp hids hab
    rcases hle with hlt | ⟨-, hle⟩
    · exact absurd hnow (by omega)
    · exact lt_of_le_of_ne hle hne
  · intro h jobId
    refine List.pairwise_iff_forall_sublist.mpr fun {a b} hab ha hb => ?_
    have hle := List.pairwise_iff_forall_sublist.mp hclock' hab
    have htie := List.pairwise_iff_forall_sublist.mp h hab (ha.trans hb.symm)
    by_cases hnow : a.now = b.now
    · exact Or.inr ⟨hnow, (htie hnow).le⟩
    · exact Or.inl (by omega)

end Listed

/-! ## What is shown -/

/-- A key holds the value of its last pair. -/
theorem get?_ofPairs_last {κ ν : Type} [DecidableEq κ] (kvs : List (κ × ν)) (k : κ) :
    (Dict.ofPairs kvs).get? k = ((kvs.filter fun e => e.1 = k).getLast?).map Prod.snd := by
  induction kvs using List.reverseRecOn with
  | nil => rfl
  | append_singleton kvs e ih =>
    rw [Dict.get?_ofPairs_snoc, List.filter_append, ih]
    by_cases h : k = e.1
    · simp [h]
    · simp [h, Ne.symm h]

section Shown
variable [PyRuntime]

/-- A report shows for an issue the last of the decisions it is built with. -/
theorem reported_last (decisions : List RecordedDecision) (result : LocalizationValidationResult)
    (sourceTree localeTree : Option CanonicalTree) (options : ReportOptions) {i : Nat} {issue : LocalizationIssue}
    (hi : result.issues[i]? = some issue) :
    ∃ row, (buildReportTable result sourceTree localeTree options
        (decisions.map RecordedDecision.toReviewerDecision)).rows[i]? = some row ∧
      row.reviewerDecision = ((decisions.filter fun d => d.issueId = issue.issueId).getLast?).map fun d =>
        decisionCell d.toReviewerDecision := by
  have hlt : i < result.issues.length := (List.getElem?_eq_some_iff.mp hi).1
  have hget : ∀ options' decisionByIssue rest,
      (result.issues.map (issueRow result sourceTree localeTree options' decisionByIssue) ++ rest)[i]? =
        some (issueRow result sourceTree localeTree options' decisionByIssue issue) := by
    intro options' decisionByIssue rest
    rw [List.getElem?_append_left (by simpa using hlt), List.getElem?_map, hi]
    rfl
  refine ⟨_, hget _ _ _, ?_⟩
  show ((Dict.ofPairs _).get? issue.issueId).map decisionCell = _
  rw [get?_ofPairs_last, List.map_map, List.filter_map, List.getLast?_map, Option.map_map, Option.map_map]
  rfl

/-- The store keeps its promise on a history exactly when ties are added in id order. -/
theorem keepsDecisions_iff {calls : List AddCall} (hclock : calls.Pairwise fun a b => a.now ≤ b.now) :
    KeepsDecisions calls ↔ TiesInIdOrder calls := by
  have hcalls : ∀ calls, succeeded [] calls = firstUses [] calls ∧
      afterAdds [] calls = (firstUses [] calls).map AddCall.record := fun calls => by
    simpa using afterAdds_eq [] calls
  have hlisted : (∀ jobId, listForJob (afterAdds [] calls) jobId =
      ((succeeded [] calls).filter fun c => c.decision.jobId = jobId).map AddCall.decision) ↔ TiesInIdOrder calls := by
    rw [(hcalls calls).1, (hcalls calls).2, ← ordered_iff hclock]
    exact forall_congr' fun jobId => listForJob_iff (firstUses_fresh [] calls).1 jobId
  have hused : ∀ before (call : AddCall),
      call.decision.decisionId ∈ (afterAdds [] before).map ReviewerDecisionRecord.decisionId ↔
        ∃ c ∈ before, c.decision.decisionId = call.decision.decisionId := by
    intro before call
    have := mem_ids_firstUses [] before call.decision.decisionId
    rw [(hcalls before).2, List.map_map]
    simpa [Function.comp_def, AddCall.record] using this
  constructor
  · exact fun h => hlisted.mp h.listed
  · intro h
    have hlist := hlisted.mpr h
    refine ⟨hlist, ?_, ?_, ?_⟩
    · intro before call after _ hbefore
      rcases add_cases (afterAdds [] before) call with ⟨-, hfail, hkept⟩ | ⟨hfresh, -, -⟩
      · exact ⟨hfail, hkept⟩
      · exact absurd ((hused before call).mpr hbefore) hfresh
    · intro before call after _ hbefore
      rcases add_cases (afterAdds [] before) call with ⟨hin, -, -⟩ | ⟨-, hadd, -⟩
      · obtain ⟨c, hc, heq⟩ := (hused before call).mp hin
        exact absurd heq (hbefore c hc)
      · exact ⟨_, hadd⟩
    · intro jobId result sourceTree localeTree options i issue hi
      rw [hlist jobId]
      obtain ⟨row, hrow, hshown⟩ := reported_last
        (((succeeded [] calls).filter fun c => c.decision.jobId = jobId).map AddCall.decision) result sourceTree localeTree
        options hi
      refine ⟨row, hrow, hshown.trans ?_⟩
      rw [List.filter_map, List.getLast?_map, Option.map_map, List.filter_filter]
      simp only [Function.comp_def, Bool.decide_and, Bool.and_comm]

end Shown

/-! ## Decisions taken at once -/

/-- A decision on an issue of one job. -/
def reviewed (decisionId issueId : String) (decision : DecisionType) (hid : decisionId ≠ "" := by decide)
    (hissue : issueId ≠ "" := by decide) (hdecision : decision ≠ .override := by decide) : RecordedDecision where
  decisionId := decisionId
  jobId := "job-1"
  issueId := issueId
  decision := decision
  overriddenStatus := none
  originalStatus := "MISSING"
  decidedAt := 0
  decisionId_ne := hid
  jobId_ne := by decide
  issueId_ne := hissue
  override_retains := fun h => absurd h hdecision

instance (calls : List AddCall) : Decidable (TiesInIdOrder calls) := inferInstanceAs (Decidable (List.Pairwise _ _))

/-- Two decisions on an issue at one reading, a used id, and a third decision later. -/
def reviewHistory : List AddCall :=
  [⟨1, reviewed "d1" "issue-1" .reject⟩, ⟨1, reviewed "d2" "issue-1" .accept⟩, ⟨2, reviewed "d1" "issue-2" .defer⟩,
    ⟨3, reviewed "d0" "issue-1" .defer⟩]

theorem reviewHistory_kept : @KeepsDecisions asciiRuntime reviewHistory :=
  (@keepsDecisions_iff asciiRuntime reviewHistory (by decide +kernel)).mpr (by decide +kernel)

/-- An issue is rejected and then, at the same reading, accepted. -/
def sameReading : List AddCall := [⟨0, reviewed "d2" "issue-1" .reject⟩, ⟨0, reviewed "d1" "issue-1" .accept⟩]

/-- The decision added last is listed first, so the other one is shown. -/
theorem sameReading_reordered : (sameReading.Pairwise fun a b => a.now ≤ b.now) ∧
    (listForJob (@afterAdds asciiRuntime [] sameReading) "job-1").map RecordedDecision.decisionId = ["d1", "d2"] ∧
    ¬ @KeepsDecisions asciiRuntime sameReading := by
  have hlist : (listForJob (@afterAdds asciiRuntime [] sameReading) "job-1").map RecordedDecision.decisionId =
      ["d1", "d2"] := by decide +kernel
  have hadded : (((@succeeded asciiRuntime [] sameReading).filter fun c => c.decision.jobId = "job-1").map
      AddCall.decision).map RecordedDecision.decisionId = ["d2", "d1"] := by decide +kernel
  refine ⟨by decide +kernel, hlist, fun h => ?_⟩
  have := @KeepsDecisions.listed asciiRuntime _ h "job-1"
  rw [this, hadded] at hlist
  revert hlist
  decide

end Reconciliation.Infrastructure
