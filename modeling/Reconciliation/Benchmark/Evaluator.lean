/-
  Reconciliation.Benchmark.Evaluator — how a labelled corpus is judged.

  A case is run and judged by what it reports (`judge`); the judgements are added up, one score
  for each type of operation. What stands in the tally after any number of cases is a sum over
  them (`Tallied`), so the metrics do not depend on the order of the corpus
  (`evaluateQuality_perm`), and they are perfect exactly when each run reports what its case
  expects (`evaluateQuality_perfect_iff`).
-/
import Reconciliation.Benchmark.Runs
import Mathlib.Data.Finset.Sort

namespace Reconciliation.Benchmark

open Reconciliation.Base Reconciliation.Contracts Reconciliation.Matching Reconciliation.Engine Reconciliation.Adapters
  Reconciliation.Reports Reconciliation.Builders

/-! ## Contracts -/

structure ExpectedOperation where
  operationType : OperationType
  sourceIds : Finset String
  targetIds : Finset String
  deriving DecidableEq

structure LabeledCase where
  caseId : JobId
  sourceTree : CanonicalTree
  targetTree : CanonicalTree
  expectedOperations : List ExpectedOperation
  expectedMatches : List (String × String)

structure OperationScore where
  operationType : String
  truePositives : Nat
  falsePositives : Nat
  falseNegatives : Nat

/-- The share of the hits, or 1 when nothing was there to be hit. -/
def hitShare (hits misses : Nat) : ℚ := if hits + misses = 0 then 1 else hits / (hits + misses : Nat)

def OperationScore.precision (s : OperationScore) : ℚ := hitShare s.truePositives s.falsePositives

def OperationScore.recall (s : OperationScore) : ℚ := hitShare s.truePositives s.falseNegatives

structure QualityMetrics where
  casesEvaluated : Nat
  matchPrecision : ℚ
  matchRecall : ℚ
  operationScores : List OperationScore
  ambiguityRate : ℚ

/-! ## Judging a case -/

section Judging
variable [PyRuntime]

/-- The id of a node, or its reference. -/
def cid (tree : CanonicalTree) (ref : NodeRef) : Except PyError String := do
  let node ← tree.node ref
  match node.identityProperties.get? "id" with
  | none | some .none => return ref
  | some value => return value.pyStr

def hasId (tree : CanonicalTree) (ref : NodeRef) : Except PyError Bool := do
  let node ← tree.node ref
  return ((node.identityProperties.get? "id").map CanonicalValue.truthy).getD false

def predictedOperation (source target : CanonicalTree) (op : StructuralOperation) : Except PyError ExpectedOperation := do
  let sourceIds ← op.val.sourceNodeRefs.mapM (cid source)
  let targetIds ← op.val.targetNodeRefs.mapM (cid target)
  return ⟨op.val.type, sourceIds.toFinset, targetIds.toFinset⟩

def predictedOperations (result : ReconciliationResult) (source target : CanonicalTree) :
    Except PyError (Finset ExpectedOperation) := do
  let predicted ← (result.operations.operations.filter fun op => op.val.type ≠ .match_).mapM (predictedOperation source target)
  return predicted.toFinset

/-- The ids of a confirmed pair when both nodes have one. -/
def predictedMatch (source target : CanonicalTree) (c : MatchCandidate) : Except PyError (Option (String × String)) := do
  let sourceHas ← hasId source c.val.sourceNodeRef
  if sourceHas = false then return none else
  let targetHas ← hasId target c.val.targetNodeRef
  if targetHas = false then return none else
  let sourceId ← cid source c.val.sourceNodeRef
  let targetId ← cid target c.val.targetNodeRef
  return some (sourceId, targetId)

def predictedMatches (result : ReconciliationResult) (source target : CanonicalTree) :
    Except PyError (Finset (String × String)) := do
  let predicted ← result.matchGraph.confirmed.mapM (predictedMatch source target)
  return (predicted.filterMap id).toFinset

/-- What is counted of a case. -/
structure Judgement where
  predictedMatches : Finset (String × String)
  expectedMatches : Finset (String × String)
  predictedOps : Finset ExpectedOperation
  expectedOps : Finset ExpectedOperation
  totalSources : Nat
  ambiguousSources : Nat

/-- The counts of a case whose run predicts these matches and operations. -/
def LabeledCase.judgement (case : LabeledCase) (result : ReconciliationResult) (predictedMatches : Finset (String × String))
    (predictedOps : Finset ExpectedOperation) : Judgement where
  predictedMatches
  expectedMatches := case.expectedMatches.toFinset
  predictedOps
  expectedOps := case.expectedOperations.toFinset
  totalSources := (case.sourceTree.nodes.values.filter fun node => node.parentRef.any (· ≠ "")).length
  ambiguousSources := (result.matchGraph.ambiguous.map fun c => c.val.sourceNodeRef).toFinset.card

def judge (case : LabeledCase) : Except PyError Judgement := do
  let result ← reconcileTrees case.sourceTree case.targetTree case.caseId
  let matched ← predictedMatches result case.sourceTree case.targetTree
  let ops ← predictedOperations result case.sourceTree case.targetTree
  return case.judgement result matched ops

end Judging

/-! ## Adding up -/

structure Tally where
  matchTp : Nat
  matchFp : Nat
  matchFn : Nat
  scores : Dict String OperationScore
  ambiguousSources : Nat
  totalSources : Nat

def Tally.start : Tally := ⟨0, 0, 0, Dict.empty, 0, 0⟩

def ofType (ops : Finset ExpectedOperation) (type : String) : Finset ExpectedOperation :=
  ops.filter fun o => o.operationType.value = type

/-- The types that are predicted or expected. -/
def Judgement.types (j : Judgement) : Finset String := (j.predictedOps ∪ j.expectedOps).image fun o => o.operationType.value

def Judgement.scored (j : Judgement) (type : String) (s : OperationScore) : OperationScore :=
  let pred := ofType j.predictedOps type
  let exp := ofType j.expectedOps type
  { s with
    truePositives := s.truePositives + (pred ∩ exp).card
    falsePositives := s.falsePositives + (pred \ exp).card
    falseNegatives := s.falseNegatives + (exp \ pred).card }

/-- A type that has no score yet starts from none. -/
def Judgement.scoreType (j : Judgement) (scores : Dict String OperationScore) (type : String) : Dict String OperationScore :=
  scores.insert type (j.scored type ((scores.get? type).getD ⟨type, 0, 0, 0⟩))

/-- The types are gone through in some order; the scores do not depend on it. -/
def Tally.add (t : Tally) (j : Judgement) : Tally where
  matchTp := t.matchTp + (j.predictedMatches ∩ j.expectedMatches).card
  matchFp := t.matchFp + (j.predictedMatches \ j.expectedMatches).card
  matchFn := t.matchFn + (j.expectedMatches \ j.predictedMatches).card
  scores := (j.types.sort).foldl j.scoreType t.scores
  ambiguousSources := t.ambiguousSources + j.ambiguousSources
  totalSources := t.totalSources + j.totalSources

def Tally.metrics (t : Tally) (casesEvaluated : Nat) : QualityMetrics where
  casesEvaluated
  matchPrecision := hitShare t.matchTp t.matchFp
  matchRecall := hitShare t.matchTp t.matchFn
  operationScores := t.scores.sorted.values
  ambiguityRate := if t.totalSources = 0 then 0 else round6 (t.ambiguousSources / t.totalSources)

def evaluateQuality [PyRuntime] (cases : List LabeledCase) : Except PyError QualityMetrics := do
  let tally ← cases.foldlM (fun t case => do
    let j ← judge case
    return t.add j) Tally.start
  return tally.metrics cases.length

/-! ## Scores as sums -/

/-- The score of a type over judged cases. -/
def scoreOf (done : List Judgement) (type : String) : OperationScore where
  operationType := type
  truePositives := (done.map fun j => (ofType j.predictedOps type ∩ ofType j.expectedOps type).card).sum
  falsePositives := (done.map fun j => (ofType j.predictedOps type \ ofType j.expectedOps type).card).sum
  falseNegatives := (done.map fun j => (ofType j.expectedOps type \ ofType j.predictedOps type).card).sum

/-- What a tally holds after the cases judged so far. -/
structure Tallied (done : List Judgement) (t : Tally) : Prop where
  matchTp_eq : t.matchTp = (done.map fun j => (j.predictedMatches ∩ j.expectedMatches).card).sum
  matchFp_eq : t.matchFp = (done.map fun j => (j.predictedMatches \ j.expectedMatches).card).sum
  matchFn_eq : t.matchFn = (done.map fun j => (j.expectedMatches \ j.predictedMatches).card).sum
  scores_eq : ∀ type s, t.scores.get? type = some s ↔ (∃ j ∈ done, type ∈ j.types) ∧ s = scoreOf done type
  ambiguous_eq : t.ambiguousSources = (done.map Judgement.ambiguousSources).sum
  total_eq : t.totalSources = (done.map Judgement.totalSources).sum

theorem tallied_start : Tallied [] Tally.start where
  matchTp_eq := rfl
  matchFp_eq := rfl
  matchFn_eq := rfl
  scores_eq type s := by simp [Tally.start, Dict.get?_empty]
  ambiguous_eq := rfl
  total_eq := rfl

/-- Going through distinct types, each is scored once. -/
theorem get?_scoreTypes (j : Judgement) {types : List String} (hnodup : types.Nodup) (scores : Dict String OperationScore)
    (type : String) : (types.foldl j.scoreType scores).get? type =
      if type ∈ types then some (j.scored type ((scores.get? type).getD ⟨type, 0, 0, 0⟩)) else scores.get? type := by
  induction types generalizing scores with
  | nil => rfl
  | cons first rest ih =>
    obtain ⟨hfirst, hrest⟩ := List.nodup_cons.mp hnodup
    rw [List.foldl_cons, ih hrest, Judgement.scoreType, Dict.get?_insert]
    by_cases heq : type = first
    · subst heq
      simp [hfirst]
    · simp [heq]

theorem ofType_eq_empty {j : Judgement} {type : String} (h : type ∉ j.types) :
    ofType j.predictedOps type = ∅ ∧ ofType j.expectedOps type = ∅ := by
  have hno : ∀ o ∈ j.predictedOps ∪ j.expectedOps, ¬ o.operationType.value = type := fun o ho heq =>
    h (Finset.mem_image.mpr ⟨o, ho, heq⟩)
  exact ⟨Finset.filter_eq_empty_iff.mpr fun {o} ho => hno o (Finset.mem_union_left _ ho),
    Finset.filter_eq_empty_iff.mpr fun {o} ho => hno o (Finset.mem_union_right _ ho)⟩

theorem scoreOf_snoc (done : List Judgement) (j : Judgement) (type : String) :
    scoreOf (done ++ [j]) type = j.scored type (scoreOf done type) := by
  simp [scoreOf, Judgement.scored]

theorem scored_of_not_mem {j : Judgement} {type : String} (h : type ∉ j.types) (s : OperationScore) :
    j.scored type s = s := by
  obtain ⟨hpredicted, hexpected⟩ := ofType_eq_empty h
  simp [Judgement.scored, hpredicted, hexpected]

/-- A type that nothing was said about has no counts. -/
theorem scoreOf_none {done : List Judgement} {type : String} (h : ∀ j ∈ done, type ∉ j.types) :
    scoreOf done type = ⟨type, 0, 0, 0⟩ := by
  induction done using List.reverseRecOn with
  | nil => rfl
  | append_singleton done j ih =>
    rw [scoreOf_snoc, scored_of_not_mem (h j (by simp)), ih fun j hj => h j (by simp [hj])]

/-- A judgement is added to the sums. -/
theorem Tallied.add {done : List Judgement} {t : Tally} (h : Tallied done t) (j : Judgement) :
    Tallied (done ++ [j]) (t.add j) where
  matchTp_eq := by simp [Tally.add, h.matchTp_eq]
  matchFp_eq := by simp [Tally.add, h.matchFp_eq]
  matchFn_eq := by simp [Tally.add, h.matchFn_eq]
  ambiguous_eq := by simp [Tally.add, h.ambiguous_eq]
  total_eq := by simp [Tally.add, h.total_eq]
  scores_eq type s := by
    have hbefore : (t.scores.get? type).getD ⟨type, 0, 0, 0⟩ = scoreOf done type := by
      cases hget : t.scores.get? type with
      | some before => exact ((h.scores_eq type before).mp hget).2
      | none =>
        refine (scoreOf_none fun j hj htype => ?_).symm
        have hsome := (h.scores_eq type _).mpr ⟨⟨j, hj, htype⟩, rfl⟩
        rw [hget] at hsome
        cases hsome
    rw [Tally.add, get?_scoreTypes j (Finset.sort_nodup _ _), hbefore, ← scoreOf_snoc]
    by_cases htype : type ∈ j.types
    · simp [htype, eq_comm]
    · rw [if_neg (fun hin => htype ((Finset.mem_sort _).mp hin)), h.scores_eq, scoreOf_snoc, scored_of_not_mem htype]
      simp [htype]

theorem tallied (js : List Judgement) : Tallied js (js.foldl Tally.add Tally.start) := by
  induction js using List.reverseRecOn with
  | nil => exact tallied_start
  | append_singleton js j ih =>
    rw [List.foldl_append]
    exact ih.add j

/-- The tallies of the same sums give the same metrics. -/
theorem Tallied.metrics_eq {done done' : List Judgement} {t t' : Tally} (h : Tallied done t) (h' : Tallied done' t')
    (hperm : done.Perm done') (count : Nat) : t.metrics count = t'.metrics count := by
  have hscoreOf : ∀ type, scoreOf done type = scoreOf done' type := fun type => by
    simp only [scoreOf, (hperm.map _).sum_eq]
  have hscores : t.scores.sorted = t'.scores.sorted := by
    refine Dict.sorted_eq_of_perm ((List.perm_ext_iff_of_nodup (t.scores.nodup.of_map _) (t'.scores.nodup.of_map _)).mpr ?_)
    intro e
    rw [← Dict.get?_eq_some, ← Dict.get?_eq_some, h.scores_eq, h'.scores_eq, hscoreOf]
    simp only [hperm.mem_iff]
  unfold Tally.metrics
  rw [h.matchTp_eq, h.matchFp_eq, h.matchFn_eq, h.ambiguous_eq, h.total_eq, h'.matchTp_eq, h'.matchFp_eq, h'.matchFn_eq,
    h'.ambiguous_eq, h'.total_eq, hscores, (hperm.map _).sum_eq, (hperm.map _).sum_eq, (hperm.map _).sum_eq,
    (hperm.map _).sum_eq, (hperm.map _).sum_eq]

section Running
variable [PyRuntime]

theorem foldlM_judge (cases : List LabeledCase) (t t' : Tally) :
    cases.foldlM (fun t case => do
      let j ← judge case
      return t.add j) t = .ok t' ↔ ∃ js, List.Forall₂ (fun case j => judge case = .ok j) cases js ∧ js.foldl Tally.add t = t' := by
  induction cases generalizing t with
  | nil => simp
  | cons case rest ih =>
    rw [List.foldlM_cons]
    simp only [Outcome.bind_ok, Outcome.pure_ok, ih]
    constructor
    · intro h
      obtain ⟨_, ⟨j, hj, rfl⟩, js, hjs, hfold⟩ := h
      exact ⟨j :: js, .cons hj hjs, hfold⟩
    · intro h
      obtain ⟨_, hjs, hfold⟩ := h
      cases hjs with
      | @cons _ j _ js hj hjs => exact ⟨_, ⟨j, hj, rfl⟩, js, hjs, hfold⟩

/-- The metrics are those of the judgements. -/
theorem evaluateQuality_ok {cases : List LabeledCase} {m : QualityMetrics} : evaluateQuality cases = .ok m ↔
    ∃ js, List.Forall₂ (fun case j => judge case = .ok j) cases js ∧
      (js.foldl Tally.add Tally.start).metrics cases.length = m := by
  unfold evaluateQuality
  simp only [Outcome.bind_ok, Outcome.pure_ok, foldlM_judge]
  constructor
  · intro h
    obtain ⟨_, ⟨js, hjs, rfl⟩, hm⟩ := h
    exact ⟨js, hjs, hm⟩
  · intro h
    obtain ⟨js, hjs, hm⟩ := h
    exact ⟨_, ⟨js, hjs, rfl⟩, hm⟩

/-- The metrics do not depend on the order of the corpus, nor does it whether there are any. -/
theorem evaluateQuality_perm {cases cases' : List LabeledCase} (h : cases.Perm cases') :
    (evaluateQuality cases).toOption = (evaluateQuality cases').toOption := by
  have hone : ∀ {cases cases' : List LabeledCase} {m : QualityMetrics}, cases.Perm cases' →
      evaluateQuality cases = .ok m → evaluateQuality cases' = .ok m := by
    intro cases cases' m hperm hrun
    obtain ⟨js, hjs, hm⟩ := evaluateQuality_ok.mp hrun
    obtain ⟨js', hjs', hperm'⟩ := List.perm_comp_forall₂ hperm.symm hjs
    refine evaluateQuality_ok.mpr ⟨js', hjs', ?_⟩
    rw [(tallied js').metrics_eq (tallied js) hperm', hperm.symm.length_eq, hm]
  cases hrun : evaluateQuality cases with
  | ok m => rw [hone h hrun]
  | error e =>
    cases hrun' : evaluateQuality cases' with
    | ok m => cases hrun.symm.trans (hone h.symm hrun')
    | error e' => rfl

end Running

/-- A case about the reorganized book, whose labels miss some of the changes. -/
def bookCase (caseId : JobId) (expectedOperations : List ExpectedOperation) : LabeledCase :=
  ⟨caseId, reorganizedBook.sourceTree, reorganizedBook.targetTree, expectedOperations, [("i", "i"), ("s", "s")]⟩

theorem bookCases_swapped : let lost := bookCase ⟨"lost", by decide⟩ [⟨.delete, {"e"}, ∅⟩]
    let moved := bookCase ⟨"moved", by decide⟩ [⟨.move, {"u"}, {"u"}⟩]
    (@evaluateQuality asciiRuntime [lost, moved]).toOption = (@evaluateQuality asciiRuntime [moved, lost]).toOption :=
  @evaluateQuality_perm asciiRuntime _ _ (.swap _ _ [])

/-! ## Perfect metrics -/

structure Perfect (m : QualityMetrics) : Prop where
  noFalse : m.matchPrecision = 1
  noMissed : m.matchRecall = 1
  scores : ∀ s ∈ m.operationScores, s.precision = 1 ∧ s.recall = 1

theorem hitShare_eq_one {hits misses : Nat} : hitShare hits misses = 1 ↔ misses = 0 := by
  unfold hitShare
  split_ifs with hzero
  · exact ⟨fun _ => by omega, fun _ => rfl⟩
  · have hne : ((hits + misses : Nat) : ℚ) ≠ 0 := by exact_mod_cast hzero
    rw [div_eq_one_iff_eq hne]
    constructor
    · intro h
      have hnat : hits = hits + misses := by exact_mod_cast h
      omega
    · intro h
      rw [h, Nat.add_zero]

theorem sum_eq_zero {done : List Judgement} {f : Judgement → Nat} : (done.map f).sum = 0 ↔ ∀ j ∈ done, f j = 0 := by
  rw [List.sum_eq_zero_iff]
  simp

theorem card_sdiff_eq_zero {α : Type} [DecidableEq α] {s t : Finset α} : (s \ t).card = 0 ↔ s ⊆ t := by
  rw [Finset.card_eq_zero, Finset.sdiff_eq_empty_iff_subset]

/-- Where all types agree, the operations do. -/
theorem ofType_subset_iff {p q : Finset ExpectedOperation} : (∀ type, ofType p type ⊆ ofType q type) ↔ p ⊆ q := by
  constructor
  · intro h o ho
    have hin : o ∈ ofType p o.operationType.value := Finset.mem_filter.mpr ⟨ho, rfl⟩
    exact (Finset.mem_filter.mp (h _ hin)).1
  · intro h type o ho
    obtain ⟨hin, htype⟩ := Finset.mem_filter.mp ho
    exact Finset.mem_filter.mpr ⟨h hin, htype⟩

/-- A tally is perfect when each judgement has what was expected. -/
theorem Tallied.perfect_iff {done : List Judgement} {t : Tally} (h : Tallied done t) (count : Nat) :
    Perfect (t.metrics count) ↔
      ∀ j ∈ done, j.predictedMatches = j.expectedMatches ∧ j.predictedOps = j.expectedOps := by
  have hfalse : t.matchFp = 0 ↔ ∀ j ∈ done, j.predictedMatches ⊆ j.expectedMatches := by
    rw [h.matchFp_eq, sum_eq_zero]
    simp only [card_sdiff_eq_zero]
  have hmissed : t.matchFn = 0 ↔ ∀ j ∈ done, j.expectedMatches ⊆ j.predictedMatches := by
    rw [h.matchFn_eq, sum_eq_zero]
    simp only [card_sdiff_eq_zero]
  have hscore : ∀ type, ((scoreOf done type).precision = 1 ∧ (scoreOf done type).recall = 1) ↔
      ∀ j ∈ done, ofType j.predictedOps type ⊆ ofType j.expectedOps type ∧
        ofType j.expectedOps type ⊆ ofType j.predictedOps type := by
    intro type
    unfold OperationScore.precision OperationScore.recall
    rw [hitShare_eq_one, hitShare_eq_one]
    simp only [scoreOf, sum_eq_zero, card_sdiff_eq_zero, forall_and]
  -- a type without a score agrees everywhere
  have hscores : (∀ s ∈ (t.metrics count).operationScores, s.precision = 1 ∧ s.recall = 1) ↔
      ∀ type, (scoreOf done type).precision = 1 ∧ (scoreOf done type).recall = 1 := by
    constructor
    · intro hall type
      by_cases hsome : ∃ j ∈ done, type ∈ j.types
      · refine hall _ (List.mem_map.mpr ⟨(type, _), (Dict.mem_sorted _).mpr ?_, rfl⟩)
        exact (Dict.get?_eq_some _).mp ((h.scores_eq type _).mpr ⟨hsome, rfl⟩)
      · refine (hscore type).mpr fun j hj => ?_
        obtain ⟨hpredicted, hexpected⟩ := ofType_eq_empty fun htype => hsome ⟨j, hj, htype⟩
        simp [hpredicted, hexpected]
    · intro hall s hs
      obtain ⟨e, he, rfl⟩ := List.mem_map.mp hs
      obtain ⟨-, heq⟩ := (h.scores_eq e.1 e.2).mp ((Dict.get?_eq_some _).mpr ((Dict.mem_sorted _).mp he))
      rw [heq]
      exact hall e.1
  constructor
  · intro hperfect j hj
    have hops := fun type => (hscore type).mp (hscores.mp hperfect.scores type) j hj
    exact ⟨(hfalse.mp (hitShare_eq_one.mp hperfect.noFalse) j hj).antisymm
        (hmissed.mp (hitShare_eq_one.mp hperfect.noMissed) j hj),
      (ofType_subset_iff.mp fun type => (hops type).1).antisymm (ofType_subset_iff.mp fun type => (hops type).2)⟩
  · intro hall
    refine ⟨hitShare_eq_one.mpr (hfalse.mpr fun j hj => ?_), hitShare_eq_one.mpr (hmissed.mpr fun j hj => ?_),
      hscores.mpr fun type => (hscore type).mpr fun j hj => ?_⟩
    · rw [(hall j hj).1]
    · rw [(hall j hj).1]
    · rw [(hall j hj).2]
      exact ⟨subset_rfl, subset_rfl⟩

section Reports
variable [PyRuntime]

theorem judge_ok {case : LabeledCase} {j : Judgement} : judge case = .ok j ↔ ∃ result,
    reconcileTrees case.sourceTree case.targetTree case.caseId = .ok result ∧
      ∃ matched, predictedMatches result case.sourceTree case.targetTree = .ok matched ∧
        ∃ ops, predictedOperations result case.sourceTree case.targetTree = .ok ops ∧
          case.judgement result matched ops = j := by
  unfold judge
  simp only [Outcome.bind_ok, Outcome.pure_ok]

/-- What a case expects of its run. -/
def Met (case : LabeledCase) (result : ReconciliationResult) : Prop :=
  predictedMatches result case.sourceTree case.targetTree = .ok case.expectedMatches.toFinset ∧
    predictedOperations result case.sourceTree case.targetTree = .ok case.expectedOperations.toFinset

theorem met_iff {case : LabeledCase} :
    Outcome.Returns (reconcileTrees case.sourceTree case.targetTree case.caseId) (Met case) ↔
      Outcome.Returns (judge case) fun j => j.predictedMatches = j.expectedMatches ∧ j.predictedOps = j.expectedOps := by
  constructor
  · intro h
    obtain ⟨result, hrun, hmatches, hops⟩ := h
    exact ⟨case.judgement result _ _, judge_ok.mpr ⟨result, hrun, _, hmatches, _, hops, rfl⟩, rfl, rfl⟩
  · intro h
    obtain ⟨j, hj, hmatches, hops⟩ := h
    obtain ⟨result, hrun, matched, hmatched, ops, hpredicted, rfl⟩ := judge_ok.mp hj
    exact ⟨result, hrun, hmatched.trans (congrArg _ hmatches), hpredicted.trans (congrArg _ hops)⟩

theorem met_of_perfect {cases : List LabeledCase} (h : Outcome.Returns (evaluateQuality cases) Perfect)
    {case : LabeledCase} (hcase : case ∈ cases) :
    Outcome.Returns (reconcileTrees case.sourceTree case.targetTree case.caseId) (Met case) := by
  obtain ⟨m, hrun, hperfect⟩ := h
  obtain ⟨js, hjs, rfl⟩ := evaluateQuality_ok.mp hrun
  obtain ⟨j, hj, hjudge⟩ := Outcome.right_of_mem_left hjs hcase
  exact met_iff.mpr ⟨j, hjudge, ((tallied js).perfect_iff _).mp hperfect j hj⟩

theorem perfect_of_met {cases : List LabeledCase}
    (h : ∀ case ∈ cases, Outcome.Returns (reconcileTrees case.sourceTree case.targetTree case.caseId) (Met case)) :
    Outcome.Returns (evaluateQuality cases) Perfect := by
  have hjudged := fun case hcase => met_iff.mp (h case hcase)
  obtain ⟨js, hjs⟩ := Outcome.mapM_total fun case hcase => (hjudged case hcase).imp fun _ hj => hj.1
  refine ⟨_, evaluateQuality_ok.mpr ⟨js, Outcome.mapM_ok.mp hjs, rfl⟩, ((tallied js).perfect_iff _).mpr fun j hj => ?_⟩
  obtain ⟨case, hcase, hjudge⟩ := Outcome.left_of_mem_right (Outcome.mapM_ok.mp hjs) hj
  obtain ⟨j', hjudge', hmet⟩ := hjudged case hcase
  rwa [Except.ok.inj (hjudge.symm.trans hjudge')]

/-- The metrics of a corpus are perfect exactly when each of its runs reports the matches and the
    operations that its case expects. -/
theorem evaluateQuality_perfect_iff {cases : List LabeledCase} : Outcome.Returns (evaluateQuality cases) Perfect ↔
    ∀ case ∈ cases, Outcome.Returns (reconcileTrees case.sourceTree case.targetTree case.caseId) (Met case) := by
  constructor
  · intro h case hcase
    exact met_of_perfect h hcase
  · exact perfect_of_met

end Reports

/-! ## The edited trees -/

section Rows
variable [PyRuntime] {source target t : CanonicalTree} {n m : Nat} {a b name : Nat → String}

theorem cid_row (h : Row t n name) {i : Nat} (hi : i < n) : cid t (childRef "n" i) = .ok (name i) := by
  unfold cid CanonicalTree.node
  rw [h.fan.get_leaf i hi]
  rfl

omit [PyRuntime] in
theorem hasId_row (h : Row t n name) {i : Nat} (hi : i < n) : hasId t (childRef "n" i) = .ok true := by
  unfold hasId CanonicalTree.node
  rw [h.fan.get_leaf i hi]
  have htruthy : CanonicalValue.truthy (.str (name i)) = true := decide_eq_true (h.name_ne i)
  exact congrArg Except.ok htruthy

omit [PyRuntime] in
theorem hasId_root (h : Row t n name) : hasId t "n" = .ok false := by
  unfold hasId CanonicalTree.node
  rw [h.fan.get_root]
  rfl

/-- Only what an operation refers to decides what is predicted. -/
theorem predictedOperation_entry {op : StructuralOperation} {e : Entry} (h : entry op.val = e) :
    predictedOperation source target op = (do
      let sourceIds ← e.2.1.mapM (cid source)
      let targetIds ← e.2.2.mapM (cid target)
      return ⟨e.1, sourceIds.toFinset, targetIds.toFinset⟩) := by
  subst h
  rfl

theorem predicted_deleted (hs : Row source n a) {op : StructuralOperation} {i : Nat} (hi : i < n)
    (h : entry op.val = (.delete, [childRef "n" i], [])) :
    predictedOperation source target op = .ok ⟨.delete, {a i}, ∅⟩ := by
  rw [predictedOperation_entry h]
  simp [cid_row hs hi]

theorem predicted_inserted (ht : Row target m b) {op : StructuralOperation} {j : Nat} (hj : j < m)
    (h : entry op.val = (.insert, [], [childRef "n" j])) :
    predictedOperation source target op = .ok ⟨.insert, ∅, {b j}⟩ := by
  rw [predictedOperation_entry h]
  simp [cid_row ht hj]

variable (hs : Row source n a) (ht : Row target m b)

include hs ht

/-- What is predicted of two rows: the deleted and the inserted children, by their ids. -/
theorem predictedOperations_row {result : ReconciliationResult} (h : RowReport source target n m a b result) :
    Outcome.Returns (predictedOperations result source target) fun ops => ∀ o, o ∈ ops ↔
      (∃ i < n, (∀ j < m, a i ≠ b j) ∧ o = ⟨.delete, {a i}, ∅⟩) ∨ ∃ j < m, (∀ i < n, a i ≠ b j) ∧ o = ⟨.insert, ∅, {b j}⟩ := by
  have hcase : ∀ op ∈ result.operations.operations.filter (fun op => op.val.type ≠ .match_),
      (∃ i < n, (∀ j < m, a i ≠ b j) ∧ predictedOperation source target op = .ok ⟨.delete, {a i}, ∅⟩) ∨
      ∃ j < m, (∀ i < n, a i ≠ b j) ∧ predictedOperation source target op = .ok ⟨.insert, ∅, {b j}⟩ := by
    intro op hop
    obtain ⟨hin, htype⟩ := List.mem_filter.mp hop
    have hrow := (h.reported _).mp (List.mem_map_of_mem hin)
    generalize he : entry op.val = e at hrow
    cases hrow with
    | kept hi hj hid =>
      have hmatch : op.val.type = .match_ := congrArg (·.1) he
      simp [hmatch] at htype
    | @deleted i hi hno => exact Or.inl ⟨i, hi, hno, predicted_deleted hs hi he⟩
    | @inserted j hj hno => exact Or.inr ⟨j, hj, hno, predicted_inserted ht hj he⟩
  obtain ⟨predicted, hpredicted⟩ := Outcome.mapM_total fun op hop => by
    rcases hcase op hop with ⟨i, -, -, hi⟩ | ⟨j, -, -, hj⟩
    · exact ⟨_, hi⟩
    · exact ⟨_, hj⟩
  have hran := Outcome.mapM_ok.mp hpredicted
  refine ⟨predicted.toFinset, by rw [predictedOperations, hpredicted]; rfl, fun o => ?_⟩
  rw [List.mem_toFinset]
  constructor
  · intro ho
    obtain ⟨op, hop, hrun⟩ := Outcome.left_of_mem_right hran ho
    rcases hcase op hop with ⟨i, hi, hno, hdeleted⟩ | ⟨j, hj, hno, hinserted⟩
    · exact Or.inl ⟨i, hi, hno, Except.ok.inj (hrun.symm.trans hdeleted)⟩
    · exact Or.inr ⟨j, hj, hno, Except.ok.inj (hrun.symm.trans hinserted)⟩
  · intro ho
    have hreported : ∀ e, RowDifference n m a b e → e.1 ≠ .match_ → ∃ op, entry op.val = e ∧
        ∃ o ∈ predicted, predictedOperation source target op = .ok o := by
      intro e he htype
      obtain ⟨op, hop, rfl⟩ := List.mem_map.mp ((h.reported e).mpr he)
      have hkept : op ∈ result.operations.operations.filter fun op => op.val.type ≠ .match_ :=
        List.mem_filter.mpr ⟨hop, decide_eq_true htype⟩
      exact ⟨op, rfl, Outcome.right_of_mem_left hran hkept⟩
    rcases ho with ⟨i, hi, hno, rfl⟩ | ⟨j, hj, hno, rfl⟩
    · obtain ⟨op, he, o, hin, hrun⟩ := hreported _ (.deleted hi hno) (by simp)
      rwa [← Except.ok.inj (hrun.symm.trans (predicted_deleted hs hi he))]
    · obtain ⟨op, he, o, hin, hrun⟩ := hreported _ (.inserted hj hno) (by simp)
      rwa [← Except.ok.inj (hrun.symm.trans (predicted_inserted ht hj he))]

/-- The pairs of common ids are predicted to match; the roots have no ids. -/
theorem predictedMatches_row {result : ReconciliationResult} (h : RowReport source target n m a b result) :
    Outcome.Returns (predictedMatches result source target) fun matched => ∀ p, p ∈ matched ↔
      ∃ i < n, ∃ j < m, a i = b j ∧ p = (a i, b j) := by
  have hpair : ∀ (c : MatchCandidate), ∀ i < n, ∀ j < m, c.val.sourceNodeRef = childRef "n" i →
      c.val.targetNodeRef = childRef "n" j → predictedMatch source target c = .ok (some (a i, b j)) := by
    intro c i hi j hj hsource htarget
    unfold predictedMatch
    rw [hsource, htarget, hasId_row hs hi, hasId_row ht hj, cid_row hs hi, cid_row ht hj]
    rfl
  have hcase : ∀ c ∈ result.matchGraph.confirmed, predictedMatch source target c = .ok none ∨
      ∃ i < n, ∃ j < m, a i = b j ∧ predictedMatch source target c = .ok (some (a i, b j)) := by
    intro c hc
    obtain ⟨hin, hstate⟩ := List.mem_filter.mp hc
    rcases h.confirmed _ _ ⟨c, hin, by simpa using hstate, rfl, rfl⟩ with hst | ⟨hroot, -⟩
    · obtain ⟨i, hi, j, hj, hid, hsource, htarget⟩ := (sameId_row hs ht).mp hst
      exact Or.inr ⟨i, hi, j, hj, hid, hpair c i hi j hj hsource htarget⟩
    · refine Or.inl ?_
      unfold predictedMatch
      rw [hroot, hasId_root hs]
      rfl
  obtain ⟨predicted, hpredicted⟩ := Outcome.mapM_total fun c hc => by
    rcases hcase c hc with hnone | ⟨i, -, j, -, -, hsome⟩
    · exact ⟨_, hnone⟩
    · exact ⟨_, hsome⟩
  have hran := Outcome.mapM_ok.mp hpredicted
  refine ⟨(predicted.filterMap id).toFinset, by rw [predictedMatches, hpredicted]; rfl, fun p => ?_⟩
  rw [List.mem_toFinset, List.mem_filterMap]
  constructor
  · intro hp
    obtain ⟨_, ho, rfl⟩ := hp
    obtain ⟨c, hc, hrun⟩ := Outcome.left_of_mem_right hran ho
    rcases hcase c hc with hnone | ⟨i, hi, j, hj, hid, hsome⟩
    · cases hrun.symm.trans hnone
    · exact ⟨i, hi, j, hj, hid, Option.some.inj (Except.ok.inj (hrun.symm.trans hsome))⟩
  · intro hp
    obtain ⟨i, hi, j, hj, hid, rfl⟩ := hp
    obtain ⟨c, hin, hstate, hsource, htarget⟩ := h.matched _ _ ((sameId_row hs ht).mpr ⟨i, hi, j, hj, hid, rfl, rfl⟩)
    obtain ⟨o, ho, hrun⟩ := Outcome.right_of_mem_left hran (List.mem_filter.mpr ⟨hin, decide_eq_true hstate⟩)
    exact ⟨o, ho, Except.ok.inj (hrun.symm.trans (hpair c i hi j hj hsource htarget))⟩

end Rows

/-- An edited pair with the labels it deserves: every even id is kept, every odd one deleted, and the new
    ones are inserted. -/
def editedCase (n : Nat) (source target : CanonicalTree) (caseId : JobId) : LabeledCase where
  caseId
  sourceTree := source
  targetTree := target
  expectedOperations := (List.range (n / 2)).map (fun j => ⟨.delete, {wideName (2 * j + 1)}, ∅⟩) ++
    (List.range (n / 4)).map fun j => ⟨.insert, ∅, {editedName n ((n + 1) / 2 + j)}⟩
  expectedMatches := (List.range ((n + 1) / 2)).map fun j => (wideName (2 * j), wideName (2 * j))

def editedCorpus (sizes : List (Nat × JobId)) : Except PyError (List LabeledCase) :=
  sizes.mapM fun size => do
    let pair ← highEditDensityPair size.1
    return editedCase size.1 pair.1 pair.2 size.2

section Reports
variable [PyRuntime]

theorem edited_met {n : Nat} {source target : CanonicalTree} {caseId : JobId}
    (h : highEditDensityPair n = .ok (source, target)) :
    Outcome.Returns (reconcileTrees source target caseId) (Met (editedCase n source target caseId)) := by
  obtain ⟨source', target', hpair, hsource, htarget⟩ := highEditDensityPair_fans n
  cases h.symm.trans hpair
  have hs := wide_row hsource
  have ht := edited_row htarget
  obtain ⟨result, hrun, hreport⟩ := @row_report source target _ n caseId _ _ _ hs ht edited_ordered
  obtain ⟨matched, hmatched, hmatches⟩ := predictedMatches_row hs ht hreport
  obtain ⟨ops, hpredicted, hops⟩ := predictedOperations_row hs ht hreport
  refine ⟨result, hrun, hmatched.trans (congrArg Except.ok (Finset.ext fun p => ?_)),
    hpredicted.trans (congrArg Except.ok (Finset.ext fun o => ?_))⟩
  · rw [hmatches, List.mem_toFinset, editedCase, List.mem_map]
    simp only [List.mem_range]
    constructor
    · intro hp
      obtain ⟨i, -, j, -, hid, rfl⟩ := hp
      obtain ⟨hlow, rfl⟩ := wideName_eq_edited.mp hid
      exact ⟨j, hlow, by rw [← hid]⟩
    · intro hp
      obtain ⟨j, hlow, rfl⟩ := hp
      have hid : wideName (2 * j) = editedName n j := wideName_eq_edited.mpr ⟨hlow, rfl⟩
      exact ⟨2 * j, by omega, j, by omega, hid, by rw [← hid]⟩
  · rw [hops, List.mem_toFinset, editedCase, List.mem_append, List.mem_map, List.mem_map]
    simp only [List.mem_range]
    refine or_congr ⟨fun ho => ?_, fun ho => ?_⟩ ⟨fun ho => ?_, fun ho => ?_⟩
    · obtain ⟨i, hi, hno, rfl⟩ := ho
      obtain ⟨j, hj, rfl⟩ := (dropped_iff hi).mp hno
      exact ⟨j, hj, rfl⟩
    · obtain ⟨j, hj, rfl⟩ := ho
      exact ⟨2 * j + 1, by omega, (dropped_iff (by omega)).mpr ⟨j, hj, rfl⟩, rfl⟩
    · obtain ⟨j, hj, hno, rfl⟩ := ho
      have hhigh := added_iff.mp hno
      exact ⟨j - (n + 1) / 2, by omega, by rw [Nat.add_sub_cancel' hhigh]⟩
    · obtain ⟨j, hj, rfl⟩ := ho
      exact ⟨(n + 1) / 2 + j, by omega, added_iff.mpr (by omega), rfl⟩

/-- On any corpus of edited pairs, whatever their sizes, the metrics of the engine are perfect. -/
theorem editedCorpus_perfect (sizes : List (Nat × JobId)) : ∃ cases, editedCorpus sizes = .ok cases ∧
    Outcome.Returns (evaluateQuality cases) Perfect := by
  have hedited : ∀ size ∈ sizes, ∃ case, (do
      let pair ← highEditDensityPair size.1
      return editedCase size.1 pair.1 pair.2 size.2) = .ok case := by
    intro size _
    obtain ⟨source, target, hpair, -⟩ := highEditDensityPair_fans size.1
    exact ⟨_, Outcome.bind_ok.mpr ⟨_, hpair, rfl⟩⟩
  obtain ⟨cases, hcases⟩ := Outcome.mapM_total hedited
  refine ⟨cases, hcases, perfect_of_met fun case hcase => ?_⟩
  obtain ⟨size, -, hsize⟩ := Outcome.left_of_mem_right (Outcome.mapM_ok.mp hcases) hcase
  obtain ⟨pair, hpair, hlabelled⟩ := Outcome.bind_ok.mp hsize
  obtain rfl := Outcome.pure_ok.mp hlabelled
  exact edited_met hpair

end Reports

end Reconciliation.Benchmark
