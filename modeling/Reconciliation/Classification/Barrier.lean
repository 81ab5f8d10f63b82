/-
  Reconciliation.Classification.Barrier — the classifiers withhold presence for any aligner.

  The alignment is arbitrary here: it may mark nothing unresolved, list a node in several
  regions, or pair nodes at random. Unless everything is emitted, a node that ambiguous
  candidates name and no candidate confirms is still neither deleted nor inserted
  (`presence_barrier`). The argument follows the classifier's own split over position kinds:
  an unresolved position is suppressed by its kind, a one-sided one by the match graph.
-/
import Reconciliation.Builders
import Reconciliation.Classification.ClassifiersProofs
import Reconciliation.Matching.MatcherProofs

namespace Reconciliation.Classification

open Reconciliation.Base Reconciliation.Contracts Reconciliation.Alignment Reconciliation.Matching Reconciliation.Builders

section Barrier
variable {ctx : ClassificationContext} {ms mt : List NodeRef} {pair : AlignedPair} {ops : List StructuralOperation}
  {op : StructuralOperation} {set : StructuralOperationSet}

/-! ## One position -/

/-- A position is suppressed when it is unresolved or names an open node on its side. -/
theorem not_suppressed (hpolicy : ctx.profile.unresolvedPresencePolicy ≠ .emitAll)
    (h : ctx.presenceSuppressedPair pair ≠ true) : pair.val.isUnresolved = false ∧
      (pair.val.kind = .sourceOnly → ∀ s ∈ pair.val.sourceNodeRef, ¬ OpenSource ctx.graph s) ∧
      (pair.val.kind = .targetOnly → ∀ t ∈ pair.val.targetNodeRef, ¬ OpenTarget ctx.graph t) := by
  unfold ClassificationContext.presenceSuppressedPair at h
  rw [if_neg hpolicy] at h
  by_cases hu : pair.val.isUnresolved = true
  · simp [hu] at h
  · refine ⟨Bool.eq_false_iff.mpr hu, fun hk s hs ho => h ?_, fun hk t ht ho => h ?_⟩
    · rw [if_neg hu, if_pos ⟨hk, s, hs, mem_ambiguousSources.mpr ho⟩]
    · rw [if_neg hu, if_neg (fun hs => by simp [hk] at hs)]
      exact decide_eq_true ⟨hk, t, ht, mem_ambiguousTargets.mpr ho⟩

/-- A position's operation deletes its source or inserts its target, unless the position is suppressed. -/
theorem presenceOperation_cases (h : presenceOperation ctx ms mt pair = .ok ops) (hop : op ∈ ops) :
    ctx.presenceSuppressedPair pair ≠ true ∧
      ((∃ s, pair.val.sourceNodeRef = some s ∧ (pair.val.kind = .sourceOnly ∨ pair.val.kind = .unresolvedSource) ∧
          op.val = deleteFields pair.val.isUnresolved s) ∨
        ∃ t, pair.val.targetNodeRef = some t ∧ (pair.val.kind = .targetOnly ∨ pair.val.kind = .unresolvedTarget) ∧
          op.val = insertFields pair.val.isUnresolved t) := by
  unfold presenceOperation at h
  obtain ⟨halign, h⟩ := Outcome.of_mem_unless h hop
  obtain ⟨hsupp, h⟩ := Outcome.of_mem_unless h hop
  refine ⟨hsupp, ?_⟩
  by_cases hkind : pair.val.kind = .sourceOnly ∨ pair.val.kind = .unresolvedSource
  · rw [if_pos hkind] at h
    cases hs : pair.val.sourceNodeRef with
    | none => simp [hs] at h
    | some s =>
      simp only [hs] at h
      obtain ⟨-, h⟩ := Outcome.of_mem_unless h hop
      obtain ⟨-, h⟩ := Outcome.of_mem_unless h hop
      exact Or.inl ⟨s, rfl, hkind, Checked.of_mem_build h hop⟩
  · rw [if_neg hkind] at h
    have htarget : pair.val.kind = .targetOnly ∨ pair.val.kind = .unresolvedTarget := by
      cases hk : pair.val.kind <;> simp [hk] at halign hkind ⊢
    cases ht : pair.val.targetNodeRef with
    | none => simp [ht] at h
    | some t =>
      simp only [ht] at h
      obtain ⟨-, h⟩ := Outcome.of_mem_unless h hop
      obtain ⟨-, h⟩ := Outcome.of_mem_unless h hop
      exact Or.inr ⟨t, rfl, htarget, Checked.of_mem_build h hop⟩

/-! ## A run -/

/-- A delete or an insert of a run comes from the presence classifier, at some position. -/
theorem classify_presence (h : classify ctx = .ok set) (hop : op ∈ set.operations)
    (htype : op.val.type = .delete ∨ op.val.type = .insert) :
    ∃ ms mt pair ops, presenceOperation ctx ms mt pair = .ok ops ∧ op ∈ ops := by
  unfold classify at h
  simp only [Outcome.bind_ok, Outcome.pure_ok] at h
  obtain ⟨matches_, hmatches, presences, hpresences, moves, hmoves, reorders, hreorders, rfl⟩ := h
  rw [mem_sortedBy, List.mem_append, List.mem_append, List.mem_append] at hop
  rcases hop with hop | hop | hop | hop
  · have ht := matchUpdate_types hmatches op hop
    rcases htype with h | h <;> simp [h] at ht
  · unfold insertDelete at hpresences
    simp only [Outcome.bind_ok, Outcome.pure_ok] at hpresences
    obtain ⟨moved, -, outs, houts, rfl⟩ := hpresences
    obtain ⟨pair, -, out, hrun, hop⟩ := Outcome.mem_flatten_mapM houts hop
    exact ⟨_, _, pair, out, hrun, hop⟩
  · have ht := move_types hmoves op hop
    rcases htype with h | h <;> simp [h] at ht
  · have ht := reorder_types hreorders op hop
    rcases htype with h | h <;> simp [h] at ht

/-- Whatever the alignment, no open node is deleted or inserted, unless everything is emitted. -/
theorem presence_barrier (hpolicy : ctx.profile.unresolvedPresencePolicy ≠ .emitAll) (h : classify ctx = .ok set) :
    ∀ op ∈ set.operations, (op.val.type = .delete → ∀ s ∈ op.val.sourceNodeRefs, ¬ OpenSource ctx.graph s) ∧
      (op.val.type = .insert → ∀ t ∈ op.val.targetNodeRefs, ¬ OpenTarget ctx.graph t) := by
  intro op hop
  constructor
  · intro htype s hs
    obtain ⟨ms, mt, pair, ops, hrun, hin⟩ := classify_presence h hop (Or.inl htype)
    obtain ⟨hsupp, hcases⟩ := presenceOperation_cases hrun hin
    obtain ⟨hresolved, hsource, -⟩ := not_suppressed hpolicy hsupp
    rcases hcases with ⟨s', href, hkind, hval⟩ | ⟨t, -, -, hval⟩
    · rw [hval] at hs
      obtain rfl := List.mem_singleton.mp hs
      rcases hkind with hk | hk
      · exact hsource hk s href
      · simp [AlignedPairFields.isUnresolved, unresolvedEdgeKinds, hk] at hresolved
    · rw [hval] at htype
      cases htype
  · intro htype t ht
    obtain ⟨ms, mt, pair, ops, hrun, hin⟩ := classify_presence h hop (Or.inr htype)
    obtain ⟨hsupp, hcases⟩ := presenceOperation_cases hrun hin
    obtain ⟨hresolved, -, htarget⟩ := not_suppressed hpolicy hsupp
    rcases hcases with ⟨s, -, -, hval⟩ | ⟨t', href, hkind, hval⟩
    · rw [hval] at htype
      cases htype
    · rw [hval] at ht
      obtain rfl := List.mem_singleton.mp ht
      rcases hkind with hk | hk
      · exact htarget hk t href
      · simp [AlignedPairFields.isUnresolved, unresolvedEdgeKinds, hk] at hresolved

end Barrier

/-! ## A careless aligner -/

def hesitation (s t other : NodeRef) : MatchCandidate where
  val :=
    { matchId := matchId s t
      sourceNodeRef := s
      targetNodeRef := t
      state := .ambiguous
      score := ⟨1, [⟨.normalizedLabel, 1, none, weight_one⟩], Confidence.full.range⟩
      confidence := Confidence.full
      evidence := [⟨.normalizedLabel, 1, none, weight_one⟩]
      violatedSoftConstraints := []
      hardConstraints := []
      alternativeMatchIds := [matchId s other]
      profileVersion := "v1" }
  accepted := by
    rw [MatchCandidate.check_ok]
    simp [matchId_ne]

def alone (s : NodeRef) : AlignedPair := ⟨⟨.sourceOnly, some s, none, none, []⟩, rfl⟩

/-- The source chapter may be either target chapter; the aligner lists it in two regions, as absent in both. -/
def carelessContext : ClassificationContext where
  source := buildTree "book" [⟨"book", "map", none, [], []⟩, ⟨"intro", "topic", some "book", [], []⟩,
    ⟨"errata", "topic", some "book", [], []⟩]
  target := buildTree "book" [⟨"book", "map", none, [], []⟩, ⟨"first", "topic", some "book", [], []⟩,
    ⟨"second", "topic", some "book", [], []⟩]
  graph := ⟨⟨[hesitation "intro" "first" "second", hesitation "intro" "second" "first"]⟩, rfl⟩
  alignment := ⟨⟨[⟨⟨"region:book", some "book", some "book", true, [alone "intro", alone "errata"], false, false⟩, rfl⟩,
    ⟨⟨"region:again", none, none, true, [alone "intro"], false, false⟩, rfl⟩], []⟩, rfl⟩
  profile := defaultOperationProfile

theorem careless_barrier : Outcome.Returns (classify carelessContext) fun set =>
    OpenSource carelessContext.graph "intro" ∧ (∃ op ∈ set.operations, op.val.type = .delete) ∧
      ∀ op ∈ set.operations,
        (op.val.type = .delete → ∀ s ∈ op.val.sourceNodeRefs, ¬ OpenSource carelessContext.graph s) ∧
        (op.val.type = .insert → ∀ t ∈ op.val.targetNodeRefs, ¬ OpenTarget carelessContext.graph t) := by
  have hrun : Outcome.Returns (classify carelessContext) fun set => ∃ op ∈ set.operations, op.val.type = .delete := by
    decide +kernel
  have hopen : OpenSource carelessContext.graph "intro" :=
    ⟨⟨"first", by decide +kernel⟩, MatchGraph.confirmedTargetFor_eq_none.mp (by decide +kernel)⟩
  obtain ⟨set, hset, hdeletes⟩ := hrun
  exact ⟨set, hset, hopen, hdeletes, presence_barrier (by decide) hset⟩

end Reconciliation.Classification
