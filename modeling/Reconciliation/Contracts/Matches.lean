/-
  Reconciliation.Contracts.Matches — evidence, confidence, and the match graph.

  A score or a confidence carries its range. A match candidate and a match graph are
  `Checked` records: their validators are the functions `check`, and what an accepted
  one is known to satisfy follows (`MatchCandidate.check_ok`, `MatchGraph.one_to_one`).
-/
import Reconciliation.Contracts.Profiles

namespace Reconciliation.Contracts

open Reconciliation.Base

def emptyString (model field : String) : PyError :=
  .validationError model [.text (field ++ ": String should have at least 1 character")]

/-! ## Evidence -/

structure Evidence where
  code : EvidenceType
  weight : ℚ
  value : Option String
  weight_nonneg : 0 ≤ weight
  deriving DecidableEq

structure Confidence where
  value : ℚ
  calibrated : Bool
  model : Option String
  range : 0 ≤ value ∧ value ≤ 1
  deriving DecidableEq

theorem Confidence.zero_range : 0 ≤ (0 : ℚ) ∧ (0 : ℚ) ≤ 1 := by norm_num

/-- `Confidence(value=1.0)`. -/
def Confidence.full : Confidence := ⟨1, false, none, by norm_num⟩

structure FeatureScore where
  value : ℚ
  contributions : List Evidence
  range : 0 ≤ value ∧ value ≤ 1
  deriving DecidableEq

/-! ## Candidates -/

inductive MatchState where
  | confirmed
  | candidate
  | ambiguous
  | rejected
  | unmatched
  deriving DecidableEq

def MatchState.value : MatchState → String
  | confirmed => "CONFIRMED"
  | candidate => "CANDIDATE"
  | ambiguous => "AMBIGUOUS"
  | rejected => "REJECTED"
  | unmatched => "UNMATCHED"

structure ConstraintViolation where
  constraint : String
  hard : Bool
  message : Option Message
  deriving DecidableEq

structure MatchCandidateFields where
  matchId : String
  sourceNodeRef : NodeRef
  targetNodeRef : NodeRef
  state : MatchState
  score : FeatureScore
  confidence : Confidence
  evidence : List Evidence
  violatedSoftConstraints : List ConstraintViolation
  hardConstraints : List ConstraintViolation
  alternativeMatchIds : List String
  profileVersion : String
  deriving DecidableEq

/-- Confirmed and ambiguous matches need evidence, ambiguous ones alternatives, and a
    confirmed one violates no hard constraint. -/
def MatchCandidateFields.check (c : MatchCandidateFields) : Except PyError Unit :=
  if c.matchId = "" then .error (emptyString "MatchCandidate" "match_id")
  else if c.profileVersion = "" then .error (emptyString "MatchCandidate" "profile_version")
  else if (c.state = .confirmed ∨ c.state = .ambiguous) ∧ c.evidence = [] then
    .error (.validationError "MatchCandidate"
      [.text (c.state.value ++ " match "), .quoted c.matchId, .text " must include at least one evidence"])
  else if c.state = .ambiguous ∧ c.alternativeMatchIds = [] then
    .error (.validationError "MatchCandidate"
      [.text "ambiguous match ", .quoted c.matchId, .text " must reference at least one alternative"])
  else if c.state = .confirmed ∧ c.hardConstraints.any (·.hard) then
    .error (.validationError "MatchCandidate"
      [.text "confirmed match ", .quoted c.matchId, .text " cannot violate a hard constraint (REQ-042)"])
  else .ok ()

abbrev MatchCandidate := Checked MatchCandidateFields.check

namespace MatchCandidate

theorem check_ok {c : MatchCandidateFields} :
    c.check = .ok () ↔ c.matchId ≠ "" ∧ c.profileVersion ≠ "" ∧
      (c.state = .confirmed ∨ c.state = .ambiguous → c.evidence ≠ []) ∧
      (c.state = .ambiguous → c.alternativeMatchIds ≠ []) ∧
      (c.state = .confirmed → ∀ v ∈ c.hardConstraints, v.hard = false) := by
  unfold MatchCandidateFields.check
  split
  · simp_all
  split
  · simp_all
  split
  · simp_all
  split
  · simp_all
  split
  · simp_all
  · simp_all

end MatchCandidate

/-! ## The match graph -/

structure MatchGraphFields where
  candidates : List MatchCandidate
  deriving DecidableEq

/-- No source and no target node takes part in two confirmed matches. -/
def oneToOne : List NodeRef → List NodeRef → List MatchCandidate → Except PyError Unit
  | _, _, [] => .ok ()
  | sources, targets, c :: rest =>
    if c.val.state ≠ .confirmed then oneToOne sources targets rest
    else if c.val.sourceNodeRef ∈ sources then
      .error (.validationError "MatchGraph"
        [.text "source node ", .quoted c.val.sourceNodeRef, .text " appears in multiple confirmed matches"])
    else if c.val.targetNodeRef ∈ targets then
      .error (.validationError "MatchGraph"
        [.text "target node ", .quoted c.val.targetNodeRef, .text " appears in multiple confirmed matches"])
    else oneToOne (c.val.sourceNodeRef :: sources) (c.val.targetNodeRef :: targets) rest

def MatchGraphFields.check (g : MatchGraphFields) : Except PyError Unit := oneToOne [] [] g.candidates

abbrev MatchGraph := Checked MatchGraphFields.check

namespace MatchGraph

def candidates (g : MatchGraph) : List MatchCandidate := g.val.candidates

def confirmed (g : MatchGraph) : List MatchCandidate := g.candidates.filter fun c => c.val.state = .confirmed

def ambiguous (g : MatchGraph) : List MatchCandidate := g.candidates.filter fun c => c.val.state = .ambiguous

def confirmedTargetFor (g : MatchGraph) (sourceNodeRef : NodeRef) : Option NodeRef :=
  (g.candidates.find? fun c => c.val.state = .confirmed ∧ c.val.sourceNodeRef = sourceNodeRef).map fun c =>
    c.val.targetNodeRef

/-- The graph holds a confirmed candidate of the pair. -/
def Confirmed (g : MatchGraph) (s t : NodeRef) : Prop :=
  ∃ c ∈ g.candidates, c.val.state = .confirmed ∧ c.val.sourceNodeRef = s ∧ c.val.targetNodeRef = t

/-- The graph holds an ambiguous candidate of the pair. -/
def Ambiguous (g : MatchGraph) (s t : NodeRef) : Prop :=
  ∃ c ∈ g.candidates, c.val.state = .ambiguous ∧ c.val.sourceNodeRef = s ∧ c.val.targetNodeRef = t

instance (g : MatchGraph) (s t : NodeRef) : Decidable (g.Ambiguous s t) := inferInstanceAs (Decidable (∃ _ ∈ _, _ ∧ _))

/-- The validator's loop passes when the confirmed sources, and the confirmed targets, are distinct. -/
theorem oneToOne_ok {sources targets : List NodeRef} {cs : List MatchCandidate} :
    oneToOne sources targets cs = .ok () ↔
      ((cs.filter fun c => c.val.state = .confirmed).map fun c => c.val.sourceNodeRef).Nodup ∧
      ((cs.filter fun c => c.val.state = .confirmed).map fun c => c.val.targetNodeRef).Nodup ∧
      ∀ c ∈ cs, c.val.state = .confirmed → c.val.sourceNodeRef ∉ sources ∧ c.val.targetNodeRef ∉ targets := by
  induction cs generalizing sources targets with
  | nil => simp [oneToOne]
  | cons c cs ih =>
    unfold oneToOne
    by_cases hc : c.val.state = .confirmed
    · by_cases hs : c.val.sourceNodeRef ∈ sources
      · simp [hc, hs]
      · by_cases ht : c.val.targetNodeRef ∈ targets
        · simp [hc, hs, ht]
        · simp only [hc, hs, ht, ih, ne_eq, not_true, if_false, List.filter_cons, decide_true, if_true, List.map_cons,
            List.nodup_cons, List.mem_map, List.mem_filter, decide_eq_true_eq, List.mem_cons, forall_eq_or_imp]
          grind
    · simp [hc, ih]

variable {g : MatchGraph}

theorem mem_confirmed {c : MatchCandidate} : c ∈ g.confirmed ↔ c ∈ g.candidates ∧ c.val.state = .confirmed := by
  simp [confirmed]

theorem mem_ambiguous {c : MatchCandidate} : c ∈ g.ambiguous ↔ c ∈ g.candidates ∧ c.val.state = .ambiguous := by
  simp [ambiguous]

/-- Two confirmed candidates that share a source, or a target, are the same candidate. -/
theorem one_to_one {c d : MatchCandidate} (hc : c ∈ g.confirmed) (hd : d ∈ g.confirmed)
    (h : c.val.sourceNodeRef = d.val.sourceNodeRef ∨ c.val.targetNodeRef = d.val.targetNodeRef) : c = d := by
  obtain ⟨hs, ht, -⟩ := oneToOne_ok.mp g.accepted
  rcases h with h | h
  · exact List.inj_on_of_nodup_map hs hc hd h
  · exact List.inj_on_of_nodup_map ht hc hd h

theorem Confirmed.target_unique {s t t' : NodeRef} (h : g.Confirmed s t) (h' : g.Confirmed s t') : t = t' := by
  obtain ⟨c, hc, hcc, rfl, rfl⟩ := h
  obtain ⟨d, hd, hdc, hs, rfl⟩ := h'
  rw [one_to_one (mem_confirmed.mpr ⟨hc, hcc⟩) (mem_confirmed.mpr ⟨hd, hdc⟩) (Or.inl hs.symm)]

theorem Confirmed.source_unique {s s' t : NodeRef} (h : g.Confirmed s t) (h' : g.Confirmed s' t) : s = s' := by
  obtain ⟨c, hc, hcc, rfl, rfl⟩ := h
  obtain ⟨d, hd, hdc, rfl, ht⟩ := h'
  rw [one_to_one (mem_confirmed.mpr ⟨hc, hcc⟩) (mem_confirmed.mpr ⟨hd, hdc⟩) (Or.inr ht.symm)]

@[simp] theorem confirmedTargetFor_eq_some {s t : NodeRef} : g.confirmedTargetFor s = some t ↔ g.Confirmed s t := by
  unfold confirmedTargetFor
  rw [Option.map_eq_some_iff]
  constructor
  · intro hx
    obtain ⟨c, hf, rfl⟩ := hx
    have hp := List.find?_some hf
    simp only [decide_eq_true_eq] at hp
    exact ⟨c, List.mem_of_find?_eq_some hf, hp.1, hp.2, rfl⟩
  · intro hx
    obtain ⟨c, hc, hcc, rfl, rfl⟩ := hx
    cases hf : g.candidates.find? fun d => d.val.state = .confirmed ∧ d.val.sourceNodeRef = c.val.sourceNodeRef with
    | none => simpa [hcc] using List.find?_eq_none.mp hf c hc
    | some d =>
      have hp := List.find?_some hf
      simp only [decide_eq_true_eq] at hp
      have hd : g.Confirmed c.val.sourceNodeRef d.val.targetNodeRef :=
        ⟨d, List.mem_of_find?_eq_some hf, hp.1, hp.2, rfl⟩
      exact ⟨d, rfl, hd.target_unique ⟨c, hc, hcc, rfl, rfl⟩⟩

instance (g : MatchGraph) (s t : NodeRef) : Decidable (g.Confirmed s t) := decidable_of_iff _ confirmedTargetFor_eq_some

theorem confirmedTargetFor_eq_none {s : NodeRef} : g.confirmedTargetFor s = none ↔ ∀ t, ¬ g.Confirmed s t := by
  rw [Option.eq_none_iff_forall_ne_some]
  exact forall_congr' fun t => not_congr confirmedTargetFor_eq_some

end MatchGraph

end Reconciliation.Contracts
