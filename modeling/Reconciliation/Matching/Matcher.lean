/-
  Reconciliation.Matching.Matcher — the node matcher: authoritative ids first, then
  similarity over the nodes left free.

  The loops are those of the source. A scored row is empty outside the free nodes; a set of
  edges is a list without repetitions, which is sorted before anything is emitted.
  `MatcherProofs` shows what the graph holds.
-/
import Reconciliation.Matching.Scorer

namespace Reconciliation.Matching

open Reconciliation.Base Reconciliation.Contracts Reconciliation.Evidence

def matchId (sourceRef targetRef : NodeRef) : String := "m:" ++ sourceRef ++ "->" ++ targetRef

/-! ## Candidates -/

def candidateFields (source target : NodeEvidence) (state : MatchState) (score : FeatureScore)
    (confidence : Confidence) (profile : MatchingProfile) (hard soft : List ConstraintViolation)
    (alternatives : List String) : MatchCandidateFields where
  matchId := matchId source.nodeRef target.nodeRef
  sourceNodeRef := source.nodeRef
  targetNodeRef := target.nodeRef
  state := state
  score := score
  confidence := confidence
  evidence := score.contributions
  violatedSoftConstraints := soft
  hardConstraints := hard
  alternativeMatchIds := alternatives
  profileVersion := profile.version

def lookup (evidence : KeyedEvidence) (ref : NodeRef) : Except PyError NodeEvidence :=
  match evidence.val.get? ref with
  | some e => .ok e
  | none => .error (.keyError ref)

/-! ## Phase 1: authoritative ids -/

def indexById (duplicates : List String) (index : Dict String NodeEvidence) (ev : NodeEvidence) :
    Dict String NodeEvidence :=
  match ev.persistentId with
  | none => index
  | some i => if i ∈ duplicates then index else index.insert i ev

def uniqueIdIndex (evidence : KeyedEvidence) (duplicates : List String) : Dict String NodeEvidence :=
  evidence.val.sorted.values.foldl (indexById duplicates) Dict.empty

/-- The pairs that share an id, unique on both sides, in id order. -/
def sharedIdPairs (evidence : EvidenceIndex) : List (NodeEvidence × NodeEvidence) :=
  let sourceById := uniqueIdIndex evidence.source evidence.duplicateSourceIds
  let targetById := uniqueIdIndex evidence.target evidence.duplicateTargetIds
  (sortedBy id (sourceById.keys.filter (· ∈ targetById.keys))).filterMap fun i =>
    match sourceById.get? i, targetById.get? i with
    | some source, some target => some (source, target)
    | _, _ => none

/-- A pair that shares an id: rejected on a hard violation, else confirmed with full confidence. -/
def authoritativeFields (profile : MatchingProfile) (source target : NodeEvidence) : MatchCandidateFields :=
  let (hard, soft) := evaluateConstraints source target profile
  let score := scorePair source target profile
  if hard ≠ [] then
    candidateFields source target .rejected score (deriveConfidence score profile.calibration) profile hard soft []
  else
    candidateFields source target .confirmed score
      ⟨1, profile.calibration.calibrated, profile.calibration.model, Confidence.full.range⟩ profile [] soft []

def authoritativeMatches (evidence : EvidenceIndex) (profile : MatchingProfile) :
    Except PyError (List MatchCandidate) :=
  (sharedIdPairs evidence).mapM fun p => Checked.build _ (authoritativeFields profile p.1 p.2)

/-- Phase 1 runs only when persistent ids are authoritative. -/
def authoritativePhase (evidence : EvidenceIndex) (profile : MatchingProfile) : Except PyError (List MatchCandidate) :=
  if .persistentId ∈ profile.authoritativeIdFeatures then authoritativeMatches evidence profile else .ok []

/-! ## Phase 2: similarity -/

/-- The score of a pair without a hard violation, when it reaches the probable threshold. -/
def admissibleScore (evidence : EvidenceIndex) (profile : MatchingProfile) (s t : NodeRef) : Option ℚ :=
  match evidence.source.val.get? s, evidence.target.val.get? t with
  | some source, some target =>
    if (evaluateConstraints source target profile).1 ≠ [] then none
    else
      let value := (scorePair source target profile).value
      if profile.probableThreshold ≤ value then some value else none
  | _, _ => none

/-- The admissible targets of a source with their scores, best first. -/
def scoredRow (evidence : EvidenceIndex) (profile : MatchingProfile) (freeTargets : List NodeRef) (s : NodeRef) :
    List (ℚ × NodeRef) :=
  sortedBy (fun p => toLex (-p.1, p.2))
    (freeTargets.filterMap fun t => (admissibleScore evidence profile s t).map fun value => (value, t))

/-- Source side: a source with two near-tied plausible targets. -/
def sourceSideEdges (profile : MatchingProfile) (s : NodeRef) (row : List (ℚ × NodeRef)) : List (NodeRef × NodeRef) :=
  match row with
  | (top, _) :: (second, _) :: _ =>
    if profile.matchThreshold ≤ top ∧ top - second ≤ profile.ambiguityMargin then
      (row.filter fun p => top - p.1 ≤ profile.ambiguityMargin).map fun p => (s, p.2)
    else []
  | _ => []

/-- The top pick of a row, with its score and its source. -/
def topPick (profile : MatchingProfile) (e : NodeRef × List (ℚ × NodeRef)) : Option (NodeRef × ℚ × NodeRef) :=
  match e.2 with
  | [] => none
  | (value, t) :: _ => if profile.matchThreshold ≤ value then some (t, value, e.1) else none

/-- The sources whose top pick is each target, with their scores. -/
def bestByTarget (profile : MatchingProfile) (scored : List (NodeRef × List (ℚ × NodeRef))) :
    Dict NodeRef (List (ℚ × NodeRef)) :=
  Dict.group (scored.filterMap (topPick profile))

/-- Target side: a target that is the top pick of two near-tied sources. -/
def targetSideEdges (profile : MatchingProfile) (t : NodeRef) (contenders : List (ℚ × NodeRef)) :
    List (NodeRef × NodeRef) :=
  if contenders.length < 2 then []
  else
    match sortedBy (fun p => toLex (-p.1, p.2)) contenders with
    | [] => []
    | (top, s) :: rest =>
      let close := ((top, s) :: rest).filter fun p => top - p.1 ≤ profile.ambiguityMargin
      if 2 ≤ close.length then close.map fun p => (p.2, t) else []

def ambiguousEdges (scored : List (NodeRef × List (ℚ × NodeRef))) (profile : MatchingProfile) :
    List (NodeRef × NodeRef) :=
  (scored.flatMap (fun e => sourceSideEdges profile e.1 e.2) ++
    (bestByTarget profile scored).entries.flatMap fun e => targetSideEdges profile e.1 e.2).dedup

/-- The other edges that share an endpoint. -/
def alternativeIds (sortedEdges : List (NodeRef × NodeRef)) (s t : NodeRef) : List String :=
  (sortedEdges.filter fun e => e ≠ (s, t) ∧ (e.1 = s ∨ e.2 = t)).map fun e => matchId e.1 e.2

def ambiguousFields (profile : MatchingProfile) (sortedEdges : List (NodeRef × NodeRef))
    (source target : NodeEvidence) : MatchCandidateFields :=
  let score := scorePair source target profile
  candidateFields source target .ambiguous score (deriveConfidence score profile.calibration) profile [] []
    (alternativeIds sortedEdges source.nodeRef target.nodeRef)

/-- A pair confirmed by similarity. -/
def similarityFields (profile : MatchingProfile) (source target : NodeEvidence) : MatchCandidateFields :=
  let score := scorePair source target profile
  candidateFields source target .confirmed score (deriveConfidence score profile.calibration) profile [] [] []

/-- Build the candidate of a pair of references. -/
def candidateFor (evidence : EvidenceIndex) (fields : NodeEvidence → NodeEvidence → MatchCandidateFields)
    (e : NodeRef × NodeRef) : Except PyError MatchCandidate := do
  let source ← lookup evidence.source e.1
  let target ← lookup evidence.target e.2
  Checked.build _ (fields source target)

/-- The top pick of a source, unless the source or the target is ambiguous. -/
def confirmablePick (profile : MatchingProfile) (edges : List (NodeRef × NodeRef))
    (e : NodeRef × List (ℚ × NodeRef)) : Option (ℚ × NodeRef × NodeRef) :=
  if e.1 ∈ edges.map Prod.fst then none
  else
    match topPick profile e with
    | none => none
    | some (t, value, s) => if t ∉ edges.map Prod.snd then some (value, s, t) else none

/-- Unambiguous top picks, best first. -/
def confirmable (profile : MatchingProfile) (scored : List (NodeRef × List (ℚ × NodeRef)))
    (edges : List (NodeRef × NodeRef)) : List (ℚ × NodeRef × NodeRef) :=
  sortedBy (fun c => toLex (-c.1, toLex c.2)) (scored.filterMap (confirmablePick profile edges))

/-- Greedy confirmation: a pair is taken unless its source or its target is. -/
def confirmLoop (matchedTargets : List NodeRef) :
    List NodeRef → List NodeRef → List (ℚ × NodeRef × NodeRef) → List (NodeRef × NodeRef)
  | _, _, [] => []
  | matchedSources, takenTargets, (_, s, t) :: rest =>
    if s ∈ matchedSources ∨ t ∈ takenTargets ∨ t ∈ matchedTargets then
      confirmLoop matchedTargets matchedSources takenTargets rest
    else (s, t) :: confirmLoop matchedTargets (s :: matchedSources) (t :: takenTargets) rest

def freeRefs (evidence : KeyedEvidence) (matched : List NodeRef) : List NodeRef :=
  sortedBy id (evidence.val.keys.filter (· ∉ matched))

def similarityMatches (evidence : EvidenceIndex) (profile : MatchingProfile) (matchedSources matchedTargets : List NodeRef) :
    Except PyError (List MatchCandidate) := do
  let freeSources := freeRefs evidence.source matchedSources
  let freeTargets := freeRefs evidence.target matchedTargets
  let scored := freeSources.map fun s => (s, scoredRow evidence profile freeTargets s)
  let edges := ambiguousEdges scored profile
  let sortedEdges := sortedBy toLex edges
  let ambiguous ← sortedEdges.mapM (candidateFor evidence (ambiguousFields profile sortedEdges))
  let confirmed ← (confirmLoop matchedTargets matchedSources [] (confirmable profile scored edges)).mapM
    (candidateFor evidence (similarityFields profile))
  return ambiguous ++ confirmed

/-! ## Matching -/

def match_ (evidence : EvidenceIndex) (profile : MatchingProfile) : Except PyError MatchGraph := do
  let authoritative ← authoritativePhase evidence profile
  let matched := authoritative.filter fun c => c.val.state = .confirmed
  let similarity ← similarityMatches evidence profile (matched.map (·.val.sourceNodeRef))
    (matched.map (·.val.targetNodeRef))
  Checked.build MatchGraphFields.check
    ⟨sortedBy (fun c => toLex (c.val.sourceNodeRef, toLex (c.val.targetNodeRef, c.val.state.value)))
      (authoritative ++ similarity)⟩

end Reconciliation.Matching
