/-
  Reconciliation.Alignment.Aligner — the children of corresponding parents, side by side.

  A region for the roots and for every confirmed pair; in it the matched children first,
  then the other source children, then the other target children. A child without a
  confirmed counterpart there is one-sided, or unresolved when it has ambiguous candidates.
-/
import Reconciliation.Matching.Matcher
import Reconciliation.Contracts.Results

namespace Reconciliation.Alignment

open Reconciliation.Base Reconciliation.Contracts Reconciliation.Matching Reconciliation.Validation

/-! ## Aligning -/

def regionIdFor (sourceParent targetParent : NodeRef) : String := "region:" ++ sourceParent ++ "->" ++ targetParent

/-- The ids of the ambiguous candidates of each node on one side, settled nodes left out. -/
def ambiguousIndex (graph : MatchGraph) (side : MatchCandidateFields → NodeRef) (settled : List NodeRef) :
    Dict NodeRef (List String) :=
  (Dict.group ((graph.ambiguous.filter fun c => side c.val ∉ settled).map fun c => (side c.val, c.val.matchId))).mapVal
    fun _ ids => sortedBy id ids

def addPair (pairs : List (NodeRef × NodeRef)) (c : MatchCandidate) : List (NodeRef × NodeRef) :=
  let pair := (c.val.sourceNodeRef, c.val.targetNodeRef)
  if pair ∈ pairs then pairs else pairs ++ [pair]

/-- The roots and every confirmed pair, each once. -/
def parentPairs (source target : CanonicalTree) (graph : MatchGraph) : List (NodeRef × NodeRef) :=
  graph.confirmed.foldl addPair [(source.rootNodeRef, target.rootNodeRef)]

def alignedPosition (p : NodeRef × NodeRef) : AlignedPairFields :=
  ⟨.aligned, some p.1, some p.2, some (matchId p.1 p.2), []⟩

def sourcePosition (ambiguousSources : Dict NodeRef (List String)) (sc : NodeRef) : AlignedPairFields :=
  let ambiguousIds := (ambiguousSources.get? sc).getD []
  if ambiguousIds ≠ [] then ⟨.unresolvedSource, some sc, none, none, ambiguousIds⟩
  else ⟨.sourceOnly, some sc, none, none, []⟩

def targetPosition (ambiguousTargets : Dict NodeRef (List String)) (tc : NodeRef) : AlignedPairFields :=
  let ambiguousIds := (ambiguousTargets.get? tc).getD []
  if ambiguousIds ≠ [] then ⟨.unresolvedTarget, none, some tc, none, ambiguousIds⟩
  else ⟨.targetOnly, none, some tc, none, []⟩

/-- The children confirmed with a child of the other parent, in source order. -/
def matchedPairs (graph : MatchGraph) (sourceChildren targetChildren : List NodeRef) : List (NodeRef × NodeRef) :=
  sourceChildren.filterMap fun sc =>
    match graph.confirmedTargetFor sc with
    | some tc => if tc ∈ targetChildren then some (sc, tc) else none
    | none => none

/-- The positions of a region, in the order they are listed. -/
def positions (graph : MatchGraph) (ambiguousSources ambiguousTargets : Dict NodeRef (List String))
    (sourceChildren targetChildren : List NodeRef) : List AlignedPairFields :=
  let matched := matchedPairs graph sourceChildren targetChildren
  let matchedTargets := matched.map Prod.snd
  matched.map alignedPosition ++
    (sourceChildren.filter fun sc => ¬ ∃ tc ∈ graph.confirmedTargetFor sc, tc ∈ matchedTargets).map
      (sourcePosition ambiguousSources) ++
    (targetChildren.filter fun tc => tc ∉ matchedTargets).map (targetPosition ambiguousTargets)

/-- The matched targets do not come in the order of the target's children. -/
def orderChanged (graph : MatchGraph) (sourceChildren targetChildren : List NodeRef) : Bool :=
  let matchedTargets := (matchedPairs graph sourceChildren targetChildren).map Prod.snd
  decide (2 ≤ matchedTargets.length) && decide (matchedTargets ≠ targetChildren.filter (· ∈ matchedTargets))

def alignParent (source target : CanonicalTree) (graph : MatchGraph) (profile : AlignmentProfile)
    (ambiguousSources ambiguousTargets : Dict NodeRef (List String)) (parents : NodeRef × NodeRef) :
    Except PyError AlignedRegion := do
  let sourceNode ← source.node parents.1
  let targetNode ← target.node parents.2
  let ordered := decide (profile.orderSemanticsFor sourceNode.nodeType = .ordered)
  let pairs ← (positions graph ambiguousSources ambiguousTargets sourceNode.childRefs targetNode.childRefs).mapM
    (Checked.build AlignedPairFields.check)
  Checked.build AlignedRegionFields.check
    { regionId := regionIdFor parents.1 parents.2
      sourceParentRef := some parents.1
      targetParentRef := some parents.2
      ordered := ordered
      pairs := pairs
      orderChanged := ordered && orderChanged graph sourceNode.childRefs targetNode.childRefs
      unresolved := pairs.any (·.val.isUnresolved) }

def align (source target : CanonicalTree) (graph : MatchGraph) (profile : AlignmentProfile) :
    Except PyError AlignmentResult := do
  let ambiguousSources := ambiguousIndex graph (·.sourceNodeRef) (graph.confirmed.map (·.val.sourceNodeRef))
  let ambiguousTargets := ambiguousIndex graph (·.targetNodeRef) (graph.confirmed.map (·.val.targetNodeRef))
  let regions ← (sortedBy toLex (parentPairs source target graph)).mapM
    (alignParent source target graph profile ambiguousSources ambiguousTargets)
  Checked.build AlignmentResultFields.check
    ⟨regions, (regions.filter (·.val.unresolved)).map (·.val.regionId)⟩

end Reconciliation.Alignment
