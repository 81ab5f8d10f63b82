/-
  Reconciliation.Classification.Registry — the context the classifiers share: which parents
  correspond, which confirmed pairs moved, where presence operations are withheld.
-/
import Reconciliation.Alignment.Aligner

namespace Reconciliation.Classification

open Reconciliation.Base Reconciliation.Contracts

structure ClassificationContext where
  source : CanonicalTree
  target : CanonicalTree
  graph : MatchGraph
  alignment : AlignmentResult
  profile : OperationProfile

namespace ClassificationContext
variable (ctx : ClassificationContext)

/-! ## Confirmed pairs -/

def parentsCorrespond (sourceParent targetParent : NodeRef) : Bool :=
  decide (sourceParent = ctx.source.rootNodeRef ∧ targetParent = ctx.target.rootNodeRef) ||
    decide (ctx.graph.confirmedTargetFor sourceParent = some targetParent)

/-- The confidence of a confirmed match, or 0 if none, as an uncalibrated value. -/
def confirmedConfidence (sourceRef targetRef : NodeRef) : Confidence :=
  match ctx.graph.candidates.find? fun c =>
      c.val.state = .confirmed ∧ c.val.sourceNodeRef = sourceRef ∧ c.val.targetNodeRef = targetRef with
  | some c => ⟨c.val.confidence.value, false, none, c.val.confidence.range⟩
  | none => ⟨0, false, none, by norm_num⟩

def confirmedPairs : List (NodeRef × NodeRef) :=
  (sortedBy (fun c => toLex (c.val.sourceNodeRef, c.val.targetNodeRef)) ctx.graph.confirmed).map fun c =>
    (c.val.sourceNodeRef, c.val.targetNodeRef)

theorem mem_confirmedPairs {s t : NodeRef} : (s, t) ∈ ctx.confirmedPairs ↔ ctx.graph.Confirmed s t := by
  unfold confirmedPairs
  rw [List.mem_map]
  simp only [mem_sortedBy, MatchGraph.mem_confirmed, Prod.mk.injEq]
  constructor
  · intro hc
    obtain ⟨c, ⟨hc, hstate⟩, hs, ht⟩ := hc
    exact ⟨c, hc, hstate, hs, ht⟩
  · intro hc
    obtain ⟨c, hc, hstate, hs, ht⟩ := hc
    exact ⟨c, ⟨hc, hstate⟩, hs, ht⟩

/-- A confirmed pair under parents that do not correspond. -/
def isCrossParent (sourceRef targetRef : NodeRef) : Except PyError Bool := do
  let sourceNode ← ctx.source.node sourceRef
  let targetNode ← ctx.target.node targetRef
  match sourceNode.parentRef, targetNode.parentRef with
  | some sourceParent, some targetParent => return !ctx.parentsCorrespond sourceParent targetParent
  | _, _ => return false

/-- The pair itself when it is cross-parent and clears the move threshold. -/
def movePair (p : NodeRef × NodeRef) : Except PyError (Option (NodeRef × NodeRef)) := do
  let cross ← ctx.isCrossParent p.1 p.2
  return if cross ∧ ctx.profile.moveConfidenceThreshold ≤ (ctx.confirmedConfidence p.1 p.2).value then some p else none

def movePairs : Except PyError (List (NodeRef × NodeRef)) := do
  let found ← ctx.confirmedPairs.mapM ctx.movePair
  return found.reduceOption

/-! ## Unresolved alignment -/

def ambiguousSourceRefs : List NodeRef :=
  (ctx.graph.ambiguous.filter fun c => c.val.sourceNodeRef ∉ ctx.graph.confirmed.map (·.val.sourceNodeRef)).map
    (·.val.sourceNodeRef)

def ambiguousTargetRefs : List NodeRef :=
  (ctx.graph.ambiguous.filter fun c => c.val.targetNodeRef ∉ ctx.graph.confirmed.map (·.val.targetNodeRef)).map
    (·.val.targetNodeRef)

def presenceSuppressedRegion (region : AlignedRegion) : Bool :=
  decide (ctx.profile.unresolvedPresencePolicy = .suppressUnresolvedRegions) && region.val.unresolved

def presenceSuppressedPair (pair : AlignedPair) : Bool :=
  if ctx.profile.unresolvedPresencePolicy = .emitAll then false
  else if pair.val.isUnresolved then true
  else if pair.val.kind = .sourceOnly ∧ ∃ s ∈ pair.val.sourceNodeRef, s ∈ ctx.ambiguousSourceRefs then true
  else decide (pair.val.kind = .targetOnly ∧ ∃ t ∈ pair.val.targetNodeRef, t ∈ ctx.ambiguousTargetRefs)

end ClassificationContext

end Reconciliation.Classification
