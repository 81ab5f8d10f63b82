/-
  Reconciliation.Contracts.Alignment — aligned positions, regions, and the alignment result.

  A position is aligned, one-sided (absence is asserted), or unresolved (candidates exist,
  none dominates). The validators are the functions `check`; `check_ok` says what each of
  them accepts.
-/
import Reconciliation.Contracts.Matches

namespace Reconciliation.Contracts

open Reconciliation.Base

/-! ## Positions -/

inductive AlignmentEdgeKind where
  | aligned
  | sourceOnly
  | targetOnly
  | unresolvedSource
  | unresolvedTarget
  deriving DecidableEq

def AlignmentEdgeKind.value : AlignmentEdgeKind → String
  | aligned => "ALIGNED"
  | sourceOnly => "SOURCE_ONLY"
  | targetOnly => "TARGET_ONLY"
  | unresolvedSource => "UNRESOLVED_SOURCE"
  | unresolvedTarget => "UNRESOLVED_TARGET"

def unresolvedEdgeKinds : List AlignmentEdgeKind := [.unresolvedSource, .unresolvedTarget]

structure AlignedPairFields where
  kind : AlignmentEdgeKind
  sourceNodeRef : Option NodeRef
  targetNodeRef : Option NodeRef
  matchId : Option String
  ambiguousMatchIds : List String
  deriving DecidableEq

def AlignedPairFields.isUnresolved (p : AlignedPairFields) : Bool := p.kind ∈ unresolvedEdgeKinds

/-- An aligned position has both nodes; an unresolved one names its candidates. -/
def AlignedPairFields.check (p : AlignedPairFields) : Except PyError Unit :=
  if p.kind = .aligned ∧ (p.sourceNodeRef = none ∨ p.targetNodeRef = none) then
    .error (.validationError "AlignedPair" [.text "an ALIGNED pair requires both a source and a target node"])
  else if p.isUnresolved ∧ p.ambiguousMatchIds = [] then
    .error (.validationError "AlignedPair"
      [.text (p.kind.value ++ " position must reference at least one ambiguous candidate match (REQ-058)")])
  else .ok ()

abbrev AlignedPair := Checked AlignedPairFields.check

/-! ## Regions -/

structure AlignedRegionFields where
  regionId : String
  sourceParentRef : Option NodeRef
  targetParentRef : Option NodeRef
  ordered : Bool
  pairs : List AlignedPair
  orderChanged : Bool
  unresolved : Bool
  deriving DecidableEq

/-- A region with unresolved positions is marked unresolved. -/
def AlignedRegionFields.check (r : AlignedRegionFields) : Except PyError Unit :=
  if r.regionId = "" then .error (emptyString "AlignedRegion" "region_id")
  else if r.pairs.any (·.val.isUnresolved) ∧ r.unresolved = false then
    .error (.validationError "AlignedRegion"
      [.text "region ", .quoted r.regionId,
        .text " holds unresolved positions and must be marked unresolved (REQ-058)"])
  else .ok ()

abbrev AlignedRegion := Checked AlignedRegionFields.check

namespace AlignedRegion

/-- The aligned positions, in region order. -/
def matched (r : AlignedRegion) : List AlignedPair := r.val.pairs.filter fun p => p.val.kind = .aligned

def unresolvedSourceRefs (r : AlignedRegion) : List NodeRef :=
  (r.val.pairs.filter fun p => p.val.kind = .unresolvedSource).filterMap (·.val.sourceNodeRef)

def unresolvedTargetRefs (r : AlignedRegion) : List NodeRef :=
  (r.val.pairs.filter fun p => p.val.kind = .unresolvedTarget).filterMap (·.val.targetNodeRef)

end AlignedRegion

/-! ## The result -/

structure AlignmentResultFields where
  regions : List AlignedRegion
  unresolvedRegionIds : List String
  deriving DecidableEq

def quotedList (items : List String) : Message :=
  .text "[" :: ((items.map fun i => [Piece.quoted i]).intersperse [.text ", "]).flatten ++ [.text "]"]

/-- Region ids are unique, and exactly the unresolved regions are listed. -/
def AlignmentResultFields.check (a : AlignmentResultFields) : Except PyError Unit :=
  let ids := a.regions.map (·.val.regionId)
  let listed := a.unresolvedRegionIds
  let marked := (a.regions.filter (·.val.unresolved)).map (·.val.regionId)
  if ¬ ids.Nodup then .error (.validationError "AlignmentResult" [.text "aligned region ids must be unique"])
  else if ¬ listed.Nodup then
    .error (.validationError "AlignmentResult" [.text "unresolved_region_ids must not contain duplicates"])
  else if ¬ ((∀ i ∈ listed, i ∈ marked) ∧ ∀ i ∈ marked, i ∈ listed) then
    .error (.validationError "AlignmentResult"
      (.text "unresolved_region_ids must list exactly the unresolved regions; missing=" ::
        quotedList (sortedBy id (marked.filter (· ∉ listed))) ++
        .text " unknown=" :: quotedList (sortedBy id (listed.filter (· ∉ marked)))))
  else .ok ()

abbrev AlignmentResult := Checked AlignmentResultFields.check

namespace AlignmentResult

/-- Every source node whose correspondence is unresolved. -/
def unresolvedSourceRefs (a : AlignmentResult) : List NodeRef := a.val.regions.flatMap (·.unresolvedSourceRefs)

/-- Every target node whose correspondence is unresolved. -/
def unresolvedTargetRefs (a : AlignmentResult) : List NodeRef := a.val.regions.flatMap (·.unresolvedTargetRefs)

/-- When exactly the unresolved regions are listed, in region order, only the ids can be at fault. -/
theorem check_ok_iff {regions : List AlignedRegion} :
    AlignmentResultFields.check ⟨regions, (regions.filter (·.val.unresolved)).map (·.val.regionId)⟩ = .ok () ↔
      (regions.map (·.val.regionId)).Nodup := by
  unfold AlignmentResultFields.check
  by_cases h : (regions.map (·.val.regionId)).Nodup
  · have hsub : ((regions.filter (·.val.unresolved)).map (·.val.regionId)).Nodup :=
      h.sublist (List.filter_sublist.map _)
    simp [h, hsub]
  · simp [h]

theorem regionIds_nodup (a : AlignmentResult) : (a.val.regions.map (·.val.regionId)).Nodup := by
  by_contra h
  have := a.accepted
  unfold AlignmentResultFields.check at this
  simp [h] at this

end AlignmentResult

end Reconciliation.Contracts
