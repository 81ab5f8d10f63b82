/-
  Reconciliation.Classification.Classifiers — the four classifiers of the default registry
  and the service that runs them.

  Each operation is a record of its own (`matchFields`, `deleteFields`, `insertFields`,
  `moveFields`, `reorderFields`), built through its validator.
-/
import Reconciliation.Classification.Registry

namespace Reconciliation.Classification

open Reconciliation.Base Reconciliation.Contracts Reconciliation.Matching

/-! ## Match and update -/

def lowercase : OperationType → String
  | .match_ => "match"
  | .insert => "insert"
  | .delete => "delete"
  | .update => "update"
  | .move => "move"
  | .reorder => "reorder"
  | .wrap => "wrap"
  | .unwrap => "unwrap"
  | .split => "split"
  | .merge => "merge"

def matchFields (changed : Bool) (confidence : Confidence) (sc tc : NodeRef) : StructuralOperationFields :=
  let type := if changed then .update else .match_
  { operationId := "op:" ++ lowercase type ++ ":" ++ sc ++ "->" ++ tc
    type := type
    sourceNodeRefs := [sc]
    targetNodeRefs := [tc]
    fromParentRef := none
    toParentRef := none
    confidence := confidence
    matchIds := [matchId sc tc]
    evidenceCodes := [if changed then "CONTENT_CHANGED" else "IDENTITY_PRESERVED"]
    preconditions := [] }

/-- An aligned pair is a match, or an update when the content differs. -/
def matchOperation (ctx : ClassificationContext) (pair : AlignedPair) : Except PyError (List StructuralOperation) :=
  if pair.val.kind ≠ .aligned then .ok []
  else
    match pair.val.sourceNodeRef, pair.val.targetNodeRef with
    | some sc, some tc => do
      let sourceNode ← ctx.source.node sc
      let targetNode ← ctx.target.node tc
      let fields := matchFields (!sourceNode.contentProperties.pyEq targetNode.contentProperties)
        (ctx.confirmedConfidence sc tc) sc tc
      if fields.type ∉ ctx.profile.enabledOperations then return []
      else
        let op ← Checked.build StructuralOperationFields.check fields
        return [op]
    | _, _ => .error .assertionError

def matchUpdate (ctx : ClassificationContext) : Except PyError (List StructuralOperation) := do
  let operations ← (ctx.alignment.val.regions.flatMap (·.val.pairs)).mapM (matchOperation ctx)
  return operations.flatten

/-! ## Insert and delete -/

def evidenceCodes (sideCode : String) (unresolved : Bool) : List String :=
  if unresolved then [sideCode, "UNRESOLVED_CORRESPONDENCE_FORCED_BY_POLICY"] else [sideCode]

def deleteFields (unresolved : Bool) (sc : NodeRef) : StructuralOperationFields where
  operationId := "op:delete:" ++ sc
  type := .delete
  sourceNodeRefs := [sc]
  targetNodeRefs := []
  fromParentRef := none
  toParentRef := none
  confidence := Confidence.full
  matchIds := []
  evidenceCodes := evidenceCodes "SOURCE_ONLY" unresolved
  preconditions := []

def insertFields (unresolved : Bool) (tc : NodeRef) : StructuralOperationFields where
  operationId := "op:insert:" ++ tc
  type := .insert
  sourceNodeRefs := []
  targetNodeRefs := [tc]
  fromParentRef := none
  toParentRef := none
  confidence := Confidence.full
  matchIds := []
  evidenceCodes := evidenceCodes "TARGET_ONLY" unresolved
  preconditions := []

/-- A one-sided position is a delete or an insert, unless its node moved or the operation is
    not enabled. -/
def presenceOperation (ctx : ClassificationContext) (movedSources movedTargets : List NodeRef) (pair : AlignedPair) :
    Except PyError (List StructuralOperation) :=
  if pair.val.kind = .aligned then .ok []
  else if ctx.presenceSuppressedPair pair then .ok []
  else if pair.val.kind = .sourceOnly ∨ pair.val.kind = .unresolvedSource then
    match pair.val.sourceNodeRef with
    | none => .error .assertionError
    | some sc =>
      if sc ∈ movedSources then .ok []
      else if .delete ∉ ctx.profile.enabledOperations then .ok []
      else do
        let op ← Checked.build StructuralOperationFields.check (deleteFields pair.val.isUnresolved sc)
        return [op]
  else
    match pair.val.targetNodeRef with
    | none => .error .assertionError
    | some tc =>
      if tc ∈ movedTargets then .ok []
      else if .insert ∉ ctx.profile.enabledOperations then .ok []
      else do
        let op ← Checked.build StructuralOperationFields.check (insertFields pair.val.isUnresolved tc)
        return [op]

def insertDelete (ctx : ClassificationContext) : Except PyError (List StructuralOperation) := do
  let moves ← ctx.movePairs
  let regions := ctx.alignment.val.regions.filter fun region => !ctx.presenceSuppressedRegion region
  let operations ← (regions.flatMap (·.val.pairs)).mapM
    (presenceOperation ctx (moves.map Prod.fst) (moves.map Prod.snd))
  return operations.flatten

/-! ## Move -/

def moveFields (confidence : Confidence) (expectedParent toParent : Option NodeRef) (sc tc : NodeRef) :
    StructuralOperationFields where
  operationId := "op:move:" ++ sc ++ "->" ++ tc
  type := .move
  sourceNodeRefs := [sc]
  targetNodeRefs := [tc]
  fromParentRef := expectedParent
  toParentRef := toParent
  confidence := confidence
  matchIds := [matchId sc tc]
  evidenceCodes := ["CONFIRMED_IDENTITY", "PARENT_CHANGED"]
  preconditions := ["SOURCE_AND_TARGET_MATCH_REMAINS_VALID"]

def moveOperation (ctx : ClassificationContext) (p : NodeRef × NodeRef) : Except PyError StructuralOperation := do
  let targetNode ← ctx.target.node p.2
  let sourceNode ← ctx.source.node p.1
  let expectedParent := sourceNode.parentRef.bind ctx.graph.confirmedTargetFor
  Checked.build StructuralOperationFields.check
    (moveFields (ctx.confirmedConfidence p.1 p.2) expectedParent targetNode.parentRef p.1 p.2)

def move (ctx : ClassificationContext) : Except PyError (List StructuralOperation) :=
  if .move ∉ ctx.profile.enabledOperations then .ok []
  else do
    let moves ← ctx.movePairs
    moves.mapM (moveOperation ctx)

/-! ## Reorder -/

/-- A reference that is there and not empty. -/
def truthy (ref : Option NodeRef) : Option NodeRef := ref.filter (· ≠ "")

def pyStr (ref : Option NodeRef) : String := ref.getD "None"

def reorderMatchId (p : AlignedPairFields) : Option String :=
  match truthy p.sourceNodeRef, truthy p.targetNodeRef with
  | some sc, some tc => some (matchId sc tc)
  | _, _ => none

def reorderFields (region : AlignedRegion) : StructuralOperationFields where
  operationId := "op:reorder:" ++ pyStr region.val.sourceParentRef
  type := .reorder
  sourceNodeRefs := region.matched.filterMap fun p => truthy p.val.sourceNodeRef
  targetNodeRefs := region.matched.filterMap fun p => truthy p.val.targetNodeRef
  fromParentRef := none
  toParentRef := none
  confidence := Confidence.full
  matchIds := region.matched.filterMap fun p => reorderMatchId p.val
  evidenceCodes := ["SIBLING_ORDER_CHANGED"]
  preconditions := []

def reorderOperation (region : AlignedRegion) : Except PyError (List StructuralOperation) :=
  if ¬ (region.val.ordered ∧ region.val.orderChanged) then .ok []
  else if region.matched.length < 2 then .ok []
  else do
    let op ← Checked.build StructuralOperationFields.check (reorderFields region)
    return [op]

def reorder (ctx : ClassificationContext) : Except PyError (List StructuralOperation) :=
  if .reorder ∉ ctx.profile.enabledOperations then .ok []
  else do
    let operations ← ctx.alignment.val.regions.mapM reorderOperation
    return operations.flatten

/-! ## All classifiers -/

def classify (ctx : ClassificationContext) : Except PyError StructuralOperationSet := do
  let matches_ ← matchUpdate ctx
  let presences ← insertDelete ctx
  let moves ← move ctx
  let reorders ← reorder ctx
  return ⟨sortedBy (fun op => toLex (op.val.type.value, op.val.operationId))
    (matches_ ++ (presences ++ (moves ++ reorders)))⟩

end Reconciliation.Classification
