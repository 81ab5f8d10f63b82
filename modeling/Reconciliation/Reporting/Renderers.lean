/-
  Reconciliation.Reporting.Renderers — the CSV and the JSON renderer.
-/
import Reconciliation.Reporting.Rows

namespace Reconciliation.Reporting

open Reconciliation.Base Reconciliation.Contracts Reconciliation.Localization

variable [ReportRuntime]

/-! ## CSV -/

/-- A value as a cell. -/
def cell : FieldValue → String
  | .none => ""
  | .bool true => "true"
  | .bool false => "false"
  | .number printed => printed
  | .str s => s
  | .strs items => String.intercalate ";" items

/-- The further characters the writer quotes, which depend on its version. -/
def csvQuotes (c : Char) : Bool := c = '\r' && ReportRuntime.quotesReturn

def cells (row : ReportRow) : List String := row.modelDump.map fun field => cell field.2

/-- `CsvReportRenderer.render`. -/
def renderCsv (table : ReportTable) : String :=
  String.join ((ReportTable.columns :: table.rows.map cells).map (Text.csvRecord csvQuotes))

/-! ## JSON -/

def rowJson (row : ReportRow) : Json := .object (row.modelDump.map fun field => (field.1, field.2.json))

def issueJson (issue : LocalizationIssue) : Json :=
  .object [("issue_id", .string issue.issueId),
    ("localization_status", .string issue.localizationStatus.value),
    ("severity", .string issue.severity.value),
    ("source_node_ref", (FieldValue.text issue.sourceNodeRef).json),
    ("locale_node_ref", (FieldValue.text issue.localeNodeRef).json),
    ("source_node_id", (FieldValue.text issue.sourceNodeId).json),
    ("locale_node_id", (FieldValue.text issue.localeNodeId).json),
    ("source_label", (FieldValue.text issue.sourceLabel).json),
    ("locale_label", (FieldValue.text issue.localeLabel).json),
    ("core_match_ids", (FieldValue.strs issue.coreMatchIds).json),
    ("core_operation_ids", (FieldValue.strs issue.coreOperationIds).json),
    ("match_confidence", (FieldValue.score issue.matchConfidence).json),
    ("operation_confidence", (FieldValue.score issue.operationConfidence).json),
    ("repair_confidence", (FieldValue.score issue.repairConfidence).json),
    ("translation_state", .string issue.translationState.value),
    ("recommended_action", .string issue.recommendedAction.value),
    ("auto_fix_eligible", .bool issue.autoFixEligible),
    ("policy_exemption", (FieldValue.text issue.policyExemption).json),
    ("recommendation_id", (FieldValue.text issue.recommendationId).json),
    ("message", (FieldValue.text issue.message).json)]

def recommendationJson (rec : RepairRecommendation) : Json :=
  .object [("recommendation_id", .string rec.recommendationId),
    ("operation", .string rec.operation.value),
    ("authoritative_side", .string rec.authoritativeSide.value),
    ("target_side", .string rec.targetSide.value),
    ("issue_id", .string rec.issueId),
    ("source_operation_ids", (FieldValue.strs rec.sourceOperationIds).json),
    ("target_node_ref", (FieldValue.text rec.targetNodeRef).json),
    ("destination_parent_ref", (FieldValue.text rec.destinationParentRef).json),
    ("after_sibling_ref", (FieldValue.text rec.afterSiblingRef).json),
    ("before_sibling_ref", (FieldValue.text rec.beforeSiblingRef).json),
    ("repair_confidence", (FieldValue.float rec.repairConfidence).json),
    ("executable", .bool rec.executable),
    ("auto_fix_eligible", .bool rec.autoFixEligible),
    ("changes", (FieldValue.strs (rec.changes.map (·.value))).json),
    ("preconditions", (FieldValue.strs rec.preconditions).json),
    ("postconditions", (FieldValue.strs rec.postconditions).json)]

def confidenceJson (confidence : Confidence) : Json :=
  .object [("value", (FieldValue.float confidence.value).json),
    ("calibrated", .bool confidence.calibrated),
    ("model", (FieldValue.text confidence.model).json)]

def effectJson (effect : SuppressedEffect) : Json :=
  .object [("effect_id", .string effect.val.effectId),
    ("root_operation_id", .string effect.val.rootOperationId),
    ("suppression_rule_id", .string effect.val.suppressionRuleId),
    ("category", .string effect.val.category),
    ("affected_node_refs", (FieldValue.strs effect.val.affectedNodeRefs).json),
    ("confidence", confidenceJson effect.val.confidence),
    ("independent_defect_check", .string effect.val.independentDefectCheck.value),
    ("original_severity", (FieldValue.text effect.val.originalSeverity).json)]

def versionsJson (versions : ProfileVersions) : Json :=
  .object [("engine_version", .string versions.engineVersion),
    ("core_contract_version", .string versions.coreContractVersion),
    ("normalization_profile_version", .string versions.normalizationProfileVersion),
    ("matching_profile_version", .string versions.matchingProfileVersion),
    ("alignment_profile_version", .string versions.alignmentProfileVersion),
    ("operation_profile_version", .string versions.operationProfileVersion),
    ("suppression_profile_version", .string versions.suppressionProfileVersion)]

def countsJson (counts : Dict String Nat) : Json := .object (counts.entries.map fun e => (e.1, (FieldValue.int e.2).json))

def nodeCountsJson (counts : NodeCounts) : Json :=
  .object [("confirmed", (FieldValue.int counts.confirmed).json),
    ("probable", (FieldValue.int counts.probable).json),
    ("ambiguous", (FieldValue.int counts.ambiguous).json),
    ("missing", (FieldValue.int counts.missing).json),
    ("extra", (FieldValue.int counts.extra).json),
    ("structurally_divergent", (FieldValue.int counts.structurallyDivergent).json),
    ("exempt", (FieldValue.int counts.exempt).json)]

def summaryJson (summary : LocalizationSummary) : Json :=
  .object [("status_counts", countsJson summary.statusCounts),
    ("operation_counts", countsJson summary.operationCounts),
    ("action_counts", countsJson summary.actionCounts),
    ("node_counts", nodeCountsJson summary.nodeCounts),
    ("direct_issue_count", (FieldValue.int summary.directIssueCount).json),
    ("suppressed_effect_count", (FieldValue.int summary.suppressedEffectCount).json),
    ("unresolved_region_count", (FieldValue.int summary.unresolvedRegionCount).json)]

/-- The issues are dumped as they are, beside the rows of the table. -/
def payload (result : LocalizationValidationResult) (table : ReportTable) : Json :=
  .object [("schema_version", .string table.schemaVersion),
    ("localization_contract_version", .string result.contractVersion),
    ("job_id", .string result.jobId),
    ("locale", .string result.locale),
    ("authoritative_side", .string result.authoritativeSide.value),
    ("versions", versionsJson result.reconciliation.profileVersions),
    ("summary", summaryJson result.summary),
    ("issues", .array (result.issues.map issueJson)),
    ("recommendations", .array (result.recommendations.map recommendationJson)),
    ("suppressed_effects", .array (result.reconciliation.suppression.suppressedEffects.map effectJson)),
    ("rows", .array (table.rows.map rowJson))]

/-- `JsonReportRenderer.render_full`. -/
def renderFull (result : LocalizationValidationResult) (table : ReportTable) : String := (payload result table).dumps 0

end Reconciliation.Reporting
