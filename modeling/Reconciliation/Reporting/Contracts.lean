/-
  Reconciliation.Reporting.Contracts — report options, report rows, and the fields a row
  is serialized as.

  What the interpreter alone decides (how a float prints to two decimals, whether the CSV
  writer quotes a carriage return) is the class `ReportRuntime`.
-/
import Reconciliation.Base.Json
import Reconciliation.Localization.Contracts

namespace Reconciliation.Reporting

open Reconciliation.Base Reconciliation.Contracts Reconciliation.Localization

class ReportRuntime extends PyRuntime where
  fixed2 : ℚ → String
  quotesReturn : Bool

/-! ## Serialized fields -/

/-- The value of a row's field. -/
inductive FieldValue where
  | none
  | bool (b : Bool)
  | number (printed : String)
  | str (s : String)
  | strs (items : List String)

namespace FieldValue

def json : FieldValue → Json
  | none => .null
  | bool b => .bool b
  | number printed => .number printed
  | str s => .string s
  | strs items => .array (items.map .string)

def text : Option String → FieldValue
  | some s => str s
  | Option.none => none

def float [PyRuntime] (q : ℚ) : FieldValue := number (PyRuntime.floatRepr (.finite q))

def score [PyRuntime] : Option Score → FieldValue
  | some q => float q
  | Option.none => none

def int (n : Nat) : FieldValue := number (toString n)

end FieldValue

/-! ## Rows -/

structure ReportOptions where
  includeSuppressed : Bool := true
  redactContent : Bool := false

structure ReportRow where
  jobId : String
  resultId : String
  sourceNodeId : Option String := none
  localeNodeId : Option String := none
  sourcePath : Option String := none
  localePath : Option String := none
  nodeType : Option String := none
  sourceLabel : Option String := none
  localeLabel : Option String := none
  matchStatus : Option String := none
  localizationStatus : Option String := none
  operation : Option String := none
  matchConfidence : Option Score := none
  operationConfidence : Option Score := none
  repairConfidence : Option Score := none
  evidenceCodes : List String := []
  sourceRevision : Option String := none
  localeRevision : Option String := none
  rootOperationId : Option String := none
  isSuppressed : Bool := false
  suppressionRule : Option String := none
  suppressedEffectCount : Nat := 0
  recommendedAction : Option String := none
  autoFixEligible : Bool := false
  reviewerDecision : Option String := none
  policyExemption : Option String := none
  message : Option String := none
  resultId_ne : resultId ≠ ""

namespace ReportRow

def modelDump [PyRuntime] (row : ReportRow) : List (String × FieldValue) :=
  [("job_id", .str row.jobId),
    ("result_id", .str row.resultId),
    ("source_node_id", .text row.sourceNodeId),
    ("locale_node_id", .text row.localeNodeId),
    ("source_path", .text row.sourcePath),
    ("locale_path", .text row.localePath),
    ("node_type", .text row.nodeType),
    ("source_label", .text row.sourceLabel),
    ("locale_label", .text row.localeLabel),
    ("match_status", .text row.matchStatus),
    ("localization_status", .text row.localizationStatus),
    ("operation", .text row.operation),
    ("match_confidence", .score row.matchConfidence),
    ("operation_confidence", .score row.operationConfidence),
    ("repair_confidence", .score row.repairConfidence),
    ("evidence_codes", .strs row.evidenceCodes),
    ("source_revision", .text row.sourceRevision),
    ("locale_revision", .text row.localeRevision),
    ("root_operation_id", .text row.rootOperationId),
    ("is_suppressed", .bool row.isSuppressed),
    ("suppression_rule", .text row.suppressionRule),
    ("suppressed_effect_count", .int row.suppressedEffectCount),
    ("recommended_action", .text row.recommendedAction),
    ("auto_fix_eligible", .bool row.autoFixEligible),
    ("reviewer_decision", .text row.reviewerDecision),
    ("policy_exemption", .text row.policyExemption),
    ("message", .text row.message)]

end ReportRow

structure ReportTable where
  schemaVersion : String
  jobId : String
  rows : List ReportRow

/-- The names of the fields, in order. -/
def ReportTable.columns : List String :=
  ["job_id", "result_id", "source_node_id", "locale_node_id", "source_path", "locale_path", "node_type", "source_label",
    "locale_label", "match_status", "localization_status", "operation", "match_confidence", "operation_confidence",
    "repair_confidence", "evidence_codes", "source_revision", "locale_revision", "root_operation_id", "is_suppressed",
    "suppression_rule", "suppressed_effect_count", "recommended_action", "auto_fix_eligible", "reviewer_decision",
    "policy_exemption", "message"]

example [PyRuntime] (row : ReportRow) : row.modelDump.map Prod.fst = ReportTable.columns := rfl

/-! ## Reviewer decisions -/

inductive DecisionType where
  | accept
  | reject
  | override
  | defer
  | unresolved
  deriving DecidableEq

def DecisionType.value : DecisionType → String
  | accept => "ACCEPT"
  | reject => "REJECT"
  | override => "OVERRIDE"
  | defer => "DEFER"
  | unresolved => "UNRESOLVED"

/-- What a report shows of a reviewer's decision. -/
structure ReviewerDecision where
  issueId : String
  decision : DecisionType
  overriddenStatus : Option String

end Reconciliation.Reporting
