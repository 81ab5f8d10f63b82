/-
  Reconciliation.Reporting.Html — the view model, and the page the template prints it as.

  A block tag of the template leaves no white space of its own on its line; every value is
  escaped, apart from the stylesheet and the script of the package. A text that may be
  missing is shown as long as it is not empty.
-/
import Reconciliation.Reporting.Assets
import Reconciliation.Reporting.Rows

namespace Reconciliation.Reporting

open Reconciliation.Base Reconciliation.Base.Text Reconciliation.Contracts Reconciliation.Localization

/-! ## The view model -/

structure RootCauseView where
  operationId : String
  type : String
  confidence : String
  evidenceCodes : List String

structure RecommendationView where
  recommendationId : String
  operation : String
  issueId : String
  authoritativeSide : String
  targetSide : String
  repairConfidence : String
  executable : Bool
  changes : List String
  preconditions : List String
  postconditions : List String

structure IssueView where
  resultId : String
  status : String
  statusSymbol : String
  needsReview : Bool
  sourceNodeId : Option String
  localeNodeId : Option String
  sourcePath : Option String
  localePath : Option String
  nodeType : Option String
  sourceLabel : Option String
  localeLabel : Option String
  matchStatus : Option String
  matchConfidence : String
  operationConfidence : String
  repairConfidence : String
  evidenceCodes : List String
  recommendedAction : Option String
  policyExemption : Option String
  message : Option String

structure SuppressedView where
  resultId : String
  category : Option String
  rootOperationId : Option String
  suppressionRule : Option String
  confidence : String
  message : Option String

structure SummaryView where
  statusCounts : Dict String Nat
  nodeCounts : NodeCounts
  directIssueCount : Nat
  suppressedEffectCount : Nat
  unresolvedRegionCount : Nat

structure ReportView where
  jobId : String
  locale : String
  authoritativeSide : String
  versions : ProfileVersions
  summary : SummaryView
  rootCauses : List RootCauseView
  issues : List IssueView
  suppressed : List SuppressedView
  recommendations : List RecommendationView

def statusSymbols : List (String × String) :=
  [("CONFIRMED_MATCH", "OK"), ("PROBABLE_MATCH", "~"), ("AMBIGUOUS_MATCH", "?"), ("MISSING_IN_LOCALE", "-"),
    ("EXTRA_IN_LOCALE", "+"), ("WRONG_PARENT", "!"), ("WRONG_ORDER", "><"), ("MOVED", ">"), ("SOURCE_UPDATED", "*"),
    ("LOCALE_DIVERGED", "!"), ("IDENTIFIER_CONFLICT", "!!"), ("EXEMPT_LOCALE_VARIATION", "="), ("SUPPRESSED_EFFECT", ".")]

def reviewStatuses : List String := ["AMBIGUOUS_MATCH"]

section View
variable [ReportRuntime]

def confidenceText : Option Score → String
  | none => "—"
  | some value =>
    let band := if 4 / 5 ≤ value.val then "high" else if 1 / 2 ≤ value.val then "medium" else "low"
    band ++ " (" ++ ReportRuntime.fixed2 value ++ ")"

def issueView (row : ReportRow) : IssueView :=
  let status := row.localizationStatus.getD ""
  { resultId := row.resultId
    status := status
    statusSymbol := (statusSymbols.lookup status).getD "?"
    needsReview := status ∈ reviewStatuses
    sourceNodeId := row.sourceNodeId
    localeNodeId := row.localeNodeId
    sourcePath := row.sourcePath
    localePath := row.localePath
    nodeType := row.nodeType
    sourceLabel := row.sourceLabel
    localeLabel := row.localeLabel
    matchStatus := row.matchStatus
    matchConfidence := confidenceText row.matchConfidence
    operationConfidence := confidenceText row.operationConfidence
    repairConfidence := confidenceText row.repairConfidence
    evidenceCodes := row.evidenceCodes
    recommendedAction := row.recommendedAction
    policyExemption := row.policyExemption
    message := row.message }

def suppressedView (row : ReportRow) : SuppressedView where
  resultId := row.resultId
  category := row.operation
  rootOperationId := row.rootOperationId
  suppressionRule := row.suppressionRule
  confidence := confidenceText row.operationConfidence
  message := row.message

def rootCauseView (op : StructuralOperation) : RootCauseView where
  operationId := op.val.operationId
  type := op.val.type.value
  confidence := confidenceText (some (score op.val.confidence))
  evidenceCodes := op.val.evidenceCodes

def recommendationView (rec : RepairRecommendation) : RecommendationView where
  recommendationId := rec.recommendationId
  operation := rec.operation.value
  issueId := rec.issueId
  authoritativeSide := rec.authoritativeSide.value
  targetSide := rec.targetSide.value
  repairConfidence := confidenceText (some rec.repairConfidence)
  executable := rec.executable
  changes := sortedBy id (rec.changes.map (·.value))
  preconditions := rec.preconditions
  postconditions := rec.postconditions

def buildViewModel (result : LocalizationValidationResult) (table : ReportTable) : ReportView where
  jobId := result.jobId
  locale := result.locale
  authoritativeSide := result.authoritativeSide.value
  versions := result.reconciliation.profileVersions
  summary :=
    { statusCounts := result.summary.statusCounts
      nodeCounts := result.summary.nodeCounts
      directIssueCount := result.summary.directIssueCount
      suppressedEffectCount := result.summary.suppressedEffectCount
      unresolvedRegionCount := result.summary.unresolvedRegionCount }
  rootCauses := (result.reconciliation.causality.val.selected.rootOperationIds.filterMap fun opId =>
    (operationsById result.reconciliation).get? opId).map rootCauseView
  issues := (table.rows.filter fun row => !row.isSuppressed).map issueView
  suppressed := (table.rows.filter fun row => row.isSuppressed).map suppressedView
  recommendations := result.recommendations.map recommendationView

end View

/-! ## The page -/

/-- `text or ''`. -/
def orEmpty (text : Option String) : String := text.getD ""

/-- `text or "—"`. -/
def orDash (text : Option String) : String := escape ((Classification.truthy text).getD "—")

def joined (items : List String) : String := escape (String.intercalate ", " items)

def pageHead (report : ReportView) : String := String.join
  ["<!DOCTYPE html>\n<html lang=\"en\">\n<head>\n  <meta charset=\"utf-8\">\n",
    "  <meta name=\"viewport\" content=\"width=device-width, initial-scale=1\">\n",
    "  <title>Localization Reconciliation Report — ", escape report.jobId, "</title>\n",
    "  <style>", reportCss, "</style>\n</head>\n<body>\n  <header>\n",
    "    <h1>Localization Reconciliation Report</h1>\n    <dl class=\"meta\">\n",
    "      <div><dt>Job</dt><dd>", escape report.jobId, "</dd></div>\n",
    "      <div><dt>Locale</dt><dd>", escape report.locale, "</dd></div>\n",
    "      <div><dt>Authoritative side</dt><dd>", escape report.authoritativeSide, "</dd></div>\n",
    "      <div><dt>Engine</dt><dd>", escape report.versions.engineVersion, "</dd></div>\n",
    "      <div><dt>Matching profile</dt><dd>", escape report.versions.matchingProfileVersion, "</dd></div>\n",
    "    </dl>\n  </header>\n\n  <main>\n"]

def summarySection (summary : SummaryView) : String := String.join
  ["    <section aria-labelledby=\"summary-heading\">\n      <h2 id=\"summary-heading\">Summary</h2>\n",
    "      <dl class=\"summary\">\n",
    String.join (summary.statusCounts.entries.map fun e => String.join
      ["        <div><dt>", escape e.1, "</dt><dd>", toString e.2, "</dd></div>\n"]),
    "        <div><dt>Direct issues</dt><dd>", toString summary.directIssueCount, "</dd></div>\n",
    "        <div><dt>Suppressed effects</dt><dd>", toString summary.suppressedEffectCount, "</dd></div>\n",
    "        <div><dt>Unresolved regions</dt><dd>", toString summary.unresolvedRegionCount, "</dd></div>\n",
    "      </dl>\n    </section>\n\n"]

def rootCauseItem (rc : RootCauseView) : String := String.join
  ["        <li><strong>", escape rc.type, "</strong> (", escape rc.operationId, ") — confidence ", escape rc.confidence, "\n",
    if rc.evidenceCodes = [] then "" else "<span class=\"evidence\">[" ++ joined rc.evidenceCodes ++ "]</span>",
    "        </li>\n"]

def rootCauseSection (rootCauses : List RootCauseView) : String := String.join
  ["    <section aria-labelledby=\"rootcause-heading\">\n      <h2 id=\"rootcause-heading\">Root causes</h2>\n",
    if rootCauses = [] then "      <p>No structural root causes detected.</p>\n"
    else "      <ul class=\"root-causes\">\n" ++ String.join (rootCauses.map rootCauseItem) ++ "      </ul>\n",
    "    </section>\n\n"]

def filters (summary : SummaryView) : String := String.join
  ["    <nav aria-label=\"Issue filters\">\n      <form id=\"filters\">\n",
    "        <label for=\"status-filter\">Filter by status</label>\n",
    "        <select id=\"status-filter\" name=\"status\">\n          <option value=\"\">All statuses</option>\n",
    String.join (summary.statusCounts.keys.map fun status => String.join
      ["          <option value=\"", escape status, "\">", escape status, "</option>\n"]),
    "        </select>\n        <label for=\"text-filter\">Search</label>\n",
    "        <input id=\"text-filter\" name=\"text\" type=\"search\" placeholder=\"id, label, or message\">\n",
    "      </form>\n    </nav>\n\n"]

def tableHead : String := String.join
  ["    <section aria-labelledby=\"issues-heading\">\n      <h2 id=\"issues-heading\">Issues</h2>\n",
    "      <table id=\"issues-table\">\n",
    "        <caption>Reported source-to-locale correspondences and issues</caption>\n        <thead>\n          <tr>\n",
    "            <th scope=\"col\">Status</th>\n            <th scope=\"col\">Source</th>\n",
    "            <th scope=\"col\">Locale</th>\n            <th scope=\"col\">Match confidence</th>\n",
    "            <th scope=\"col\">Operation confidence</th>\n            <th scope=\"col\">Repair confidence</th>\n",
    "            <th scope=\"col\">Action</th>\n          </tr>\n        </thead>\n        <tbody>\n"]

/-- The texts a reader can search a row by. -/
def searchText (issue : IssueView) : String :=
  orEmpty issue.sourceNodeId ++ " " ++ orEmpty issue.localeNodeId ++ " " ++ orEmpty issue.sourceLabel ++ " " ++
    orEmpty issue.localeLabel ++ " " ++ orEmpty issue.message

def rowOpening (issue : IssueView) : String := String.join
  ["          <tr data-status=\"", escape issue.status, "\"\n              data-search=\""]

def statusCell (issue : IssueView) : String := String.join
  ["\">\n            <th scope=\"row\">\n              <span class=\"status status--", escape issue.status.toLower, "\">\n",
    "                <span class=\"status__symbol\" aria-hidden=\"true\">", escape issue.statusSymbol, "</span>\n",
    "                <span class=\"status__text\">", escape issue.status, "</span>\n              </span>\n",
    if issue.needsReview then "<span class=\"review-flag\">Human review required</span>" else "",
    "            </th>\n"]

/-- A node's cell: its id, its label and its path. -/
def idCell (nodeId : Option String) : String := String.join
  ["            <td>\n              <span class=\"node-id\">", orDash nodeId, "</span>\n"]

def labelSpan (label : Option String) : String := fragment "<span class=\"label\">" "</span>" (orEmpty label)

def pathSpan (path : Option String) : String :=
  fragment "<span class=\"path\">" "</span>" (orEmpty path) ++ "            </td>\n"

def confidenceCells (issue : IssueView) : String := String.join
  ["            <td>", escape issue.matchConfidence, "</td>\n            <td>", escape issue.operationConfidence,
    "</td>\n            <td>", escape issue.repairConfidence, "</td>\n            <td>", orDash issue.recommendedAction,
    "</td>\n          </tr>\n"]

def messageText (message : Option String) : String := fragment "<p class=\"message\">" "</p>" (orEmpty message)

/-- The rest of the detail row, after the message. -/
def detailText (issue : IssueView) : String := String.join
  [if issue.evidenceCodes = [] then "" else "<p class=\"evidence\">Evidence: " ++ joined issue.evidenceCodes ++ "</p>",
    fragment "<p class=\"exemption\">Policy exemption: " "</p>" (orEmpty issue.policyExemption),
    "            </td>\n          </tr>\n"]

def detailRow (issue : IssueView) : String :=
  if issue.evidenceCodes = [] ∧ orEmpty issue.message = "" ∧ orEmpty issue.policyExemption = "" then ""
  else String.join
    ["          <tr class=\"detail-row\" data-status=\"", escape issue.status, "\">\n            <td colspan=\"7\">\n",
      messageText issue.message, detailText issue]

def issueRows (issue : IssueView) : String := String.join
  [rowOpening issue, escape (searchText issue), statusCell issue, idCell issue.sourceNodeId, labelSpan issue.sourceLabel,
    pathSpan issue.sourcePath, idCell issue.localeNodeId, labelSpan issue.localeLabel, pathSpan issue.localePath,
    confidenceCells issue, detailRow issue]

def tableFoot : String := "        </tbody>\n      </table>\n    </section>\n\n"

def recommendationItem (rec : RecommendationView) : String := String.join
  ["        <li>\n          <strong>", escape rec.operation, "</strong> for issue ", escape rec.issueId,
    " —\n          repair confidence ", escape rec.repairConfidence, ",\n          executable: ",
    if rec.executable then "yes" else "no", ".\n          <span class=\"changes\">Changes: ", joined rec.changes,
    ".</span>\n          <details>\n            <summary>Preconditions</summary>\n            <ul>",
    String.join (rec.preconditions.map fun pre => "<li>" ++ escape pre ++ "</li>"),
    "</ul>\n          </details>\n        </li>\n"]

def recommendationSection (recommendations : List RecommendationView) : String := String.join
  ["    <section aria-labelledby=\"recs-heading\">\n      <h2 id=\"recs-heading\">Recommendations</h2>\n",
    if recommendations = [] then "      <p>No recommendations generated.</p>\n"
    else "      <ul class=\"recommendations\">\n" ++ String.join (recommendations.map recommendationItem) ++ "      </ul>\n",
    "    </section>\n\n"]

/-- `{{ text }}`. -/
def shown (text : Option String) : String := escape (text.getD "None")

def suppressedItem (s : SuppressedView) : String := String.join
  ["          <li>", shown s.category, " — root ", shown s.rootOperationId, ", rule ", shown s.suppressionRule,
    ", confidence ", escape s.confidence, "</li>\n"]

def suppressedSection (suppressed : List SuppressedView) : String := String.join
  ["    <section aria-labelledby=\"suppressed-heading\">\n      <h2 id=\"suppressed-heading\">Suppressed effects (",
    toString suppressed.length, ")</h2>\n      <details>\n        <summary>Reveal suppressed derived effects</summary>\n",
    if suppressed = [] then "        <p>No effects were suppressed.</p>\n"
    else "        <ul class=\"suppressed\">\n" ++ String.join (suppressed.map suppressedItem) ++ "        </ul>\n",
    "      </details>\n    </section>\n"]

def pageFoot : String := String.join
  ["  </main>\n\n  <script>", reportJs, "</script>\n</body>\n</html>"]

def page (report : ReportView) : String := String.join
  [pageHead report, summarySection report.summary, rootCauseSection report.rootCauses, filters report.summary, tableHead,
    String.join (report.issues.map issueRows), tableFoot, recommendationSection report.recommendations,
    suppressedSection report.suppressed, pageFoot]

/-- `HtmlReportRenderer.render`: it builds a table of its own, with the given options. -/
def renderHtml [ReportRuntime] (result : LocalizationValidationResult) (sourceTree localeTree : Option CanonicalTree)
    (options : Option ReportOptions) : String :=
  page (buildViewModel result (buildReportTable result sourceTree localeTree (options.getD {}) []))

end Reconciliation.Reporting
