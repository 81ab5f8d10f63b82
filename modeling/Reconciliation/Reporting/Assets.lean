/-
  Reconciliation.Reporting.Assets — the stylesheet and the script that every page embeds.
-/
import Mathlib.Data.String.Basic

namespace Reconciliation.Reporting

/-- `static/report.css`. -/
def reportCss : String := String.join
  ["/* Self-contained report styles. Status is never conveyed by color alone\n",
    "   (REQ-239): each status also carries a textual symbol and its name. Focus\n",
    "   outlines are preserved for keyboard operability (REQ-238). */\n:root \x7b\n  --fg: #1a1a1a;\n",
    "  --muted: #555;\n  --border: #cccccc;\n  --bg-alt: #f4f4f4;\n\x7d\n* \x7b box-sizing: border-box; \x7d\n",
    "body \x7b\n  font-family: system-ui, -apple-system, \"Segoe UI\", Roboto, sans-serif;\n  color: var(--fg);\n",
    "  margin: 0;\n  padding: 1.5rem;\n  line-height: 1.5;\n\x7d\nh1 \x7b font-size: 1.6rem; \x7d\n",
    "h2 \x7b font-size: 1.2rem; border-bottom: 2px solid var(--border); padding-bottom: 0.25rem; \x7d\n",
    "header .meta, .summary \x7b display: flex; flex-wrap: wrap; gap: 0.5rem 1.5rem; \x7d\n",
    "dl.meta div, dl.summary div \x7b display: flex; gap: 0.4rem; \x7d\n",
    "dl dt \x7b font-weight: 600; color: var(--muted); \x7d\ndl dd \x7b margin: 0; \x7d\n",
    "nav form \x7b display: flex; flex-wrap: wrap; gap: 0.5rem 1rem; align-items: center; \x7d\n",
    "nav label \x7b font-weight: 600; \x7d\n",
    "table \x7b border-collapse: collapse; width: 100%; margin-top: 0.5rem; \x7d\n",
    "caption \x7b text-align: left; color: var(--muted); padding-bottom: 0.3rem; \x7d\n",
    "th, td \x7b border: 1px solid var(--border); padding: 0.4rem 0.6rem; text-align: left; vertical-align: top; \x7d\n",
    "thead th \x7b background: var(--bg-alt); \x7d\n",
    "tbody tr:nth-child(4n+1), tbody tr:nth-child(4n+2) \x7b background: #fbfbfb; \x7d\n",
    ".status \x7b display: inline-flex; gap: 0.35rem; align-items: baseline; font-weight: 600; \x7d\n",
    ".status__symbol \x7b font-family: monospace; border: 1px solid var(--border); border-radius: 3px; padding: 0 0.25rem; \x7d\n",
    ".review-flag \x7b display: inline-block; margin-left: 0.4rem; font-weight: 700; text-decoration: underline; \x7d\n",
    ".node-id \x7b font-family: monospace; \x7d\n.label \x7b display: block; color: var(--fg); \x7d\n",
    ".path \x7b display: block; color: var(--muted); font-size: 0.85em; font-family: monospace; \x7d\n",
    ".detail-row td \x7b background: #fafafa; color: var(--muted); \x7d\n",
    ".evidence, .exemption, .message \x7b margin: 0.2rem 0; \x7d\n",
    ":focus \x7b outline: 3px solid #1a73e8; outline-offset: 1px; \x7d\n",
    "details summary \x7b cursor: pointer; font-weight: 600; \x7d\n[hidden] \x7b display: none !important; \x7d\n"]

/-- `static/report.js`. -/
def reportJs : String := String.join
  ["// Presentation-only interactivity. This script filters and reveals rows based\n",
    "// on client-side presentation state; it never modifies the embedded engine\n",
    "// data (report state is client-side only). Uses only native controls so the\n",
    "// report remains keyboard operable (REQ-238).\n(function () \x7b\n  \"use strict\";\n",
    "  var statusFilter = document.getElementById(\"status-filter\");\n",
    "  var textFilter = document.getElementById(\"text-filter\");\n",
    "  var table = document.getElementById(\"issues-table\");\n  if (!table) \x7b return; \x7d\n",
    "  var body = table.tBodies[0];\n\n  function rowMatches(row, status, text) \x7b\n",
    "    var rowStatus = row.getAttribute(\"data-status\") || \"\";\n",
    "    if (status && rowStatus !== status) \x7b return false; \x7d\n    if (text) \x7b\n",
    "      var haystack = (row.getAttribute(\"data-search\") || \"\").toLowerCase();\n",
    "      if (haystack.indexOf(text) === -1) \x7b return false; \x7d\n    \x7d\n    return true;\n  \x7d\n\n",
    "  function apply() \x7b\n    var status = statusFilter ? statusFilter.value : \"\";\n",
    "    var text = textFilter ? textFilter.value.trim().toLowerCase() : \"\";\n    var rows = body.rows;\n",
    "    var i;\n    // Rows come in pairs: a data row followed by an optional detail row that\n",
    "    // shares the same data-status. Toggle visibility without altering content.\n",
    "    for (i = 0; i < rows.length; i++) \x7b\n      var row = rows[i];\n",
    "      row.hidden = !rowMatches(row, status, text);\n    \x7d\n  \x7d\n\n",
    "  if (statusFilter) \x7b statusFilter.addEventListener(\"change\", apply); \x7d\n",
    "  if (textFilter) \x7b textFilter.addEventListener(\"input\", apply); \x7d\n\x7d)();\n"]

end Reconciliation.Reporting
