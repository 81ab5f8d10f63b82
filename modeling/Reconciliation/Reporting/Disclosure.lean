/-
  Reconciliation.Reporting.Disclosure — what a rendered artifact tells of the texts in it.

  Two issues are the same but for their texts when they agree once the labels and the message
  are taken out (`LocalizationIssue.masked`). The CSV of two tables differs where a cell does
  (`renderCsv_injective`), the full JSON of two results where a text does
  (`texts_of_renderFull`), and the page where a text does, unless one is missing and the
  other empty (`page_eq_iff`).
-/
import Reconciliation.Reporting.Html
import Reconciliation.Reporting.Renderers

namespace Reconciliation.Reporting

open Reconciliation.Base Reconciliation.Base.Text Reconciliation.Contracts Reconciliation.Localization

/-! ## CSV -/

section Csv
variable {quotes : Char → Bool}

theorem csvRecords_injective {records records' : List (List String)} (hlen : ∀ r ∈ records, 2 ≤ r.length)
    (hlen' : ∀ r ∈ records', 2 ≤ r.length) (hsize : records.length = records'.length)
    (h : String.join (records.map (csvRecord quotes)) = String.join (records'.map (csvRecord quotes))) :
    records = records' := by
  induction records generalizing records' with
  | nil => exact (List.length_eq_zero_iff.mp hsize.symm).symm
  | cons r records ih =>
    cases records' with
    | nil => simp at hsize
    | cons r' records' =>
      rw [List.map_cons, List.map_cons, String.join_cons, String.join_cons] at h
      obtain ⟨rfl, hrest⟩ := csvRecord_cancel (hlen r List.mem_cons_self) (hlen' r' List.mem_cons_self) h
      rw [ih (fun r hr => hlen r (List.mem_cons_of_mem _ hr)) (fun r hr => hlen' r (List.mem_cons_of_mem _ hr))
        (Nat.succ.inj hsize) hrest]

/-- Tables of one size with the same CSV have the same cells. -/
theorem renderCsv_injective [ReportRuntime] {table table' : ReportTable} (hsize : table.rows.length = table'.rows.length)
    (h : renderCsv table = renderCsv table') : table.rows.map cells = table'.rows.map cells := by
  have hlen : ∀ rows : List ReportRow, ∀ r ∈ ReportTable.columns :: rows.map cells, 2 ≤ r.length := by
    intro rows r hr
    rcases List.mem_cons.mp hr with rfl | hr
    · decide
    · obtain ⟨row, -, rfl⟩ := List.mem_map.mp hr
      show 2 ≤ 27
      decide
  have hrecords := csvRecords_injective (hlen table.rows) (hlen table'.rows) (by simp [hsize]) h
  exact (List.cons.inj hrecords).2

end Csv

/-! ## Issues up to their texts -/

section Texts
variable {α β γ δ : Type}

/-- What two functions tell of two lists, a third that they determine tells as well. -/
theorem map_eq_of_maps {f : α → β} {g : α → γ} {k : α → δ} (hk : ∀ a b, f a = f b → g a = g b → k a = k b) {l l' : List α}
    (hf : l.map f = l'.map f) (hg : l.map g = l'.map g) : l.map k = l'.map k := by
  induction l generalizing l' with
  | nil => rw [List.map_nil, List.map_eq_nil_iff.mp hf.symm, List.map_nil]
  | cons a l ih =>
    cases l' with
    | nil => cases hf
    | cons b l' =>
      obtain ⟨hfa, hf⟩ := List.cons.inj hf
      obtain ⟨hga, hg⟩ := List.cons.inj hg
      rw [List.map_cons, List.map_cons, hk a b hfa hga, ih hf hg]

theorem map_eq_of_map {f : α → β} {k : α → δ} (hk : ∀ a b, f a = f b → k a = k b) {l l' : List α}
    (hf : l.map f = l'.map f) : l.map k = l'.map k :=
  map_eq_of_maps (fun a b hab _ => hk a b hab) hf hf

/-- The issue without its labels and its message. -/
def masked (issue : LocalizationIssue) : LocalizationIssue :=
  { issue with sourceLabel := none, localeLabel := none, message := none }

/-- The labels and the message of an issue, as far as a view of texts shows them. -/
def texts (view : Option String → α) (issue : LocalizationIssue) : α × α × α :=
  (view issue.sourceLabel, view issue.localeLabel, view issue.message)

/-- What does not read the texts is the same of issues that are the same without them. -/
theorem masked_congr {f : LocalizationIssue → α} {issue issue' : LocalizationIssue} (h : masked issue = masked issue')
    (hf : ∀ i, f (masked i) = f i) : f issue = f issue' := by rw [← hf issue, h, hf]

theorem eq_of_masked {issue issue' : LocalizationIssue} (hmasked : masked issue = masked issue')
    (htexts : texts id issue = texts id issue') : issue = issue' := by
  simp only [masked, LocalizationIssue.mk.injEq] at hmasked
  simp only [texts, id, Prod.mk.injEq] at htexts
  cases issue
  cases issue'
  simp_all

/-- The issues are the same when they are so without their texts, and the texts are. -/
theorem issues_eq_iff {issues issues' : List LocalizationIssue} (h : issues.map masked = issues'.map masked) :
    issues = issues' ↔ issues.map (texts id) = issues'.map (texts id) := by
  refine ⟨fun heq => heq ▸ rfl, fun htexts => ?_⟩
  have heq := map_eq_of_maps (k := id) (fun _ _ => eq_of_masked) h htexts
  rwa [List.map_id, List.map_id] at heq

end Texts

/-! ## JSON -/

section Json

theorem shape_text (text : Option String) : (FieldValue.text text).json.shape = .null := by
  cases text <;> rfl

theorem json_text_inj {a b : Option String} (h : (FieldValue.text a).json = (FieldValue.text b).json) : a = b := by
  cases a <;> cases b <;> simp [FieldValue.text, FieldValue.json] at h
  · rfl
  · rw [h]

variable [ReportRuntime]

theorem issueJson_shape (issue : LocalizationIssue) : (issueJson (masked issue)).shape = (issueJson issue).shape := by
  simp only [issueJson, Json.shape, Json.shapeEntries, shape_text, masked]

theorem texts_of_issueJson {issue issue' : LocalizationIssue} (h : issueJson issue = issueJson issue') :
    texts id issue = texts id issue' := by
  simp only [issueJson, Json.object.injEq, List.cons.injEq, Prod.mk.injEq, true_and, and_true] at h
  have hsource := json_text_inj h.2.2.2.2.2.2.2.1
  have hlocale := json_text_inj h.2.2.2.2.2.2.2.2.1
  have hmessage := json_text_inj h.2.2.2.2.2.2.2.2.2.2.2.2.2.2.2.2.2.2.2
  simp only [texts, id, hsource, hlocale, hmessage]

/-- Where the tables have one shape, the full JSON tells every text of the issues. -/
theorem texts_of_renderFull {result : LocalizationValidationResult} {issues : List LocalizationIssue}
    {table table' : ReportTable} (hissues : result.issues.map masked = issues.map masked)
    (hrows : table.rows.map (fun row => (rowJson row).shape) = table'.rows.map fun row => (rowJson row).shape)
    (h : renderFull result table = renderFull { result with issues := issues } table') :
    result.issues.map (texts id) = issues.map (texts id) := by
  have hshape : (payload result table).shape = (payload { result with issues := issues } table').shape := by
    have hi : (result.issues.map issueJson).map Json.shape = (issues.map issueJson).map Json.shape := by
      rw [List.map_map, List.map_map]
      exact map_eq_of_map (fun _ _ hab => masked_congr hab issueJson_shape) hissues
    have hr : (table.rows.map rowJson).map Json.shape = (table'.rows.map rowJson).map Json.shape := by
      rw [List.map_map, List.map_map]
      exact hrows
    simp only [payload, Json.shape, Json.shapeEntries, Json.shapeItems_eq, hi, hr]
  have hpayload := Json.dumps_injective hshape h
  simp only [payload, Json.object.injEq, List.cons.injEq, Prod.mk.injEq, true_and, and_true, Json.array.injEq] at hpayload
  exact map_eq_of_map (fun _ _ => texts_of_issueJson) hpayload.2.1

end Json

/-! ## The page -/

section Page

/-- The issue without its labels and its message. -/
def IssueView.blank (issue : IssueView) : IssueView :=
  { issue with sourceLabel := none, localeLabel := none, message := none }

/-- The texts the page shows. -/
def IssueView.printed (issue : IssueView) : String × String × String :=
  (orEmpty issue.sourceLabel, orEmpty issue.localeLabel, orEmpty issue.message)

variable {issue issue' : IssueView} {x y : String}

theorem blank_congr {α : Type} {f : IssueView → α} (h : issue.blank = issue'.blank) (hf : ∀ i, f i.blank = f i) :
    f issue = f issue' := by rw [← hf issue, h, hf]

theorem atMarkup_span (z : String) : AtMarkup ("</span>" ++ z) := Or.inl (by simp)

theorem atMarkup_p (z : String) : AtMarkup ("</p>" ++ z) := Or.inl (by simp)

theorem atMarkup_statusCell (issue : IssueView) (z : String) : AtMarkup (statusCell issue ++ z) := by
  rw [statusCell, String.join_cons, String.append_assoc]
  exact Or.inr (head_append (by decide) _)

/-- No label follows a label. -/
theorem pathSpan_ne (path : Option String) (z w : String) : pathSpan path ++ z ≠ "<span class=\"label\">" ++ w := by
  intro h
  replace h := congrArg String.toList h
  by_cases hp : orEmpty path = "" <;> simp [pathSpan, fragment, hp] at h

theorem labelSpan_cancel {label label' path path' : Option String}
    (h : labelSpan label ++ (pathSpan path ++ x) = labelSpan label' ++ (pathSpan path' ++ y)) :
    orEmpty label = orEmpty label' ∧ pathSpan path ++ x = pathSpan path' ++ y :=
  fragment_cancel atMarkup_span (pathSpan_ne path x) (pathSpan_ne path' y) h

/-- No message follows a message. -/
theorem detailText_ne (issue : IssueView) (z w : String) : detailText issue ++ z ≠ "<p class=\"message\">" ++ w := by
  intro h
  replace h := congrArg String.toList h
  by_cases he : issue.evidenceCodes = [] <;> by_cases hp : orEmpty issue.policyExemption = "" <;>
    simp [detailText, fragment, he, hp] at h

/-- No detail row begins the text. -/
def NoDetail (x : String) : Prop := ∀ z, x ≠ "          <tr class=\"detail-row\" data-status=\"" ++ z

theorem detailRow_cancel (h : issue.blank = issue'.blank) (hx : NoDetail x) (hy : NoDetail y)
    (heq : detailRow issue ++ x = detailRow issue' ++ y) : orEmpty issue.message = orEmpty issue'.message ∧ x = y := by
  have hstatus : issue.status = issue'.status := blank_congr h fun _ => rfl
  have hcodes : issue.evidenceCodes = issue'.evidenceCodes := blank_congr h fun _ => rfl
  have hexempt : issue.policyExemption = issue'.policyExemption := blank_congr h fun _ => rfl
  have hdetail : detailText issue = detailText issue' := blank_congr h fun _ => rfl
  unfold detailRow at heq
  rw [hcodes, hexempt, hstatus] at heq
  split_ifs at heq with hnone hnone' hnone'
  · exact ⟨hnone.2.1.trans hnone'.2.1.symm, by simpa using heq⟩
  · rw [String.empty_append, String.join_cons, String.append_assoc] at heq
    exact absurd heq (hx _)
  · rw [String.empty_append, String.join_cons, String.append_assoc] at heq
    exact absurd heq.symm (hy _)
  · simp only [String.join_cons, String.join_nil, String.append_empty, String.append_assoc, String.append_right_inj] at heq
    obtain ⟨hmessage, hrest⟩ := fragment_cancel atMarkup_p (detailText_ne issue x) (detailText_ne issue' y) heq
    rw [hdetail, String.append_right_inj] at hrest
    exact ⟨hmessage, hrest⟩

/-- The rows of an issue tell its texts, as the page shows them. -/
theorem issueRows_cancel (h : issue.blank = issue'.blank) (hx : NoDetail x) (hy : NoDetail y)
    (heq : issueRows issue ++ x = issueRows issue' ++ y) : issue.printed = issue'.printed ∧ x = y := by
  have hopening : rowOpening issue = rowOpening issue' := blank_congr h fun _ => rfl
  have hstatus : statusCell issue = statusCell issue' := blank_congr h fun _ => rfl
  have hsource : issue.sourceNodeId = issue'.sourceNodeId := blank_congr h fun _ => rfl
  have hlocale : issue.localeNodeId = issue'.localeNodeId := blank_congr h fun _ => rfl
  have hsourcePath : issue.sourcePath = issue'.sourcePath := blank_congr h fun _ => rfl
  have hlocalePath : issue.localePath = issue'.localePath := blank_congr h fun _ => rfl
  have hconfidence : confidenceCells issue = confidenceCells issue' := blank_congr h fun _ => rfl
  simp only [issueRows, String.join_cons, String.join_nil, String.append_empty, String.append_assoc, hopening, hsource,
    hlocale, hsourcePath, hlocalePath, hconfidence, String.append_right_inj] at heq
  -- the text to search by comes first; each label and the message are then read off on their own
  obtain ⟨-, heq⟩ := escape_cancel (atMarkup_statusCell issue _) (atMarkup_statusCell issue' _) heq
  rw [hstatus] at heq
  simp only [String.append_right_inj] at heq
  obtain ⟨hsourceLabel, heq⟩ := labelSpan_cancel heq
  simp only [String.append_right_inj] at heq
  obtain ⟨hlocaleLabel, heq⟩ := labelSpan_cancel heq
  simp only [String.append_right_inj] at heq
  obtain ⟨hmessage, heq⟩ := detailRow_cancel h hx hy heq
  exact ⟨by rw [IssueView.printed, IssueView.printed, hsourceLabel, hlocaleLabel, hmessage], heq⟩

theorem issueRows_congr (h : issue.blank = issue'.blank) (hprinted : issue.printed = issue'.printed) :
    issueRows issue = issueRows issue' := by
  have hopening : rowOpening issue = rowOpening issue' := blank_congr h fun _ => rfl
  have hstatus : statusCell issue = statusCell issue' := blank_congr h fun _ => rfl
  have hconfidence : confidenceCells issue = confidenceCells issue' := blank_congr h fun _ => rfl
  have hdetail : detailText issue = detailText issue' := blank_congr h fun _ => rfl
  simp only [IssueView.blank, IssueView.mk.injEq] at h
  simp only [IssueView.printed, Prod.mk.injEq] at hprinted
  simp only [issueRows, hopening, hstatus, hconfidence, searchText, labelSpan, detailRow, messageText, hdetail, h, hprinted]

/-- A row of the table is no detail row. -/
theorem noDetail_issueRows (issue : IssueView) (z : String) : NoDetail (issueRows issue ++ z) := by
  intro w h
  replace h := congrArg String.toList h
  simp [issueRows, rowOpening] at h

theorem printed_of_rows {issues issues' : List IssueView} (h : issues.map IssueView.blank = issues'.map IssueView.blank)
    (hx : NoDetail x) (hy : NoDetail y)
    (heq : String.join (issues.map issueRows) ++ x = String.join (issues'.map issueRows) ++ y) :
    issues.map IssueView.printed = issues'.map IssueView.printed := by
  have hnext : ∀ {z : String} (rest : List IssueView), NoDetail z → NoDetail (String.join (rest.map issueRows) ++ z) := by
    intro z rest hz
    cases rest with
    | nil => simpa using hz
    | cons next rest =>
      rw [List.map_cons, String.join_cons, String.append_assoc]
      exact noDetail_issueRows next _
  induction issues generalizing issues' with
  | nil => rw [List.map_nil, List.map_eq_nil_iff.mp h.symm, List.map_nil]
  | cons issue issues ih =>
    cases issues' with
    | nil => cases h
    | cons issue' issues' =>
      obtain ⟨hblank, h⟩ := List.cons.inj h
      rw [List.map_cons, List.map_cons, String.join_cons, String.join_cons, String.append_assoc, String.append_assoc] at heq
      obtain ⟨hprinted, heq⟩ := issueRows_cancel hblank (hnext issues hx) (hnext issues' hy) heq
      rw [List.map_cons, List.map_cons, hprinted, ih h heq]

/-- Two pages that are the same but for the texts of their issues are the same when these are shown alike. -/
theorem page_eq_iff {report : ReportView} {issues : List IssueView}
    (h : report.issues.map IssueView.blank = issues.map IssueView.blank) :
    page report = page { report with issues := issues } ↔
      report.issues.map IssueView.printed = issues.map IssueView.printed := by
  have hfoot : ∀ z, NoDetail (tableFoot ++ z) := by
    intro z w heq
    replace heq := congrArg String.toList heq
    simp [tableFoot] at heq
  constructor
  · intro heq
    have hhead : pageHead { report with issues := issues } = pageHead report := rfl
    simp only [page, String.join_cons, String.join_nil, String.append_empty, hhead, String.append_right_inj] at heq
    exact printed_of_rows h (hfoot _) (hfoot _) heq
  · intro hprinted
    have hrows : report.issues.map issueRows = issues.map issueRows :=
      map_eq_of_maps (fun _ _ => issueRows_congr) h hprinted
    have hhead : pageHead { report with issues := issues } = pageHead report := rfl
    simp only [page, hhead, hrows]

end Page

end Reconciliation.Reporting
