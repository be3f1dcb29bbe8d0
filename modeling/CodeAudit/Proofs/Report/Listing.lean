import CodeAudit.Proofs.Report.Grouping

namespace CodeAudit

open Ordered

namespace AnalysisResult

/-- Results as they come about: put together from parts, or empty; then changed step by step. -/
inductive Obtained : AnalysisResult → Prop
  | built (p : ResultParts) : Obtained p.build
  | empty : Obtained {}
  | withFindings {r : AnalysisResult} (fs : List Finding) (h : Obtained r) :
      Obtained (r.withFindings fs)
  | withNotification {r : AnalysisResult} (n : Notification) (h : Obtained r) :
      Obtained (r.withNotification n)
  | withNotifications {r : AnalysisResult} (ns : List Notification) (h : Obtained r) :
      Obtained (r.withNotifications ns)
  | withMetric {r : AnalysisResult} (name : String) (value : Int) (h : Obtained r) :
      Obtained (r.withMetric name value)

theorem Obtained.ascending {r : AnalysisResult} (h : Obtained r) :
    Ascending Finding.order r.findings := by
  induction h with
  | built p => exact Finding.ascending_sort _
  | empty => exact .nil
  | withFindings fs h ih => exact Finding.ascending_sort fs
  | withNotification n h ih => exact ih
  | withNotifications ns h ih => exact ih
  | withMetric name value h ih => exact ih

theorem count_add_count_add_count (r : AnalysisResult) :
    r.count .error + r.count .warning + r.count .info = r.findings.length := by
  unfold count
  induction r.findings with
  | nil => rfl
  | cons f fs ih =>
    simp only [List.countP_cons, List.length_cons]
    cases f.severity <;> simp <;> omega

end AnalysisResult

namespace TextReport

/-! ### The parts of a report without colours -/

def plainLine (f : Finding) : String :=
  "  " ++ toString f.location.line ++ ":" ++ toString f.location.column ++ "  " ++
    f.severity.text ++ "  " ++ f.message ++ "  " ++
    ("[" ++ f.ruleSetId ++ ":" ++ f.ruleId ++ "]") ++ "\n"

/-- A header, the findings below it, and a blank line. -/
def plainBlock (group : Path × List Finding) : String :=
  group.1.text ++ "\n" ++ String.join (group.2.map plainLine) ++ "\n"

/-- The numbers that are not zero, in brackets. -/
def plainCounts (errors warnings infos : Nat) : String :=
  let counts := ([(errors, "error", "errors"), (warnings, "warning", "warnings"),
    (infos, "info", "infos")].filter fun c => c.1 != 0).map fun c => countText c.1 c.2.1 c.2.2
  if counts.isEmpty then "" else " (" ++ ", ".intercalate counts ++ ")"

def plainSummary (findings files errors warnings infos : Nat) : String :=
  "\n" ++ countText findings "finding" "findings" ++ " in " ++ countText files "file" "files" ++
    plainCounts errors warnings infos ++ "\n"

variable {report : TextReport}

theorem findingLine_plain (h : report.colored = false) (f : Finding) :
    report.findingLine f = plainLine f := by
  unfold findingLine plainLine
  simp only [paint, Style.applyIf, h, Bool.false_eq_true, if_false]

theorem fileBlock_plain (h : report.colored = false) (group : Path × List Finding) :
    report.fileBlock group = plainBlock group := by
  simp only [fileBlock, plainBlock, paint, Style.applyIf, h, Bool.false_eq_true, if_false,
    funext (findingLine_plain h)]

theorem notificationLine_plain (h : report.colored = false) (n : Notification) :
    report.notificationLine n = n.text ++ "\n" := by
  simp only [notificationLine, Notification.text, paint, Style.applyIf, h, Bool.false_eq_true,
    if_false]

theorem summary_plain (h : report.colored = false) (r : AnalysisResult) :
    report.summary r = plainSummary r.findings.length (byFile r.findings).length (r.count .error)
      (r.count .warning) (r.count .info) := by
  have hcounts : report.severityCounts r =
      ([(r.count .error, "error", "errors"), (r.count .warning, "warning", "warnings"),
        (r.count .info, "info", "infos")].filter fun c => c.1 != 0).map fun c =>
          countText c.1 c.2.1 c.2.2 := by
    simp only [severityCounts, paint, Style.applyIf, h, Bool.false_eq_true, if_false]
    cases r.count .error <;> cases r.count .warning <;> cases r.count .info <;> rfl
  simp only [summary, plainSummary, plainCounts, hcounts]

/-- A report without colours on a result that has something to report. Its findings are in report
order. The report has one block for each file: the path that the first of its findings gives, then
its findings; the blocks together list the findings of the result, each once and in order. The
summary counts the blocks, and its numbers of errors, warnings and infos are those of the findings,
which add up. -/
theorem plain_report_lists_findings {r : AnalysisResult} (hr : r.Obtained)
    (hplain : report.colored = false) (hsome : r.findings ≠ [] ∨ r.notifications ≠ []) :
    Ascending Finding.order r.findings ∧
      ∃ groups errors warnings infos,
        report.render r = some (String.join (groups.map plainBlock) ++
          String.join (r.notifications.map fun n => n.text ++ "\n") ++
          (if report.metrics then metricsBlock r.metrics else "") ++
          if report.stats then
            plainSummary r.findings.length groups.length errors warnings infos
          else "") ∧
        Grouped r.findings groups ∧
        errors = r.count .error ∧ warnings = r.count .warning ∧ infos = r.count .info ∧
        errors + warnings + infos = r.findings.length := by
  have hascending := hr.ascending
  refine ⟨hascending, byFile r.findings, _, _, _, ?_, grouped_byFile hascending, rfl, rfl, rfl,
    r.count_add_count_add_count⟩
  have hrender : (r.findings.isEmpty && r.notifications.isEmpty) = false := by
    rw [Bool.and_eq_false_iff]
    exact hsome.imp List.isEmpty_eq_false_iff.mpr List.isEmpty_eq_false_iff.mpr
  rw [render, hrender, summary_plain hplain, funext (fileBlock_plain hplain),
    funext (notificationLine_plain hplain)]
  rfl

namespace Spellings

/-- A finding of one rule in the first column of a line. -/
def found (path : String) (line : Nat) (severity : Severity) : Finding where
  ruleId := "LongMethod"
  ruleSetId := "complexity"
  severity
  message := "too long"
  entity := {
    name := "f", signature := "f", location := ⟨⟨path⟩, { startLine := line, startColumn := 1 }⟩ }

/-- Findings of two files, one of them with its path written in two ways. -/
def findings : List Finding :=
  [found "b.kt" 3 .warning, found "a//x.kt" 9 .error, found "a/x.kt" 2 .info,
    found "a/x.kt" 30 .error]

def sorted : List Finding :=
  [found "a/x.kt" 2 .info, found "a//x.kt" 9 .error, found "a/x.kt" 30 .error,
    found "b.kt" 3 .warning]

theorem sort_findings : Finding.sort findings = sorted := by
  have hperm : findings.Perm sorted := by decide
  have hne : findings.Pairwise fun a b => a.order b ≠ .eq := by decide +kernel
  have hascending : sorted.Pairwise fun a b => (a.order b).isLE := by decide +kernel
  exact (sortBy_eq_of_perm Finding.order hperm hne).trans
    (sortBy_of_ascending Finding.order hascending)

def result : AnalysisResult :=
  (({} : AnalysisResult).withFindings findings).withNotification (.warning "careful")

theorem obtained_result : result.Obtained := .withNotification _ (.withFindings _ .empty)

end Spellings

open Spellings in
/-- Both spellings stand below one header. -/
theorem plain_report_lists_findings_twoSpellings :
    ∃ groups, render {} result = some (String.join (groups.map plainBlock) ++
        "warning: careful\n" ++ plainSummary 4 groups.length 2 1 1) ∧ Grouped sorted groups := by
  have hfindings : result.findings = sorted := sort_findings
  obtain ⟨-, groups, _, _, _, hrender, hgroups, rfl, rfl, rfl, -⟩ :=
    @plain_report_lists_findings {} _ obtained_result rfl (.inr (List.cons_ne_nil _ []))
  refine ⟨groups, ?_, hfindings ▸ hgroups⟩
  have hcount (s : Severity) : result.count s = sorted.countP fun f => f.severity == s := by
    rw [AnalysisResult.count, hfindings]
  rw [hrender, hfindings, hcount, hcount, hcount, if_neg (by decide), if_pos rfl,
    String.append_empty]
  rfl

example : render {} { findings := Spellings.sorted } =
    some ("a/x.kt\n  2:1  info  too long  [complexity:LongMethod]\n" ++
      "  9:1  error  too long  [complexity:LongMethod]\n" ++
      "  30:1  error  too long  [complexity:LongMethod]\n\n" ++
      "b.kt\n  3:1  warning  too long  [complexity:LongMethod]\n\n" ++
      "\n4 findings in 2 files (2 errors, 1 warning, 1 info)\n") := by
  decide +kernel

end TextReport

end CodeAudit
