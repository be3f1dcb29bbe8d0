import CodeAudit.Report.Style
import CodeAudit.Result.Basic

namespace CodeAudit

structure TextReport where
  colored : Bool := false
  stats : Bool := true
  metrics : Bool := false

namespace TextReport

def severityStyle : Severity → Style
  | .error => .boldRed
  | .warning => .boldYellow
  | .info => .blue

def levelStyle : Level → Style
  | .error => .boldRed
  | .warning => .boldYellow
  | .info => .blue

variable (report : TextReport)

def paint (s : Style) (text : String) : String := s.applyIf report.colored text

def findingLine (f : Finding) : String :=
  "  " ++ toString f.location.line ++ ":" ++ toString f.location.column ++ "  " ++
    report.paint (severityStyle f.severity) f.severity.text ++ "  " ++ f.message ++ "  " ++
    report.paint .dimmed ("[" ++ f.ruleSetId ++ ":" ++ f.ruleId ++ "]") ++ "\n"

def byFile (fs : List Finding) : List (Path × List Finding) :=
  fs.foldl
    (fun groups f => Table.update Path.order f.location.path (fun old => old.getD [] ++ [f]) groups)
    []

def fileBlock (group : Path × List Finding) : String :=
  report.paint .underlined group.1.text ++ "\n" ++
    String.join (group.2.map report.findingLine) ++ "\n"

def notificationLine (n : Notification) : String :=
  report.paint (levelStyle n.level) n.level.text ++ ": " ++ n.message ++ "\n"

def metricLine (m : String × Int) : String :=
  "  " ++ Text.padRight 20 m.1 ++ " " ++ Text.padLeft 10 (toString m.2) ++ "\n"

def metricsBlock (metrics : Metrics) : String :=
  if metrics.isEmpty then "" else "\nMetrics:\n" ++ String.join (metrics.map metricLine)

def countText (n : Nat) (one many : String) : String :=
  toString n ++ " " ++ (if n == 1 then one else many)

def severityCounts (r : AnalysisResult) : List String :=
  let part (s : Severity) (one many : String) (style : Option Style) : List String :=
    if r.count s == 0 then []
    else
      let text := countText (r.count s) one many
      [match style with
        | some style => report.paint style text
        | none => text]
  part .error "error" "errors" (some .red) ++ part .warning "warning" "warnings" (some .yellow) ++
    part .info "info" "infos" none

def summary (r : AnalysisResult) : String :=
  let counts := report.severityCounts r
  "\n" ++ countText r.findings.length "finding" "findings" ++ " in " ++
    countText (byFile r.findings).length "file" "files" ++
    (if counts.isEmpty then "" else " (" ++ ", ".intercalate counts ++ ")") ++ "\n"

def render (r : AnalysisResult) : Option String :=
  if r.findings.isEmpty && r.notifications.isEmpty then none
  else
    some (String.join ((byFile r.findings).map report.fileBlock) ++
      String.join (r.notifications.map report.notificationLine) ++
      (if report.metrics then metricsBlock r.metrics else "") ++
      (if report.stats then report.summary r else ""))

end TextReport

end CodeAudit
