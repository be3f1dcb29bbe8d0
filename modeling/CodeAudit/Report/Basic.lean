import CodeAudit.Json.Writer
import CodeAudit.Profile.Csv
import CodeAudit.Report.Text

namespace CodeAudit

namespace JsonReport

/-- A finding; the places it refers to are listed only where there are some. -/
def ofFinding (f : Finding) : Json :=
  .obj ([("rule_set", .str f.ruleSetId),
    ("rule_id", .str f.ruleId),
    ("severity", .str f.severity.text),
    ("message", .str f.message),
    ("file", .str f.location.path.text),
    ("line", .int f.location.span.startLine),
    ("column", .int f.location.span.startColumn),
    ("end_line", .int f.location.span.endLine),
    ("end_column", .int f.location.span.endColumn),
    ("entity", .str f.entity.name),
    ("signature", .str f.entity.signature),
    ("baseline_id", .str f.baselineId)] ++
    if f.references.isEmpty then []
    else [("references", .arr (f.references.map fun e => .str e.location.text))])

def ofNotification (n : Notification) : Json :=
  .obj [("level", .str n.level.text), ("message", .str n.message)]

def summary (r : AnalysisResult) : Json :=
  .obj [("findings", .int r.findings.length),
    ("errors", .int (r.count .error)),
    ("warnings", .int (r.count .warning)),
    ("infos", .int (r.count .info))]

def ofResult (r : AnalysisResult) : Json :=
  .obj [("findings", .arr (r.findings.map ofFinding)),
    ("notifications", .arr (r.notifications.map ofNotification)),
    ("metrics", .obj (r.metrics.map fun m => (m.1, .int m.2))),
    ("summary", summary r)]

end JsonReport

inductive Reporter where
  | text (report : TextReport)
  | json (pretty : Bool)
  | executions
  | slowest (top : Nat)

namespace Reporter

def id : Reporter → String
  | text _ => "text"
  | json _ => "json"
  | executions => "profiling"
  | slowest _ => "profile-summary"

def render (r : AnalysisResult) : Reporter → Option String
  | text report => report.render r
  | json pretty =>
    some (if pretty then (JsonReport.ofResult r).pretty else (JsonReport.ofResult r).compact)
  | executions => if r.profile.isEmpty then none else some r.profile.csv
  | slowest top => if r.profile.isEmpty then none else some (r.profile.table top)

end Reporter

end CodeAudit
