import CodeAudit.Finding.Basic
import CodeAudit.Metrics
import CodeAudit.Notification
import CodeAudit.Profile.Basic

namespace CodeAudit

structure AnalysisResult where
  findings : List Finding := []
  notifications : List Notification := []
  metrics : Metrics := []
  profile : Profile := {}

namespace AnalysisResult

def groups (r : AnalysisResult) : List (String × List Finding) :=
  r.findings.foldl
    (fun groups f => Table.update compare f.ruleSetId (fun old => old.getD [] ++ [f]) groups) []

def count (r : AnalysisResult) (s : Severity) : Nat := r.findings.countP fun f => f.severity == s

def countAtLeast (r : AnalysisResult) (s : Severity) : Nat :=
  r.findings.countP fun f => f.severity.atLeast s

def hasErrors (r : AnalysisResult) : Bool := r.findings.any fun f => f.severity == .error

def isClean (r : AnalysisResult) : Bool := r.findings.isEmpty

def metric? (r : AnalysisResult) (name : String) : Option Int := Table.get? compare name r.metrics

def withFindings (r : AnalysisResult) (fs : List Finding) : AnalysisResult :=
  { r with findings := Finding.sort fs }

def withNotifications (r : AnalysisResult) (ns : List Notification) : AnalysisResult :=
  { r with notifications := r.notifications ++ ns }

def withNotification (r : AnalysisResult) (n : Notification) : AnalysisResult :=
  r.withNotifications [n]

def withMetric (r : AnalysisResult) (name : String) (value : Int) : AnalysisResult :=
  { r with metrics := Table.insert compare name value r.metrics }

end AnalysisResult

/-- What a result is put together from. -/
structure ResultParts where
  findings : List (String × List Finding) := []
  notifications : List Notification := []
  metrics : MetricTable := {}
  profile : Profile := {}

namespace ResultParts

def addFindings (p : ResultParts) (ruleSet : String) (fs : List Finding) : ResultParts :=
  { p with findings := Table.update compare ruleSet (fun old => old.getD [] ++ fs) p.findings }

def addNotifications (p : ResultParts) (ns : List Notification) : ResultParts :=
  { p with notifications := p.notifications ++ ns }

def addMetrics (p : ResultParts) (m : MetricTable) : ResultParts :=
  { p with metrics := p.metrics.merge m }

def addProfile (p : ResultParts) (q : Profile) : ResultParts :=
  { p with profile := p.profile.append q }

/-- The findings of all rule sets in one order, and the metrics of all files summed up. -/
def build (p : ResultParts) : AnalysisResult where
  findings := Finding.sort (p.findings.flatMap (·.2))
  notifications := p.notifications
  metrics := p.metrics.totals
  profile := p.profile

end ResultParts

end CodeAudit
