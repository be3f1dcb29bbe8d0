import CodeAudit.Result.Basic

namespace CodeAudit

inductive ExitStatus where
  | success
  | unexpectedError
  | issuesFound
  | invalidConfig
deriving DecidableEq, Repr

namespace ExitStatus

def code : ExitStatus → Nat
  | success => 0
  | unexpectedError => 1
  | issuesFound => 2
  | invalidConfig => 3

/-- A run fails when more than `maxIssues` of its findings are at least as severe as `failOn`. -/
def ofResult (r : AnalysisResult) (failOn : Severity) (maxIssues : Nat) : ExitStatus :=
  if maxIssues < r.countAtLeast failOn then issuesFound else success

end ExitStatus

end CodeAudit
