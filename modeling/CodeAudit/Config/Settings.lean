import CodeAudit.Config.Read
import CodeAudit.Severity

namespace CodeAudit

structure EngineSettings where
  parallel : Bool := false
  /-- Number of workers; zero stands for one per processor. -/
  jobs : Nat := 0
  profiling : Bool := false
  allRules : Bool := false
  failOn : Severity := .error
  maxIssues : Nat := 0
deriving DecidableEq, Repr

namespace EngineSettings

def scopeName : String := "engine"

def failOnOf (engine : Config) : Except ConfigError Severity := do
  match ← engine.value? .text "fail_on" with
  | none => return .error
  | some s =>
    match Severity.parse? s with
    | some severity => return severity
    | none =>
      throw (.invalid
        ("'" ++ engine.keyPath "fail_on" ++ "' is not a severity (info, warning, error)"))

def ofConfig (config : Config) : Except ConfigError EngineSettings := do
  let engine := config.sub scopeName
  let failOn ← failOnOf engine
  let parallel ← engine.valueD .flag "parallel" false
  let jobs ← engine.valueD .count "jobs" 0
  let profiling ← engine.valueD .flag "profiling" false
  let allRules ← engine.valueD .flag "all_rules" false
  let maxIssues ← engine.valueD .count "max_issues" 0
  return { parallel, jobs, profiling, allRules, failOn, maxIssues }

end EngineSettings

structure ValidationSettings where
  validation : Bool := true
  warningsAsErrors : Bool := false
  excludes : List String := []
deriving DecidableEq, Repr

namespace ValidationSettings

def scopeName : String := "config"

def ofConfig (config : Config) : Except ConfigError ValidationSettings := do
  let scope := config.sub scopeName
  let validation ← scope.valueD .flag "validation" true
  let warningsAsErrors ← scope.valueD .flag "warnings_as_errors" false
  let excludes ← scope.valueD .texts "excludes" []
  return { validation, warningsAsErrors, excludes }

end ValidationSettings

end CodeAudit
