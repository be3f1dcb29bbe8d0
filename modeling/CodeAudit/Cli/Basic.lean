import CodeAudit.Cli.Arguments
import CodeAudit.FilePattern
import CodeAudit.Regex.Language
import CodeAudit.Report.Basic
import CodeAudit.Run.Basic
import CodeAudit.Tree.Reading

namespace CodeAudit.Cli

structure Exit where
  code : Nat
  stdout : String := ""
  stderr : String := ""
  files : FileSystem

inductive Failure where
  | noFiles
  | badPattern (pattern : String)
  | unreadableTree (path : Path) (cause : TreeError)
  | run (cause : RunError)
  | unwritableProfile (path : Path) (cause : IoError)

namespace Failure

/-- The messages of a failure and of its causes, outermost first. -/
def chain : Failure → List String
  | noFiles => ["No files found to analyze"]
  | badPattern pattern =>
    ["Invalid pattern '" ++ pattern ++ "'", "Pattern syntax error: invalid wildcards or range"]
  | unreadableTree path cause =>
    ["Failed to load " ++ path.text, cause.message] ++
      match cause with
      | .io e => [e.message]
      | _ => []
  | run cause =>
    cause.message ::
      match cause with
      | .config (.io e) | .manifest (.io e) => [e.message]
      | .extension (.baseline b) =>
        b.message ::
          match b with
          | .io e => [e.message]
          | _ => []
      | _ => []
  | unwritableProfile path cause => ["Failed to write profile to " ++ path.text, cause.message]

def problems : Failure → List Notification
  | run (.invalidConfig problems) => problems
  | _ => []

def status : Failure → ExitStatus
  | run cause => cause.status
  | _ => .unexpectedError

def text (colored : Bool) (f : Failure) : String :=
  Style.applyIf colored .boldRed "error" ++ ": " ++ ": ".intercalate f.chain ++ "\n" ++
    String.join (f.problems.map fun p => "  " ++ p.text ++ "\n")

end Failure

def dropRepeated : List Path → List Path
  | a :: b :: rest => if a.same b then dropRepeated (a :: rest) else a :: dropRepeated (b :: rest)
  | paths => paths

def collectFiles (fs : FileSystem) (patterns : List String) : Except Failure (List Path) := do
  let found ← patterns.mapM fun pattern =>
    match FilePattern.parse? pattern with
    | some p => Except.ok (p.files fs)
    | none => .error (.badPattern pattern)
  return dropRepeated (found.flatten.mergeSort fun a b => (a.order b).isLE)

def loadTrees (fs : FileSystem) (paths : List Path) : Except Failure (List Tree) :=
  paths.mapM fun path => (Tree.load fs path).mapError (.unreadableTree path)

namespace Arguments

def overrides (a : Arguments) : List (List String × Value) :=
  let engine (key : String) (v : Value) : List (List String × Value) :=
    [([EngineSettings.scopeName, key], v)]
  (if a.parallel then engine "parallel" (.bool true) else []) ++
    (match a.jobs with
      | some n => engine "jobs" (.number (.int n))
      | none => []) ++
    (if a.profile || a.reportProfile.isSome then engine "profiling" (.bool true) else []) ++
    (if a.allRules then engine "all_rules" (.bool true) else [])

def options (a : Arguments) : Except ConfigError RunOptions := do
  let restriction ←
    match a.runRule with
    | some rule => Restriction.parse rule
    | none => .ok .all
  return {
    configPaths := a.config
    overrides := a.overrides
    baseline := a.baseline
    createBaseline := a.createBaseline
    manifestDirs := a.manifestDirs
    discovery := { disabled := a.disabledRuleSets, withoutDefaults := a.withoutDefaults }
    restriction }

def reporter (a : Arguments) (colored : Bool) : Reporter :=
  match a.format with
  | some .json => .json true
  | _ => .text { colored }

end Arguments

/-- What is printed of a report: nothing where there is none, else whole lines. -/
def printed : Option String → String
  | none => ""
  | some report => if report.toList.getLast? == some '\n' then report else report ++ "\n"

def analyze (a : Arguments) (fs : FileSystem) : FileSystem × Except Failure RunOutcome :=
  let prepared : Except Failure (RunOptions × List Tree) := do
    let paths ← collectFiles fs a.files
    if paths.isEmpty then throw .noFiles
    let trees ← loadTrees fs paths
    let options ← a.options.mapError fun e => .run (.config e)
    return (options, trees)
  match prepared with
  | .error e => (fs, .error e)
  | .ok (options, trees) =>
    let report := ({ options : Run }).execute fs trees
    (report.files, report.outcome.mapError .run)

def writeProfile (a : Arguments) (fs : FileSystem) (r : AnalysisResult) :
    Except Failure FileSystem :=
  match a.reportProfile with
  | none => .ok fs
  | some path =>
    (fs.write path ((Reporter.executions.render r).getD "")).mapError (.unwritableProfile path)

/-- The whole command; `colored` says whether the output may be styled. -/
def run (a : Arguments) (colored : Bool) (fs : FileSystem) : Exit :=
  let colored := colored && !a.noColor
  let failed (files : FileSystem) (stdout stderr : String) (f : Failure) : Exit :=
    { code := f.status.code, stdout, stderr := stderr ++ f.text colored, files }
  match analyze a fs with
  | (fs, .error f) => failed fs "" "" f
  | (fs, .ok outcome) =>
    let stdout := printed ((a.reporter colored).render outcome.result)
    let stderr := if a.profile then ((Reporter.slowest 10).render outcome.result).getD "" else ""
    match writeProfile a fs outcome.result with
    | .error f => failed fs stdout stderr f
    | .ok files => { code := outcome.status.code, stdout, stderr, files }

def versionText : String := "frost 0.1.0\n"

def usageText : String := "Usage: frost [OPTIONS] [FILES]...\n"

def command (args : List String) (colored : Bool) (fs : FileSystem) : Exit :=
  match Arguments.parse args with
  | .ok a => run a colored fs
  | .error .version => { code := 0, stdout := versionText, files := fs }
  | .error .help =>
    { code := 0, stdout := "Rule-driven static analysis\n\n" ++ usageText, files := fs }
  | .error (.usage detail) =>
    { code := 2, stderr := "error: " ++ detail ++ "\n\n" ++ usageText, files := fs }

end CodeAudit.Cli
