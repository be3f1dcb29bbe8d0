import CodeAudit.Engine.Basic
import CodeAudit.Pipeline.Extension
import CodeAudit.Result.Status
import CodeAudit.Run.Options

namespace CodeAudit

inductive RunError where
  | config (cause : ConfigError)
  | manifest (cause : ManifestError)
  | invalidConfig (problems : List Notification)
  | extension (cause : ExtensionError)

namespace RunError

def message : RunError → String
  | config cause => cause.message
  | manifest cause => cause.message
  | invalidConfig problems =>
    "Run failed due to an invalid configuration (" ++ toString problems.length ++ " problems)"
  | extension cause => cause.message

/-- A baseline that cannot be understood counts as configuration. -/
def status : RunError → ExitStatus
  | config _ | manifest _ | invalidConfig _ => .invalidConfig
  | extension (.baseline (.refused _ _)) => .invalidConfig
  | extension _ => .unexpectedError

end RunError

structure RunOutcome where
  result : AnalysisResult
  status : ExitStatus

structure RunReport where
  files : FileSystem
  visits : List Visit
  calls : List Call
  outcome : Except RunError RunOutcome

structure Run where
  options : RunOptions
  providers : List Provider := []
  extensions : List Extension := []

namespace Run

/-- What became of the manifests: a name that is taken ends the run, any other failure is a
warning. -/
def manifestWarnings (outcomes : List (Except ManifestError String)) :
    Except ManifestError (List Notification) :=
  outcomes.foldlM
    (fun notes outcome =>
      match outcome with
      | .ok _ => .ok notes
      | .error (.duplicateRuleSet id) => .error (.duplicateRuleSet id)
      | .error e => .ok (notes ++ [.warning ("Failed to load plugin: " ++ e.message)]))
    []

/-- The rule sets at hand, and warnings about manifests that could not be loaded. -/
def registry [PatternLanguage] (run : Run) (fs : FileSystem) :
    Except ManifestError (Registry × List Notification) := do
  let r ← run.providers.foldlM (fun r p => r.register p) Registry.builtin
  let r := run.options.manifestDirs.foldl (fun r dir => r.addSearchPath dir) r
  let (r, outcomes) := r.loadAll fs
  return (r, ← manifestWarnings outcomes)

def problems [PatternLanguage] (r : Registry) (config : Config) :
    Except RunError (List Notification) := do
  let settings ← (ValidationSettings.ofConfig config).mapError .config
  let problems ← (r.schema.validate config settings).mapError .config
  -- Only errors end the run; warnings go along with the result.
  if problems.any (·.isError) then throw (.invalidConfig problems)
  return problems

/-- The engine of a run; nothing is visited or written to get there. -/
def engine [PatternLanguage] (run : Run) (fs : FileSystem) : Except RunError Engine := do
  if run.options.createBaseline && run.options.baseline.isNone then
    throw (.config (.invalid "Creating a baseline requires a baseline path"))
  let config ← (run.options.config fs).mapError .config
  let (r, warnings) ← (run.registry fs).mapError .manifest
  let problems ← problems r config
  let settings ← (EngineSettings.ofConfig config).mapError .config
  let ruleSets ← (r.build config run.options.discovery run.options.restriction
    settings.allRules).mapError .config
  return {
    settings, ruleSets
    collectors := Collector.defaults
    notifications := warnings ++ problems }

def pipeline (run : Run) : Pipeline Extension :=
  let baseline := run.options.baseline.map fun path =>
    Extension.baseline { path, create := run.options.createBaseline }
  .ofList (baseline.toList ++ run.extensions)

/-- The whole run. A run that is refused leaves the files as they were. -/
def execute [PatternLanguage] (run : Run) (fs : FileSystem) (trees : List Tree) : RunReport :=
  match run.engine fs with
  | .error e => { files := fs, visits := [], calls := [], outcome := .error e }
  | .ok engine =>
    let result := engine.analyze trees
    let p := run.pipeline.run fs result
    { files := p.files
      visits := engine.visits trees
      calls := p.calls
      outcome :=
        match p.outcome with
        | .error e => .error (.extension e)
        | .ok result => .ok {
            result
            status := .ofResult result engine.settings.failOn engine.settings.maxIssues } }

end Run

end CodeAudit
