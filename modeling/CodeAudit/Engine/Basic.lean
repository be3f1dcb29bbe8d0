import CodeAudit.Config.Settings
import CodeAudit.Engine.Pass
import CodeAudit.Result.Basic

/-!
The engine: it plans which rules run on which files, makes the pass over each file, and puts the
outcomes together. Findings are gathered by rule set as they come in, with the place of the task
they came from, so that the result does not depend on the order of the passes.
-/

namespace CodeAudit

inductive Phase where
  | idle
  | done
deriving DecidableEq, Repr

def Phase.text : Phase → String
  | idle => "idle"
  | done => "done"

/-- The findings that came in so far, by rule set, each with the place of its task. -/
abbrev Accumulator := List (String × List (TaskKey × Finding))

namespace Accumulator

def add (acc : Accumulator) (b : Batch) : Accumulator :=
  Table.update compare b.ruleSet (fun old => old.getD [] ++ b.findings.map (b.key, ·)) acc

def ofBatches (bs : List Batch) : Accumulator := bs.foldl add []

def inOrder (entries : List (TaskKey × Finding)) : List Finding :=
  (entries.mergeSort fun a b => (TaskKey.order a.1 b.1).isLE).map (·.2)

end Accumulator

structure Engine where
  settings : EngineSettings := {}
  ruleSets : List RuleSet := []
  collectors : List Collector := []
  notifications : List Notification := []
  /-- How long each task takes, in nanoseconds. -/
  time : TaskKey → Nat := fun _ => 0
  phase : Phase := .idle

namespace Engine

def tasksFor (e : Engine) (t : Tree) : List Task :=
  e.ruleSets.zipIdx.flatMap fun (set, i) =>
    (set.rules.zipIdx.filter fun (rule, _) => set.runsOn t.path rule).map fun (rule, k) =>
      { ruleSet := set, rule, place := (i, k) }

def schedule (e : Engine) (trees : List Tree) : List FilePlan :=
  trees.zipIdx.map fun (tree, file) => { file, tree, tasks := e.tasksFor tree }

def pass (e : Engine) (p : FilePlan) : FileOutcome :=
  p.run e.collectors e.settings.profiling e.time

def finish (e : Engine) (acc : Accumulator) (outcomes : List FileOutcome) : AnalysisResult :=
  let parts : ResultParts := { notifications := e.notifications }
  let parts := acc.foldl (fun parts x => parts.addFindings x.1 (Accumulator.inOrder x.2)) parts
  let parts := outcomes.foldl
    (fun parts o =>
      ((parts.addNotifications o.notifications).addMetrics o.metrics).addProfile o.profile)
    parts
  parts.build

def visits (e : Engine) (trees : List Tree) : List Visit :=
  (e.schedule trees).flatMap FilePlan.visits

def analyze (e : Engine) (trees : List Tree) : AnalysisResult :=
  let outcomes := (e.schedule trees).map e.pass
  e.finish (.ofBatches (outcomes.flatMap (·.batches))) outcomes

def run (e : Engine) (trees : List Tree) : Engine × AnalysisResult :=
  ({ e with phase := .done }, e.analyze trees)

end Engine

end CodeAudit
