import CodeAudit.Metrics
import CodeAudit.Profile.Basic
import CodeAudit.Rule.Basic

namespace CodeAudit

structure Task where
  ruleSet : RuleSet
  rule : RuleInstance
  place : Nat × Nat

/-- A file, its place among the files of the run, and the rules that run on it. -/
structure FilePlan where
  file : Nat
  tree : Tree
  tasks : List Task

structure TaskOutcome where
  notifications : List Notification := []
  /-- How many findings the visit gave; nothing where there was no successful visit. -/
  visited : Option Nat := none
  kept : List Finding := []

namespace Task

def failure (t : Task) (tree : Tree) (e : RuleError) : Notification :=
  .error ("Rule '" ++ t.rule.descriptor.qualifiedId ++ "' failed on " ++ tree.path.text ++ ": " ++
    e.message)

def keeps (t : Task) (tree : Tree) (f : Finding) : Bool := !t.rule.resolver.drops f tree

/-- The warning about a finding that a suppressor could not drop. -/
def warning? (t : Task) (tree : Tree) (f : Finding) : Option Notification :=
  match t.rule.resolver.decide f tree with
  | .blocked n => some n
  | _ => none

/-- Visits a file, unless it switches the rule off, and decides about each finding. -/
def run (t : Task) (tree : Tree) : TaskOutcome :=
  if t.rule.resolver.switchedOff tree then {}
  else
    match t.rule.visit tree with
    | .error e => { notifications := [t.failure tree e] }
    | .ok found => {
        notifications := found.filterMap (t.warning? tree)
        visited := some found.length
        kept := found.filter (t.keeps tree) }

end Task

abbrev TaskKey := Nat × Nat

namespace TaskKey

def order (a b : TaskKey) : Ordering := (compare a.1 b.1).then (compare a.2 b.2)

end TaskKey

/-- The findings that one task adds to a rule set. -/
structure Batch where
  ruleSet : String
  key : TaskKey
  findings : List Finding

/-- A rule that was let look at a file. -/
structure Visit where
  ruleSet : String
  rule : String
  file : Path
deriving DecidableEq, Repr

/-- What the pass over a file left behind. -/
structure FileOutcome where
  notifications : List Notification
  profile : Profile
  metrics : MetricTable
  batches : List Batch

namespace FilePlan

def outcomes (p : FilePlan) : List (Task × Nat × TaskOutcome) :=
  p.tasks.zipIdx.map fun (t, i) => (t, i, t.run p.tree)

/-- The record of a successful visit; `time` says how long the task took. -/
def record? (p : FilePlan) (time : TaskKey → Nat) (x : Task × Nat × TaskOutcome) :
    Option ExecutionRecord :=
  x.2.2.visited.map fun findings => {
    ruleSet := x.1.ruleSet.id
    rule := x.1.rule.descriptor.ruleId
    file := p.tree.path
    duration := time (p.file, x.2.1)
    findings }

def batch? (p : FilePlan) (x : Task × Nat × TaskOutcome) : Option Batch :=
  if x.2.2.kept.isEmpty then none
  else some { ruleSet := x.1.ruleSet.id, key := (p.file, x.2.1), findings := x.2.2.kept }

/-- The visits of the pass: one by each rule that the file does not switch off. -/
def visits (p : FilePlan) : List Visit :=
  (p.tasks.filter fun t => !t.rule.resolver.switchedOff p.tree).map fun t => {
    ruleSet := t.ruleSet.id
    rule := t.rule.descriptor.ruleId
    file := p.tree.path }

def run (p : FilePlan) (collectors : List Collector) (profiling : Bool) (time : TaskKey → Nat) :
    FileOutcome :=
  let outcomes := p.outcomes
  { notifications := outcomes.flatMap (·.2.2.notifications)
    profile := { records := if profiling then outcomes.filterMap (p.record? time) else [] }
    metrics := MetricTable.ofTree collectors p.tree
    batches := outcomes.filterMap p.batch? }

end FilePlan

end CodeAudit
