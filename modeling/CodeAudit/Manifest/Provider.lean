import CodeAudit.Manifest.Decode
import CodeAudit.Provider.Basic

namespace CodeAudit

structure Target where
  kind : Option NodeKind := none
  name : Option Glob := none

structure DeclaredRule where
  message : String
  target : Target := {}
  maxLines : Option Nat := none

namespace Target

def ofDefinition (rule : String) (d : TargetDefinition) : Except ManifestError Target := do
  let kind ← d.kind.mapM fun k =>
    match NodeKind.parse? k with
    | some kind => Except.ok kind
    | none => .error (.invalid ("Rule '" ++ rule ++ "': Unknown node kind: " ++ k))
  let name ← d.name.mapM fun pattern =>
    match Glob.parse? pattern with
    | some g => Except.ok g
    | none =>
      .error (.invalid ("Rule '" ++ rule ++ "': invalid name pattern: error parsing glob '" ++
        pattern ++ "'"))
  return { kind, name }

def admits (target : Target) (n : Node) : Bool :=
  target.kind.all (· == n.kind) &&
    target.name.all fun g => n.name?.any g.matchesText

end Target

namespace DeclaredRule

/-- The message with the node's data filled in: name, then kind, then number of lines. -/
def fill (template : String) (n : Node) : String :=
  let text := Text.replaceAll "\x7bname\x7d" n.shownName template
  let text := Text.replaceAll "\x7bkind\x7d" n.kind.text text
  Text.replaceAll "\x7blines\x7d" (toString n.span.lineCount) text

def reports (r : DeclaredRule) (n : Node) : Bool :=
  r.target.admits n && r.maxLines.all (· < n.span.lineCount)

def rule (r : DeclaredRule) : Rule :=
  .perNode fun _ n => if r.reports n then some (fill r.message n) else none

end DeclaredRule

/-- A declared rule set: the description of each rule and the rule itself. -/
structure DeclaredRuleSet where
  id : String
  description : String
  rules : List (RuleInfo × DeclaredRule)

namespace DeclaredRuleSet

def ruleOf (ruleSetId : String) (known : List String) (d : RuleDefinition) :
    Except ManifestError (RuleInfo × DeclaredRule) := do
  if known.contains d.id then
    throw (.invalid ("Duplicate rule '" ++ d.id ++ "' in rule set '" ++ ruleSetId ++ "'"))
  let severity ←
    match Severity.parse? d.severity with
    | some s => Except.ok s
    | none =>
      .error (.invalid ("Rule '" ++ d.id ++ "': invalid severity '" ++ d.severity ++ "'"))
  let target ← Target.ofDefinition d.id d.target
  let options : List RuleOption :=
    match d.maxLines with
    | some n => [⟨"max_lines", .number (.int n), "Minimum size of reported nodes"⟩]
    | none => []
  let info : RuleInfo := {
    id := d.id, description := d.description, activeByDefault := d.active, severity, options }
  return (info, { message := d.message, target, maxLines := d.maxLines })

def rulesOf (ruleSetId : String) :
    List String → List RuleDefinition → Except ManifestError (List (RuleInfo × DeclaredRule))
  | _, [] => .ok []
  | known, d :: rest => do
    let r ← ruleOf ruleSetId known d
    return r :: (← rulesOf ruleSetId (known ++ [d.id]) rest)

def ofManifest (m : Manifest) (source : Path) : Except ManifestError DeclaredRuleSet := do
  if Text.isBlankText m.id then
    throw (.invalid (source.text ++ ": rule set id must not be empty"))
  let rules ← rulesOf m.id [] m.rules
  return { id := m.id, description := m.description, rules }

/-- A rule's own `max_lines` wins over the manifest's. -/
def createRule (s : DeclaredRuleSet) (id : String) (config : Config) : Except ConfigError Rule :=
  match s.rules.find? fun r => r.1.id == id with
  | none => .error (.unknownRule s.id id)
  | some (_, r) => do
    let own ← config.value? .count "max_lines"
    return { r with maxLines := own.or r.maxLines }.rule

def provider (s : DeclaredRuleSet) : Provider where
  id := s.id
  description := s.description
  builtin := false
  rules := s.rules.map (·.1)
  createRule := s.createRule

def load (fs : FileSystem) (path : Path) : Except ManifestError DeclaredRuleSet := do
  ofManifest (← Manifest.load fs path) path

end DeclaredRuleSet

end CodeAudit
