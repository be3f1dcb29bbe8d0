import CodeAudit.Rule.PathFilter
import CodeAudit.Suppression.Resolver

namespace CodeAudit

inductive RuleError where
  | failed (detail : String)
  | config (cause : ConfigError)
  | crashed (detail : Option String)
deriving DecidableEq, Repr

namespace RuleError

def message : RuleError → String
  | failed detail => detail
  | config cause => "Rule configuration error: " ++ cause.message
  | crashed detail => "Rule panicked: " ++ detail.getD "unknown panic"

end RuleError

structure RuleContext where
  tree : Tree
  descriptor : Descriptor
  config : Config

def RuleContext.finding (ctx : RuleContext) (id : NodeId) (message : String) : Finding where
  ruleId := ctx.descriptor.ruleId
  ruleSetId := ctx.descriptor.ruleSetId
  severity := ctx.descriptor.severity
  message := message
  entity := Entity.ofNode ctx.tree id

/-- The findings on the nodes of the tree that a rule has a message for, in pre-order. -/
def RuleContext.report (ctx : RuleContext) (message : Node → Option String) : List Finding :=
  ctx.tree.walk.filterMap fun id =>
    (ctx.tree.node? id).bind fun n => (message n).map fun m => ctx.finding id m

structure Rule where
  visit : RuleContext → Except RuleError (List Finding)

/-- A rule that never fails and looks at one node at a time. -/
def Rule.perNode (message : Tree → Node → Option String) : Rule where
  visit ctx := .ok (ctx.report (message ctx.tree))

/-- A rule bound to its configuration. -/
structure RuleInstance where
  descriptor : Descriptor
  config : Config
  resolver : Resolver
  filter : PathFilter
  rule : Rule

namespace RuleInstance

def create (descriptor : Descriptor) (config : Config) (rule : Rule) :
    Except ConfigError RuleInstance := do
  let filter ← PathFilter.ofConfig config
  let resolver ← Resolver.ofRule descriptor config
  return { descriptor, config, resolver, filter, rule }

def isActive (r : RuleInstance) : Bool := r.descriptor.isActive

/-- Puts the instance's identity and suppressibility on a finding. -/
def stamp (r : RuleInstance) (f : Finding) : Finding :=
  { f with
    ruleId := r.descriptor.ruleId
    ruleSetId := r.descriptor.ruleSetId
    suppressible := r.resolver.suppressible }

def visit (r : RuleInstance) (t : Tree) : Except RuleError (List Finding) :=
  (r.rule.visit { tree := t, descriptor := r.descriptor, config := r.config }).map
    (·.map r.stamp)

end RuleInstance

structure RuleSet where
  id : String
  rules : List RuleInstance
  filter : PathFilter

namespace RuleSet

def activeRules (s : RuleSet) : List RuleInstance := s.rules.filter (·.isActive)

def runsOn (s : RuleSet) (p : Path) (r : RuleInstance) : Bool :=
  s.filter.accepts p && r.isActive && r.filter.accepts p

def rulesFor (s : RuleSet) (p : Path) : List Nat :=
  (s.rules.zipIdx.filter fun (r, _) => s.runsOn p r).map (·.2)

end RuleSet

end CodeAudit
