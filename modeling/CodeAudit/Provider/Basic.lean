import CodeAudit.Rule.Basic

namespace CodeAudit

structure Provider where
  id : String
  description : String := ""
  builtin : Bool := true
  rules : List RuleInfo
  createRule : String → Config → Except ConfigError Rule

namespace Provider

def rule? (p : Provider) (id : String) : Option RuleInfo := p.rules.find? fun r => r.id == id

/-- The rule of an instance key `RuleId/suffix`. -/
def customBase? (key : String) : Option String :=
  match Text.cutAt? (· == '/') key.toList with
  | some (base, _) => if base.isEmpty then none else some (String.ofList base)
  | none => none

/-- Whether an instance is active: forced, off with its rule set, or by its own key or default. -/
def activationOf (info : RuleInfo) (scope : Config) (setActive allRules : Bool) :
    Except ConfigError Activation :=
  if allRules then .ok .forced
  else if !setActive then .ok (.explicit false)
  else do
    match ← scope.value? .flag "active" with
    | some active => return .explicit active
    | none => return .byDefault info.activeByDefault

def severityOf (info : RuleInfo) (scope : Config) : Except ConfigError Severity := do
  match ← scope.value? .text "severity" with
  | none => return info.severity
  | some s =>
    match Severity.parse? s with
    | some severity => return severity
    | none =>
      throw (.invalid
        ("'" ++ scope.keyPath "severity" ++ "' is not a severity (info, warning, error)"))

def bind (p : Provider) (info : RuleInfo) (key : String) (setScope : Config)
    (setActive allRules : Bool) : Except ConfigError RuleInstance := do
  let scope := setScope.sub key
  let activation ← activationOf info scope setActive allRules
  let severity ← severityOf info scope
  let aliases ← scope.valueD .texts "aliases" []
  let descriptor : Descriptor := {
    ruleSetId := p.id
    ruleId := key
    baseId := info.id
    activation
    severity
    category := info.category
    since := info.since
    aliases }
  let rule ← p.createRule info.id scope
  RuleInstance.create descriptor scope rule

/-- The keys of a rule set's scope that add an instance, with the rule of each. -/
def customKeys (p : Provider) (setScope : Config) : List (String × RuleInfo) :=
  setScope.keys.filterMap fun key => do
    let info ← p.rule? (← customBase? key)
    return (key, info)

/-- The rule set of a provider: an instance of every rule, then those that the configuration
adds. -/
def instantiate (p : Provider) (config : Config) (allRules : Bool) :
    Except ConfigError RuleSet := do
  let setScope := config.sub p.id
  let setActive ← setScope.valueD .flag "active" true
  let own := p.rules.map fun info => (info.id, info)
  let rules ← (own ++ p.customKeys setScope).mapM fun (key, info) =>
    p.bind info key setScope setActive allRules
  let filter ← PathFilter.ofConfig setScope
  return { id := p.id, rules, filter }

end Provider

end CodeAudit
