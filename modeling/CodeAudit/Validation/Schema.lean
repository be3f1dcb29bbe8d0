import CodeAudit.Config.Settings
import CodeAudit.Provider.Basic

namespace CodeAudit

inductive Expectation where
  | value
  | list
  | scope (entries : List (String × Expectation))

abbrev Scope := List (String × Expectation)

namespace Scope

def get? (s : Scope) (key : String) : Option Expectation :=
  ((s.filter fun e => e.1 == key).getLast?).map (·.2)

/-- What is expected of a key: its own entry, or that of the rule it is an instance of. -/
def expected? (s : Scope) (key : String) : Option Expectation :=
  (s.get? key).or ((Provider.customBase? key).bind s.get?)

end Scope

def Expectation.ofDefault : Value → Expectation
  | .list _ => .list
  | .mapping _ => .scope []
  | _ => .value

structure Schema where
  root : Scope

namespace Schema

def engineKeys : List String :=
  ["parallel", "jobs", "profiling", "all_rules", "fail_on", "max_issues"]

def engineScope : Scope := engineKeys.map fun key => (key, .value)

def validationScope : Scope :=
  [("validation", .value), ("warnings_as_errors", .value), ("excludes", .list)]

/-- The scopes that belong to no rule set. -/
def base : Schema where
  root := [(EngineSettings.scopeName, .scope engineScope),
    (ValidationSettings.scopeName, .scope validationScope)]

def ruleScope (info : RuleInfo) : Scope :=
  info.options.map fun o => (o.name, .ofDefault o.default)

def addRuleSet (s : Schema) (id : String) (rules : List RuleInfo) : Schema :=
  { root := s.root ++ [(id, .scope (rules.map fun info => (info.id, .scope (ruleScope info))))] }

def containsScope (s : Schema) (id : String) : Bool := (s.root.get? id).isSome

end Schema

end CodeAudit
