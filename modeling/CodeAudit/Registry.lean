import CodeAudit.Builtin.All
import CodeAudit.Manifest.Provider
import CodeAudit.Validation.Problem

namespace CodeAudit

/-- Which rule sets are left out. -/
structure Discovery where
  disabled : List String := []
  withoutDefaults : Bool := false
deriving DecidableEq, Repr

def Discovery.admits (d : Discovery) (p : Provider) : Bool :=
  !d.disabled.contains p.id && !(d.withoutDefaults && p.builtin)

inductive Restriction where
  | all
  | single (ruleSet rule : String)
deriving DecidableEq, Repr

def Restriction.parse (s : String) : Except ConfigError Restriction :=
  let malformed : ConfigError :=
    .invalid ("Rule restriction '" ++ s ++ "' must have the form 'ruleSet:rule'")
  match Text.cutAt? (· == ':') s.toList with
  | some (ruleSet, rule) =>
    if ruleSet.isEmpty || rule.isEmpty then .error malformed
    else .ok (.single (String.ofList ruleSet) (String.ofList rule))
  | none => .error malformed

/-- Rule sets under distinct names, and the directories to look for further ones in. -/
structure Registry where
  providers : List Provider := []
  searchPaths : List Path := []

namespace Registry

def builtin [PatternLanguage] : Registry where
  providers := Builtin.providers

def provider? (r : Registry) (id : String) : Option Provider :=
  r.providers.find? fun p => p.id == id

/-- Adds a rule set under a name that is not taken. -/
def register (r : Registry) (p : Provider) : Except ManifestError Registry :=
  if (r.provider? p.id).isSome then .error (.duplicateRuleSet p.id)
  else .ok { r with providers := r.providers ++ [p] }

def addSearchPath (r : Registry) (p : Path) : Registry :=
  { r with searchPaths := r.searchPaths ++ [p] }

def load (r : Registry) (fs : FileSystem) (path : Path) :
    Except ManifestError (Registry × String) := do
  let set ← DeclaredRuleSet.load fs path
  return (← r.register set.provider, set.id)

/-- Loads manifests one after the other; one that fails leaves the registry as it was. -/
def loadEach (fs : FileSystem) :
    Registry → List Path → Registry × List (Except ManifestError String)
  | r, [] => (r, [])
  | r, path :: rest =>
    let (r, outcome) : Registry × Except ManifestError String :=
      match r.load fs path with
      | .ok (r, id) => (r, .ok id)
      | .error e => (r, .error e)
    let (r, outcomes) := loadEach fs r rest
    (r, outcome :: outcomes)

def manifests (r : Registry) (fs : FileSystem) : List Path :=
  (r.searchPaths.filter fs.isDirectory).flatMap (Manifest.pathsIn fs)

def loadAll (r : Registry) (fs : FileSystem) : Registry × List (Except ManifestError String) :=
  loadEach fs r (r.manifests fs)

def discover (r : Registry) (d : Discovery) : List Provider := r.providers.filter d.admits

/-- The rule set that holds one rule of a provider and nothing else, forced active. -/
def buildSingle (p : Provider) (rule : String) (config : Config) : Except ConfigError RuleSet := do
  let base := (Provider.customBase? rule).getD rule
  if (p.rule? base).isNone then throw (.unknownRule p.id rule)
  let set ← p.instantiate config true
  -- A name with a suffix passes the test above even when no such instance is configured.
  let rules := set.rules.filter fun r => r.descriptor.ruleId == rule
  if rules.isEmpty then throw (.unknownRule p.id rule)
  return { set with
    rules := rules.map fun r => { r with descriptor := { r.descriptor with activation := .forced } } }

def build (r : Registry) (config : Config) (d : Discovery) (restriction : Restriction)
    (allRules : Bool) : Except ConfigError (List RuleSet) :=
  match restriction with
  | .all => (r.discover d).mapM fun p => p.instantiate config allRules
  | .single ruleSet rule =>
    match (r.discover d).find? fun p => p.id == ruleSet with
    | none => .error (.unknownRuleSet ruleSet)
    | some p => (buildSingle p rule config).map fun set => [set]

def schema (r : Registry) : Schema :=
  r.providers.foldl (fun s p => s.addRuleSet p.id p.rules) .base

end Registry

end CodeAudit
