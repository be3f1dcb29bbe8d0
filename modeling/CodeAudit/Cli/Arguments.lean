import CodeAudit.Number.Reading
import CodeAudit.Path
import CodeAudit.Text.Pieces

namespace CodeAudit.Cli

inductive OutputFormat where
  | text
  | json
deriving DecidableEq, Repr

structure Arguments where
  files : List String := []
  config : List Path := []
  baseline : Option Path := none
  createBaseline : Bool := false
  parallel : Bool := false
  jobs : Option Nat := none
  profile : Bool := false
  runRule : Option String := none
  disabledRuleSets : List String := []
  withoutDefaults : Bool := false
  manifestDirs : List Path := []
  allRules : Bool := false
  format : Option OutputFormat := none
  reportProfile : Option Path := none
  noColor : Bool := false
  verbose : Bool := false
deriving DecidableEq, Repr

inductive Stop where
  | usage (detail : String)
  | help
  | version
deriving DecidableEq, Repr

inductive Switch where
  | createBaseline
  | parallel
  | profile
  | disableDefaultRuleSets
  | allRules
  | noColor
  | verbose
  | help
  | version
deriving DecidableEq, Repr

inductive Setting where
  | config
  | baseline
  | jobs
  | runRule
  | disableRuleSet
  | pluginsDir
  | format
  | reportProfile
deriving DecidableEq, Repr

inductive Flag where
  | switch (s : Switch)
  | setting (s : Setting)
deriving DecidableEq, Repr

namespace Flag

def ofName? : String → Option Flag
  | "config" => some (.setting .config)
  | "baseline" => some (.setting .baseline)
  | "create-baseline" => some (.switch .createBaseline)
  | "parallel" => some (.switch .parallel)
  | "jobs" => some (.setting .jobs)
  | "profile" => some (.switch .profile)
  | "run-rule" => some (.setting .runRule)
  | "disable-rule-set" => some (.setting .disableRuleSet)
  | "disable-default-rule-sets" => some (.switch .disableDefaultRuleSets)
  | "plugins-dir" => some (.setting .pluginsDir)
  | "all-rules" => some (.switch .allRules)
  | "format" => some (.setting .format)
  | "report-profile" => some (.setting .reportProfile)
  | "no-color" => some (.switch .noColor)
  | "verbose" => some (.switch .verbose)
  | "help" => some (.switch .help)
  | "version" => some (.switch .version)
  | _ => none

def ofLetter? : Char → Option Flag
  | 'c' => some (.setting .config)
  | 'b' => some (.setting .baseline)
  | 'j' => some (.setting .jobs)
  | 'f' => some (.setting .format)
  | 'v' => some (.switch .verbose)
  | 'h' => some (.switch .help)
  | 'V' => some (.switch .version)
  | _ => none

end Flag

namespace Arguments

def once (already : Bool) (a : Arguments) : Except Stop Arguments :=
  if already then .error (.usage "an argument cannot be used multiple times") else .ok a

def path (value : String) : Except Stop Path :=
  if value.isEmpty then .error (.usage "a value is required but none was supplied")
  else .ok ⟨value⟩

def turnOn (a : Arguments) : Switch → Except Stop Arguments
  | .createBaseline => once a.createBaseline { a with createBaseline := true }
  | .parallel => once a.parallel { a with parallel := true }
  | .profile => once a.profile { a with profile := true }
  | .disableDefaultRuleSets => once a.withoutDefaults { a with withoutDefaults := true }
  | .allRules => once a.allRules { a with allRules := true }
  | .noColor => once a.noColor { a with noColor := true }
  | .verbose => once a.verbose { a with verbose := true }
  | .help => .error .help
  | .version => .error .version

def give (a : Arguments) (value : String) : Setting → Except Stop Arguments
  | .config => do return { a with config := a.config ++ [← path value] }
  | .pluginsDir => do return { a with manifestDirs := a.manifestDirs ++ [← path value] }
  | .disableRuleSet => .ok { a with disabledRuleSets := a.disabledRuleSets ++ [value] }
  | .baseline => do once a.baseline.isSome { a with baseline := some (← path value) }
  | .reportProfile => do once a.reportProfile.isSome { a with reportProfile := some (← path value) }
  | .runRule => once a.runRule.isSome { a with runRule := some value }
  | .jobs =>
    match Number.parseUnsigned? value with
    | some n => once a.jobs.isSome { a with jobs := some n }
    | none => .error (.usage ("invalid value '" ++ value ++ "' for a number of jobs"))
  | .format =>
    match value with
    | "text" => once a.format.isSome { a with format := some .text }
    | "json" => once a.format.isSome { a with format := some .json }
    | _ => .error (.usage ("invalid value '" ++ value ++ "' for a format"))

/-- Letters behind one dash: switches, and last of all an option with a value, which may follow at
once, with or without an equals sign. The option is left when its value is yet to come. -/
def letters (a : Arguments) : List Char → Except Stop (Arguments × Option Setting)
  | [] => .ok (a, none)
  | c :: rest =>
    match Flag.ofLetter? c with
    | none => .error (.usage ("unexpected argument '-" ++ String.singleton c ++ "'"))
    | some (.switch s) => do letters (← a.turnOn s) rest
    | some (.setting s) =>
      match rest with
      | [] => .ok (a, some s)
      | '=' :: value => (a.give (String.ofList value) s).map (·, none)
      | value => (a.give (String.ofList value) s).map (·, none)

def long (a : Arguments) (text : List Char) : Except Stop (Arguments × Option Setting) :=
  let (name, value) :=
    match Text.cutAt? (· == '=') text with
    | some (name, value) => (name, some (String.ofList value))
    | none => (text, none)
  match Flag.ofName? (String.ofList name), value with
  | some (.switch s), none => (a.turnOn s).map (·, none)
  | some (.switch _), some _ => .error (.usage "unexpected value for an argument")
  | some (.setting s), some value => (a.give value s).map (·, none)
  | some (.setting s), none => .ok (a, some s)
  | none, _ => .error (.usage ("unexpected argument '--" ++ String.ofList name ++ "'"))

/-- Whether an argument cannot be the value of an option before it. -/
def isOption (arg : String) : Bool :=
  match arg.toList with
  | '-' :: _ :: _ => true
  | _ => false

def parseFrom : Arguments → Option Setting → List String → Except Stop Arguments
  | a, none, [] => .ok a
  | _, some _, [] => .error (.usage "a value is required but none was supplied")
  | a, some s, arg :: rest =>
    if isOption arg then .error (.usage "a value is required but none was supplied")
    else do parseFrom (← a.give arg s) none rest
  | a, none, arg :: rest =>
    match arg.toList with
    | ['-', '-'] => .ok { a with files := a.files ++ rest }
    | '-' :: '-' :: text => do
      let (a, pending) ← a.long text
      parseFrom a pending rest
    | '-' :: c :: cs => do
      let (a, pending) ← a.letters (c :: cs)
      parseFrom a pending rest
    | _ => parseFrom { a with files := a.files ++ [arg] } none rest

def parse (args : List String) : Except Stop Arguments := do
  let a ← parseFrom {} none args
  if a.createBaseline && a.baseline.isNone then
    throw (.usage "the following required arguments were not provided: --baseline <BASELINE>")
  return a

end Arguments

end CodeAudit.Cli
