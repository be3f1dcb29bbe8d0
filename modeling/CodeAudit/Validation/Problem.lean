import CodeAudit.Notification
import CodeAudit.Pattern
import CodeAudit.Validation.Schema

namespace CodeAudit

inductive Fault where
  | unknown
  | scopeExpected
  | scopeUnexpected
  | textForList
deriving DecidableEq, Repr

structure Problem where
  path : List String
  fault : Fault
deriving DecidableEq, Repr

namespace Problem

def keyPath (p : Problem) : String := Config.keySeparator.intercalate p.path

/-- A wrong shape stops a run, a key without a reader does not. -/
def notification (p : Problem) : Notification :=
  match p.fault with
  | .unknown => .warning ("Property '" ++ p.keyPath ++ "' is misspelled or does not exist.")
  | .scopeExpected => .error ("Nested config expected for '" ++ p.keyPath ++ "'.")
  | .scopeUnexpected => .error ("Unexpected nested config for '" ++ p.keyPath ++ "'.")
  | .textForList =>
    .warning ("Property '" ++ p.keyPath ++
      "' should be a YAML array instead of a comma-separated String.")

end Problem

/-- Which key paths are left alone. -/
structure Exemptions where
  patterns : List (String → Bool)

namespace Exemptions

/-- The patterns of keys that every rule set or rule may have. -/
def defaultPatterns : List String := [
  ".*>excludes",
  ".*>includes",
  ".*>active",
  ".*>.*>excludes",
  ".*>.*>includes",
  ".*>.*>active",
  ".*>severity",
  ".*>.*>severity",
  ".*>.*>aliases",
  ".*>.*>ignore_annotated",
  ".*>.*>ignore_function"]

def ofPatterns [PatternLanguage] (further : List String) : Except ConfigError Exemptions := do
  let patterns ← (defaultPatterns ++ further).mapM fun p =>
    (PatternLanguage.compileWhole p).mapError fun detail =>
      ConfigError.invalid ("Invalid validation exclude pattern '" ++ p ++ "': " ++ detail)
  return { patterns }

def admits (x : Exemptions) (path : List String) : Bool :=
  x.patterns.any fun covers => covers (Config.keySeparator.intercalate path)

end Exemptions

namespace Schema

mutual

def problemsIn (exempt : List String → Bool) (scope : Scope) (path : List String) :
    List (Value × Value) → List Problem
  | [] => []
  | (k, v) :: rest =>
    (match k.scalarText? with
      | none => []
      | some key =>
        if exempt (path ++ [key]) then []
        else problemsAt exempt (scope.expected? key) (path ++ [key]) v) ++
      problemsIn exempt scope path rest

/-- The problems of an entry that is not exempt. -/
def problemsAt (exempt : List String → Bool) (expected : Option Expectation)
    (path : List String) (v : Value) : List Problem :=
  match expected with
  | none => [⟨path, .unknown⟩]
  | some (.scope scope) =>
    match v with
    | .mapping entries => problemsIn exempt scope path entries
    -- A scope may be left empty.
    | .null => []
    | _ => [⟨path, .scopeExpected⟩]
  | some .list =>
    match v with
    | .mapping _ => [⟨path, .scopeUnexpected⟩]
    | .string _ => [⟨path, .textForList⟩]
    | _ => []
  | some .value =>
    match v with
    | .mapping _ => [⟨path, .scopeUnexpected⟩]
    | _ => []
termination_by structural v

end

def problems (s : Schema) (exempt : List String → Bool) (config : Config) : List Problem :=
  match config.node? with
  | some (.mapping entries) => problemsIn exempt s.root [] entries
  | _ => []

/-- The notifications about a configuration; it fails only where a pattern is malformed. -/
def validate [PatternLanguage] (s : Schema) (config : Config) (settings : ValidationSettings) :
    Except ConfigError (List Notification) := do
  if !settings.validation then return []
  let exemptions ← Exemptions.ofPatterns settings.excludes
  let notes := (s.problems exemptions.admits config).map Problem.notification
  if settings.warningsAsErrors then return notes.map fun n => { n with level := .error }
  return notes

end Schema

end CodeAudit
