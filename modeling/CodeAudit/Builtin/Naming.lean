import CodeAudit.Pattern
import CodeAudit.Provider.Basic

namespace CodeAudit.Builtin

def functionPattern : String := "[a-z][a-zA-Z0-9]*"

def classPattern : String := "[A-Z][a-zA-Z0-9]*"

/-- Named declarations of certain kinds whose name a pattern does not match. -/
def naming (kinds : List NodeKind) (label pattern : String) (conforms : String → Bool) : Rule :=
  .perNode fun _ n =>
    match n.name? with
    | some name =>
      if kinds.contains n.kind && !conforms name then
        some (label ++ " names should match the pattern: " ++ pattern)
      else none
    | none => none

def styleId : String := "style"

def styleRules : List RuleInfo := [
  { id := "FunctionNaming", description := "Function names should follow the naming convention"
    since := some "0.1.0"
    options := [⟨"pattern", .string functionPattern, "Expected function name"⟩] },
  { id := "ClassNaming", description := "Class names should follow the naming convention"
    since := some "0.1.0"
    options := [⟨"pattern", .string classPattern, "Expected class name"⟩] }]

section

variable [PatternLanguage]

def namingOf (kinds : List NodeKind) (label default : String) (config : Config) :
    Except ConfigError Rule := do
  let pattern ← config.valueD .text "pattern" default
  match PatternLanguage.compileWhole pattern with
  | .ok conforms => return naming kinds label pattern conforms
  | .error detail =>
    throw (.invalid ("Invalid pattern in '" ++ config.keyPath "pattern" ++ "': " ++ detail))

def style : Provider where
  id := styleId
  description := "Rules that keep code consistent"
  rules := styleRules
  createRule id config :=
    match id with
    | "FunctionNaming" => namingOf [.function] "Function" functionPattern config
    | "ClassNaming" => namingOf [.classType, .object] "Class" classPattern config
    | _ => .error (.unknownRule styleId id)

end

end CodeAudit.Builtin
