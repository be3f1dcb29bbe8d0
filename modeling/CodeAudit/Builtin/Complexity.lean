import CodeAudit.Provider.Basic

namespace CodeAudit.Builtin

def longMethodDefault : Nat := 60

def largeClassDefault : Nat := 600

def longParameterListDefault : Nat := 6

def longMethod (threshold : Nat) : Rule :=
  .perNode fun _ n =>
    let lines := n.span.lineCount
    if n.kind = .function && threshold < lines then
      some ("The function " ++ n.shownName ++ " is too long (" ++ toString lines ++
        "). The maximum length is " ++ toString threshold ++ ".")
    else none

def largeClass (threshold : Nat) : Rule :=
  .perNode fun _ n =>
    let lines := n.span.lineCount
    if (n.kind = .classType || n.kind = .object) && threshold < lines then
      some ("Class " ++ n.shownName ++ " is too large (" ++ toString lines ++
        " lines). The maximum size is " ++ toString threshold ++ ".")
    else none

def longParameterList (threshold : Nat) : Rule :=
  .perNode fun t n =>
    let count := (n.children.filter (t.kindIs (· == .parameter))).length
    if n.kind = .function && threshold < count then
      some ("The function " ++ n.shownName ++ " has too many parameters (" ++ toString count ++
        "). The maximum is " ++ toString threshold ++ ".")
    else none

def complexityId : String := "complexity"

def countOption (name : String) (default : Nat) (description : String) : RuleOption :=
  { name, default := .number (.int default), description }

def complexityRules : List RuleInfo := [
  { id := "LongMethod", description := "Functions should not span too many lines"
    category := .complexity, since := some "0.1.0"
    options := [countOption "threshold" longMethodDefault "Maximum number of lines of a function"] },
  { id := "LargeClass", description := "Classes should not span too many lines"
    category := .complexity, since := some "0.1.0"
    options := [countOption "threshold" largeClassDefault "Maximum number of lines of a class"] },
  { id := "LongParameterList", description := "Functions should not take too many parameters"
    category := .complexity, since := some "0.1.0"
    options := [countOption "function_threshold" longParameterListDefault
      "Maximum number of parameters of a function"] }]

def complexity : Provider where
  id := complexityId
  description := "Rules that report complex code"
  rules := complexityRules
  createRule id config :=
    match id with
    | "LongMethod" => (config.valueD .count "threshold" longMethodDefault).map longMethod
    | "LargeClass" => (config.valueD .count "threshold" largeClassDefault).map largeClass
    | "LongParameterList" =>
      (config.valueD .count "function_threshold" longParameterListDefault).map longParameterList
    | _ => .error (.unknownRule complexityId id)

end CodeAudit.Builtin
