import CodeAudit.Provider.Basic

namespace CodeAudit.Builtin

/-- What a marker argument names: the part behind the last colon or dot. -/
def markedRule (argument : String) : String :=
  let back := (Marker.bareName argument).toList.reverse
  String.ofList (back.takeWhile fun c => c != ':' && c != '.').reverse

/-- The listed rules that a node's markers name, each once, first mention first. -/
def forbiddenOn (rules : List String) (n : Node) : List String :=
  let args := (n.marks.filter fun a => Marker.markNames.contains a.name).flatMap (·.args)
  let named := (args.map markedRule).filter rules.contains
  named.foldl (fun seen r => if seen.contains r then seen else seen ++ [r]) []

def quoted (s : String) : String := "\"" ++ s ++ "\""

def forbiddenMessage : List String → Option String
  | [] => none
  | [rule] => some ("Cannot @Suppress rule " ++ quoted rule ++ " due to the current configuration.")
  | rules =>
    some ("Cannot @Suppress rules " ++ ", ".intercalate (rules.map quoted) ++
      " due to the current configuration.")

def forbiddenSuppress (rules : List String) : Rule :=
  .perNode fun _ n => forbiddenMessage (forbiddenOn rules n)

def guardId : String := "guard"

def guardRules : List RuleInfo := [
  { id := "ForbiddenSuppress"
    description := "Reports suppression markers naming rules that must not be suppressed"
    activeByDefault := false, severity := .error, category := .guarding, since := some "0.1.0"
    options := [⟨"rules", .list [], "Rule ids that may not be suppressed"⟩] }]

def guardProvider : Provider where
  id := guardId
  description := "Rules that police suppressions"
  rules := guardRules
  createRule id config :=
    match id with
    | "ForbiddenSuppress" => (config.valueD .texts "rules" []).map forbiddenSuppress
    | _ => .error (.unknownRule guardId id)

end CodeAudit.Builtin
