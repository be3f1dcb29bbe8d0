import CodeAudit.FileSystem

namespace CodeAudit

inductive ConfigError where
  | io (cause : IoError)
  | yaml
  | json
  | invalid (detail : String)
  | typeMismatch (key expected found : String)
  | unknownRule (ruleSet rule : String)
  | unknownRuleSet (ruleSet : String)
deriving DecidableEq, Repr

namespace ConfigError

def message : ConfigError → String
  | io cause => "IO error: " ++ cause.message
  | yaml => "YAML parse error: the document is malformed"
  | json => "JSON parse error: the document is malformed"
  | invalid detail => "Invalid configuration: " ++ detail
  | typeMismatch key expected found =>
    "Value of '" ++ key ++ "' must be " ++ expected ++ ", found " ++ found
  | unknownRule ruleSet rule => "Rule '" ++ rule ++ "' not found in rule set '" ++ ruleSet ++ "'"
  | unknownRuleSet ruleSet => "Rule set '" ++ ruleSet ++ "' not found"

end ConfigError

end CodeAudit
