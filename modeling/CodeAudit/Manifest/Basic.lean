import CodeAudit.FileSystem

namespace CodeAudit

structure TargetDefinition where
  kind : Option String := none
  name : Option String := none
deriving DecidableEq, Repr

structure RuleDefinition where
  id : String
  description : String := ""
  message : String
  severity : String := "warning"
  active : Bool := true
  target : TargetDefinition := {}
  maxLines : Option Nat := none
deriving DecidableEq, Repr

structure Manifest where
  id : String
  description : String := ""
  rules : List RuleDefinition := []
deriving DecidableEq, Repr

inductive ManifestError where
  | io (cause : IoError)
  | parse (file : Path)
  | invalid (detail : String)
  | duplicateRuleSet (id : String)
deriving DecidableEq, Repr

def ManifestError.message : ManifestError → String
  | io cause => "IO error: " ++ cause.message
  | parse file => "Parse error in " ++ file.text ++ ": the document is malformed"
  | invalid detail => "Invalid manifest: " ++ detail
  | duplicateRuleSet id => "Rule set '" ++ id ++ "' is already registered"

end CodeAudit
