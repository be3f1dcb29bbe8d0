import CodeAudit.Rule.Category
import CodeAudit.Severity
import CodeAudit.Value.Basic

namespace CodeAudit

structure RuleOption where
  name : String
  default : Value
  description : String

def RuleOption.isList (o : RuleOption) : Bool :=
  match o.default with
  | .list _ => true
  | _ => false

structure RuleInfo where
  id : String
  description : String
  activeByDefault : Bool := true
  severity : Severity := .warning
  category : Category := .style
  since : Option String := none
  options : List RuleOption := []

inductive Activation where
  | explicit (active : Bool)
  | byDefault (active : Bool)
  | forced
deriving DecidableEq, Repr

def Activation.isActive : Activation → Bool
  | explicit active => active
  | byDefault active => active
  | forced => true

structure Descriptor where
  ruleSetId : String
  /-- The instance; `RuleId/suffix` for one that the configuration adds. -/
  ruleId : String
  baseId : String
  activation : Activation := .byDefault true
  severity : Severity := .warning
  category : Category := .style
  since : Option String := none
  aliases : List String := []
deriving DecidableEq, Repr

namespace Descriptor

def isActive (d : Descriptor) : Bool := d.activation.isActive

def isCustom (d : Descriptor) : Bool := d.ruleId != d.baseId

def qualifiedId (d : Descriptor) : String := d.ruleSetId ++ ":" ++ d.ruleId

end Descriptor

end CodeAudit
