import CodeAudit.Severity
import CodeAudit.Tree.Signature

namespace CodeAudit

structure Entity where
  name : String
  signature : String
  location : Location
  node : Option NodeId := none
deriving DecidableEq, Repr

def Entity.ofNode (t : Tree) (id : NodeId) : Entity where
  name := ((t.node? id).map Node.label).getD ""
  signature := t.signature id
  location := t.location id
  node := some id

structure Finding where
  ruleId : String
  ruleSetId : String
  severity : Severity
  message : String
  entity : Entity
  references : List Entity := []
  suppressReasons : List String := []
  suppressible : Bool := true
deriving DecidableEq, Repr

namespace Finding

def location (f : Finding) : Location := f.entity.location

/-- What a baseline knows a finding by: rule, file name and signature. -/
def baselineId (f : Finding) : String :=
  f.ruleId ++ ":" ++ f.location.fileName ++ ":" ++ f.entity.signature

def order (a b : Finding) : Ordering :=
  (a.location.path.order b.location.path).then <|
  (compare a.location.line b.location.line).then <|
  (compare a.location.column b.location.column).then <|
  (compare a.ruleId b.ruleId).then <|
  (compare a.message b.message).then <|
  compare a.entity.signature b.entity.signature

/-- Findings in the order they are reported in; those that compare equal keep their order. -/
def sort (fs : List Finding) : List Finding :=
  fs.mergeSort fun a b => (a.order b).isLE

end Finding

end CodeAudit
