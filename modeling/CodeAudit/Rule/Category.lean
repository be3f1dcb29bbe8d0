import CodeAudit.Text.Case

namespace CodeAudit

inductive Category where
  | correctness
  | complexity
  | style
  | performance
  | guarding
deriving DecidableEq, Repr, Inhabited

namespace Category

/-- Only guards cannot be suppressed. -/
def isSuppressible : Category → Bool
  | guarding => false
  | _ => true

def text : Category → String
  | correctness => "correctness"
  | complexity => "complexity"
  | style => "style"
  | performance => "performance"
  | guarding => "guard"

def ofText? : String → Option Category
  | "correctness" => some correctness
  | "complexity" => some complexity
  | "style" => some style
  | "performance" => some performance
  | "guard" => some guarding
  | _ => none

def parse? (s : String) : Option Category :=
  match Text.fold s with
  | "perf" => some performance
  | word => ofText? word

end Category

end CodeAudit
