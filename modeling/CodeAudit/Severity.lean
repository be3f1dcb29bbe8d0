import CodeAudit.Text.Case

namespace CodeAudit

inductive Severity where
  | info
  | warning
  | error
deriving DecidableEq, Repr, Inhabited

namespace Severity

def rank : Severity → Nat
  | info => 0
  | warning => 1
  | error => 2

def text : Severity → String
  | info => "info"
  | warning => "warning"
  | error => "error"

/-- Whether a severity is at least another. -/
def atLeast (s least : Severity) : Bool := least.rank ≤ s.rank

def parse? (s : String) : Option Severity :=
  match Text.fold s with
  | "info" | "hint" | "note" => some info
  | "warning" | "warn" => some warning
  | "error" | "err" => some error
  | _ => none

end Severity

end CodeAudit
