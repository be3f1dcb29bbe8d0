import CodeAudit.Proofs.Engine.Conservation

namespace CodeAudit

open Ordered

/-- Where in a run something comes from: the position of the file, and the positions of the rule set
in the engine and of the rule in the rule set. -/
structure Site where
  file : Nat
  place : Nat × Nat
deriving DecidableEq

/-- A result with the site of every entry. Notifications from before the run have none. -/
structure Ledger where
  findings : List (Site × Finding)
  notifications : List (Option Site × Notification)
  metrics : Metrics
  records : List (Site × ExecutionRecord)

namespace Ledger

def result (l : Ledger) : AnalysisResult where
  findings := l.findings.map (·.2)
  notifications := l.notifications.map (·.2)
  metrics := l.metrics
  profile := { records := l.records.map (·.2) }

/-- The ledger without the entries of a site. -/
def without (l : Ledger) (u : Site) : Ledger where
  findings := l.findings.filter fun x => x.1 ≠ u
  notifications := l.notifications.filter fun x => x.1 ≠ some u
  metrics := l.metrics
  records := l.records.filter fun x => x.1 ≠ u

def untimed (l : Ledger) : Ledger :=
  { l with records := l.records.map fun x => (x.1, x.2.untimed) }

end Ledger

namespace Engine

end Engine

section Sites

variable {β : Type} (cs : List Contribution)

instance : Std.TransCmp fun a b : Site × Finding => a.2.order b.2 :=
  transCmp_on (fun x : Site × Finding => x.2) Finding.order

instance : Std.TransCmp fun a b : Site × Batch => a.2.order b.2 :=
  transCmp_on (fun x : Site × Batch => x.2) Batch.order

end Sites

/-! ### The result of a ledger -/

namespace Engine

variable (e : Engine) (trees : List Tree)

end Engine

end CodeAudit
