import CodeAudit.Finding.Basic
import CodeAudit.Ordered.TextSet

namespace CodeAudit

structure Baseline where
  manual : TextSet := .empty
  current : TextSet := .empty
deriving DecidableEq, Repr

namespace Baseline

def contains (b : Baseline) (id : String) : Bool := b.current.contains id || b.manual.contains id

def isEmpty (b : Baseline) : Bool := b.current.isEmpty && b.manual.isEmpty

def size (b : Baseline) : Nat := b.current.size + b.manual.size

def records (b : Baseline) (f : Finding) : Bool := b.contains f.baselineId

/-- The findings that are left: those that are not recorded or cannot be suppressed. -/
def keep (b : Baseline) (fs : List Finding) : List Finding :=
  fs.filter fun f => !f.suppressible || !b.records f

/-- The recorded findings that cannot be suppressed. -/
def blocked (b : Baseline) (fs : List Finding) : List Finding :=
  fs.filter fun f => !f.suppressible && b.records f

/-- The baseline whose current ids are those of the findings, without the ones kept by hand. -/
def withFindings (b : Baseline) (fs : List Finding) : Baseline :=
  { b with
    current := .ofList ((fs.map Finding.baselineId).filter fun id => !b.manual.contains id) }

end Baseline

end CodeAudit
