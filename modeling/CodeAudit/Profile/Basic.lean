import CodeAudit.Number.Power
import CodeAudit.Ordered.Table
import CodeAudit.Path

namespace CodeAudit

structure ExecutionRecord where
  ruleSet : String
  rule : String
  file : Path
  duration : Nat
  /-- The findings before suppression. -/
  findings : Nat
deriving DecidableEq, Repr

structure RuleProfile where
  ruleSet : String := ""
  rule : String := ""
  total : Nat := 0
  files : Nat := 0
  findings : Nat := 0
deriving DecidableEq, Repr

namespace RuleProfile

def add (p : RuleProfile) (r : ExecutionRecord) : RuleProfile :=
  { p with
    total := p.total + r.duration
    files := p.files + 1
    findings := p.findings + r.findings }

/-- The divisor of an average is a 32-bit number. -/
def divisor (p : RuleProfile) : Nat := p.files % Number.pow2 32

/-- The time per file, in whole nanoseconds, and zero for a rule that never ran. A number of files
that the divisor cannot hold leaves it undefined when nothing is left of it. -/
def average? (p : RuleProfile) : Option Nat :=
  if p.files == 0 then some 0
  else if p.divisor == 0 then none
  else some (p.total / p.divisor)

def label (p : RuleProfile) : String := p.ruleSet ++ ":" ++ p.rule

end RuleProfile

structure Profile where
  records : List ExecutionRecord := []
deriving DecidableEq, Repr

namespace Profile

def append (p q : Profile) : Profile := { records := p.records ++ q.records }

def isEmpty (p : Profile) : Bool := p.records.isEmpty

def ruleOrder (a b : String × String) : Ordering := (compare a.1 b.1).then (compare a.2 b.2)

def byRule (p : Profile) : List ((String × String) × RuleProfile) :=
  p.records.foldl
    (fun table r =>
      Table.update ruleOrder (r.ruleSet, r.rule)
        (fun old => (old.getD { ruleSet := r.ruleSet, rule := r.rule }).add r) table)
    []

/-- The sums of every rule, the longest total first; equal totals go by rule set and rule. -/
def aggregate (p : Profile) : List RuleProfile :=
  (p.byRule.map (·.2)).mergeSort fun a b => b.total ≤ a.total

def top (p : Profile) (n : Nat) : List RuleProfile := p.aggregate.take n

end Profile

end CodeAudit
