import CodeAudit.Number.Power
import CodeAudit.Ordered.Table
import CodeAudit.Tree.Basic

namespace CodeAudit

/-- Counts something about each file. -/
structure Collector where
  id : String
  collect : Tree → List (String × Int)

namespace Collector

def files : Collector where
  id := "files"
  collect _ := [("files", 1)]

def lines : Collector where
  id := "loc"
  collect t := [("loc", Int.bmod t.lineCount (Number.pow2 64))]

def countKinds (t : Tree) (kinds : List NodeKind) : Int :=
  (t.walk.countP fun id => (t.node? id).any fun n => kinds.contains n.kind : Nat)

def declarations : Collector where
  id := "declarations"
  collect t := [
    ("classes", countKinds t [.classType, .object]),
    ("functions", countKinds t [.function]),
    ("properties", countKinds t [.property])]

def defaults : List Collector := [files, lines, declarations]

end Collector

abbrev Metrics := List (String × Int)

/-- Metrics by file and name, in the order of the paths and then of the names. -/
structure MetricTable where
  values : List ((Path × String) × Int) := []

namespace MetricTable

def keyOrder (a b : Path × String) : Ordering := (a.1.order b.1).then (compare a.2 b.2)

def add (t : MetricTable) (file : Path) (metric : String) (value : Int) : MetricTable :=
  { values := Table.update keyOrder (file, metric) (fun old => old.getD 0 + value) t.values }

def get? (t : MetricTable) (file : Path) (metric : String) : Option Int :=
  Table.get? keyOrder (file, metric) t.values

def merge (t other : MetricTable) : MetricTable :=
  other.values.foldl (fun t e => t.add e.1.1 e.1.2 e.2) t

def totals (t : MetricTable) : Metrics :=
  t.values.foldl
    (fun totals e => Table.update compare e.1.2 (fun old => old.getD 0 + e.2) totals) []

def isEmpty (t : MetricTable) : Bool := t.values.isEmpty

def ofTree (collectors : List Collector) (t : Tree) : MetricTable :=
  (collectors.flatMap (·.collect t)).foldl (fun table e => table.add t.path e.1 e.2) {}

end MetricTable

end CodeAudit
