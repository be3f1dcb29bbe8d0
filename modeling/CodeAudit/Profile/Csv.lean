import CodeAudit.Number.Binary64
import CodeAudit.Profile.Basic
import CodeAudit.Text.Pieces

namespace CodeAudit

/-- A duration in milliseconds: seconds and their fraction are added up in binary64 arithmetic, and
three decimal places of the product are written. -/
def millisecondsText (nanoseconds : Nat) : String :=
  let seconds := Number.Magnitude.ofNat (nanoseconds / Number.pow10 9)
  let fraction := (Number.Magnitude.ofNat (nanoseconds % Number.pow10 9)).div (.ofNat (Number.pow10 9))
  ((seconds.add fraction).mul (.ofNat 1000)).toFixed 3

namespace Csv

/-- The characters that a field cannot hold unquoted. -/
def needsQuotes (c : Char) : Bool := c == ',' || c == '"' || c == '\n' || c == '\r'

/-- A field, in quotation marks when it has to be; a quotation mark inside is doubled. -/
def field (s : String) : String :=
  if s.toList.any needsQuotes then "\"" ++ Text.replaceAll "\"" "\"\"" s ++ "\"" else s

def row (fields : List String) : String := ",".intercalate fields ++ "\n"

end Csv

namespace Profile

def csvHeader : String := "RuleSet,Rule,File,Duration(ms),Findings"

def rowOrder (a b : ExecutionRecord) : Ordering :=
  ((compare a.ruleSet b.ruleSet).then (compare a.rule b.rule)).then (a.file.order b.file)

def csvRow (r : ExecutionRecord) : String :=
  Csv.row [Csv.field r.ruleSet, Csv.field r.rule, Csv.field r.file.text,
    millisecondsText r.duration, toString r.findings]

def csv (p : Profile) : String :=
  let rows := p.records.mergeSort fun a b => (rowOrder a b).isLE
  csvHeader ++ "\n" ++ String.join (rows.map csvRow)

def tableLine (rule total average files findings : String) : String :=
  Text.padRight 40 rule ++ " " ++ Text.padLeft 12 total ++ " " ++ Text.padLeft 12 average ++ " " ++
    Text.padLeft 8 files ++ " " ++ Text.padLeft 10 findings ++ "\n"

def tableRow (p : RuleProfile) : String :=
  tableLine p.label (millisecondsText p.total) (millisecondsText (p.average?.getD 0))
    (toString p.files) (toString p.findings)

def table (p : Profile) (n : Nat) : String :=
  let rows := p.top n
  if rows.isEmpty then "No timing data available"
  else
    "Rule Timing Statistics:\n" ++
      tableLine "Rule" "Total (ms)" "Avg (ms)" "Files" "Findings" ++
      String.ofList (List.replicate 86 '-') ++ "\n" ++
      String.join (rows.map tableRow)

end Profile

end CodeAudit
