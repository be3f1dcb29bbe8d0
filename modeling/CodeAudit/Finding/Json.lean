import CodeAudit.Finding.Basic
import CodeAudit.Tree.Reading

namespace CodeAudit

def Span.toJson (s : Span) : Json :=
  .obj [("start_line", .int s.startLine), ("start_column", .int s.startColumn),
    ("end_line", .int s.endLine), ("end_column", .int s.endColumn),
    ("start_offset", .int s.startOffset), ("end_offset", .int s.endOffset)]

def Location.toJson (l : Location) : Json :=
  .obj [("path", .str l.path.text), ("span", l.span.toJson)]

def Location.ofJson? (j : Json) : Option Location := do
  match ← j.fields? ["path", "span"] with
  | [some path, some span] => return { path := ⟨← path.asString?⟩, span := ← Span.ofJson? span }
  | _ => none

def Entity.toJson (e : Entity) : Json :=
  .obj [("name", .str e.name), ("signature", .str e.signature), ("location", e.location.toJson)]

def Entity.ofJson? (j : Json) : Option Entity := do
  match ← j.fields? ["name", "signature", "location"] with
  | [some name, some signature, some location] =>
    return {
      name := ← name.asString?
      signature := ← signature.asString?
      location := ← Location.ofJson? location }
  | _ => none

def Severity.ofJson? (j : Json) : Option Severity := do
  match ← j.word? with
  | "info" => return .info
  | "warning" => return .warning
  | "error" => return .error
  | _ => none

namespace Finding

def toJson (f : Finding) : Json :=
  let references :=
    if f.references.isEmpty then []
    else [("references", Json.arr (f.references.map Entity.toJson))]
  let reasons :=
    if f.suppressReasons.isEmpty then []
    else [("suppress_reasons", Json.arr (f.suppressReasons.map .str))]
  .obj ([("rule_id", .str f.ruleId), ("rule_set_id", .str f.ruleSetId),
    ("severity", .str f.severity.text), ("message", .str f.message),
    ("entity", f.entity.toJson)] ++ references ++ reasons)

def ofJson? (j : Json) : Option Finding := do
  let fields ← j.fields? ["rule_id", "rule_set_id", "severity", "message", "entity", "references",
    "suppress_reasons", "suppressible"]
  match fields with
  | [some rule, some ruleSet, some severity, some message, some entity, references, reasons,
      suppressible] =>
    return {
      ruleId := ← rule.asString?
      ruleSetId := ← ruleSet.asString?
      severity := ← Severity.ofJson? severity
      message := ← message.asString?
      entity := ← Entity.ofJson? entity
      references := ← Json.fieldD references (Json.listOf? Entity.ofJson?) []
      suppressReasons := ← Json.fieldD reasons (Json.listOf? Json.asString?) []
      suppressible := ← Json.fieldD suppressible Json.asBool? true }
  | _ => none

def parse? (text : String) : Option Finding := do
  ofJson? (← Json.parse? text)

end Finding

end CodeAudit
