import CodeAudit.Json.Decode
import CodeAudit.Json.Reader
import CodeAudit.Manifest.Basic
import CodeAudit.Value.Yaml

namespace CodeAudit

structure DocumentFormat (α : Type) where
  record? : List String → α → Option (List (Option α))
  items? : α → Option (List α)
  text? : α → Option String
  flag? : α → Option Bool
  count? : α → Option Nat
  isNull : α → Bool

namespace DocumentFormat

def json : DocumentFormat Json where
  record? := Json.fields?
  items? := Json.asList?
  text? := Json.asString?
  flag? := Json.asBool?
  count? := Json.asCount?
  isNull
    | .null => true
    | _ => false

/-- Nodes of a YAML document. Any scalar is a text, as it is written; flags and numbers must be
plain; nothing at all is an empty list and an empty record. -/
def yaml (anchors : Yaml.Anchors) : DocumentFormat Yaml.Node where
  record? names n := do
    match ← follow n with
    | .mapping _ entries =>
      let keyed ← entries.mapM fun (k, v) => do
        match ← follow k with
        | .scalar _ text _ => return (text, v)
        | _ => none
      names.mapM fun name =>
        match keyed.filter fun e => e.1 == name with
        | [] => some none
        | [e] => some (some e.2)
        | _ => none
    | .scalar _ "" true => return names.map fun _ => none
    | _ => none
  items? n := do
    match ← follow n with
    | .sequence _ items => return items
    | .scalar _ "" true => return []
    | _ => none
  text? n := do
    match ← follow n with
    | .scalar _ text _ => return text
    | _ => none
  flag? n := do
    match ← follow n with
    | .scalar _ text true => Value.boolWord? text
    | _ => none
  count? n := do
    match ← follow n with
    | .scalar _ text true => Value.plainNat? (Number.pow2 64) text.toList
    | _ => none
  isNull n :=
    match follow n with
    | some (.scalar _ text true) => text.isEmpty || Value.isNullWord text
    | _ => false
where
  follow : Yaml.Node → Option Yaml.Node
    | .alias id => anchors.node? id
    | n => some n

variable {α : Type} (format : DocumentFormat α)

def fieldD {β : Type} (field : Option α) (read : α → Option β) (default : β) : Option β :=
  match field with
  | none => some default
  | some a => read a

def field? {β : Type} (field : Option α) (read : α → Option β) : Option (Option β) :=
  match field with
  | none => some none
  | some a => if format.isNull a then some none else (read a).map some

end DocumentFormat

section
variable {α : Type} (format : DocumentFormat α)

def TargetDefinition.read? (a : α) : Option TargetDefinition := do
  match ← format.record? ["kind", "name"] a with
  | [kind, name] =>
    return { kind := ← format.field? kind format.text?, name := ← format.field? name format.text? }
  | _ => none

def RuleDefinition.read? (a : α) : Option RuleDefinition := do
  let fields ← format.record?
    ["id", "description", "message", "severity", "active", "target", "max_lines"] a
  match fields with
  | [some id, description, some message, severity, active, target, maxLines] =>
    return {
      id := ← format.text? id
      description := ← DocumentFormat.fieldD description format.text? ""
      message := ← format.text? message
      severity := ← DocumentFormat.fieldD severity format.text? "warning"
      active := ← DocumentFormat.fieldD active format.flag? true
      target := ← DocumentFormat.fieldD target (TargetDefinition.read? format) {}
      maxLines := ← format.field? maxLines format.count? }
  | _ => none

def Manifest.read? (a : α) : Option Manifest := do
  match ← format.record? ["rule_set", "rules"] a with
  | [some ruleSet, rules] =>
    match ← format.record? ["id", "description"] ruleSet with
    | [some id, description] =>
      let id ← format.text? id
      let description ← DocumentFormat.fieldD description format.text? ""
      let rules ← DocumentFormat.fieldD rules
        (fun a => do (← format.items? a).mapM (RuleDefinition.read? format)) []
      return { id, description, rules }
    | _ => none
  | _ => none

end

namespace Manifest

def ofYaml? (text : String) : Option Manifest := do
  let doc ← Yaml.document? text
  read? (.yaml doc.anchors) (← doc.root)

def ofJson? (text : String) : Option Manifest := do
  read? .json (← Json.parse? text)

def load (fs : FileSystem) (path : Path) : Except ManifestError Manifest := do
  let text ← (fs.read path).mapError .io
  let parsed (m : Option Manifest) : Except ManifestError Manifest :=
    match m with
    | some m => .ok m
    | none => .error (.parse path)
  match path.extension?.getD "" with
  | "yaml" | "yml" => parsed (ofYaml? text)
  | "json" => parsed (ofJson? text)
  | ext => throw (.invalid ("Unsupported manifest format: " ++ ext))

/-- The names under which a directory holds a manifest of its own. -/
def nestedNames : List String := ["plugin.yaml", "plugin.yml", "plugin.json"]

def pathFor? (fs : FileSystem) (entry : Path) : Option Path :=
  if fs.isDirectory entry then (nestedNames.map fun name => entry.join ⟨name⟩).find? fs.exists?
  else
    match entry.extension?.getD "" with
    | "yaml" | "yml" | "json" => some entry
    | _ => none

def pathsIn (fs : FileSystem) (dir : Path) : List Path :=
  match fs.list dir with
  | .error _ => []
  | .ok names =>
    (names.filterMap fun name => pathFor? fs (dir.join ⟨name⟩)).mergeSort fun a b =>
      (a.order b).isLE

end Manifest

end CodeAudit
