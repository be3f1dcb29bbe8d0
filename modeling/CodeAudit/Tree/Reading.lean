import CodeAudit.FileSystem
import CodeAudit.Json.Decode
import CodeAudit.Json.Reader
import CodeAudit.Tree.Outline

namespace CodeAudit

inductive TreeError where
  | io (cause : IoError)
  | parse (file : Path)
  | notAFile (origin : Path) (kind : NodeKind)
deriving DecidableEq, Repr

def TreeError.message : TreeError → String
  | io cause => "IO error: " ++ cause.message
  | parse file => "Tree parse error in " ++ file.text ++ ": the document is malformed"
  | notAFile origin kind =>
    "Invalid tree: root of " ++ origin.text ++ " must be a file node, found '" ++ kind.text ++ "'"

def Span.ofJson? (j : Json) : Option Span := do
  let fields ← j.fields?
    ["start_line", "start_column", "end_line", "end_column", "start_offset", "end_offset"]
  match fields with
  | [startLine, startColumn, endLine, endColumn, startOffset, endOffset] =>
    let count (f : Option Json) := Json.fieldD f Json.asCount? 0
    return {
      startLine := ← count startLine
      startColumn := ← count startColumn
      endLine := ← count endLine
      endColumn := ← count endColumn
      startOffset := ← count startOffset
      endOffset := ← count endOffset }
  | _ => none

def Mark.ofJson? (j : Json) : Option Mark := do
  match ← j.fields? ["name", "args"] with
  | [some name, args] =>
    return { name := ← name.asString?, args := ← Json.fieldD args (Json.listOf? Json.asString?) [] }
  | _ => none

def NodeKind.ofJson? (j : Json) : Option NodeKind := do
  ofText? (← j.word?)

namespace Outline

/-- The fields of a node that hold no other nodes, and what stands for its children. -/
def shallow? (j : Json) : Option ((List Outline → Outline) × List Json) := do
  match ← j.fields? ["kind", "name", "annotations", "span", "children"] with
  | [kind, name, marks, span, children] =>
    let kind ← Json.fieldD kind NodeKind.ofJson? .other
    let name ← Json.fieldOrNull name Json.asString?
    let marks ← Json.fieldD marks (Json.listOf? Mark.ofJson?) []
    let span ← Json.fieldD span Span.ofJson? {}
    let children ← Json.fieldD children Json.asList? []
    return (node kind name marks span, children)
  | _ => none

def ofJson? : Nat → Json → Option Outline
  | 0, _ => none
  | depth + 1, j => do
    let (make, children) ← shallow? j
    return make (← children.mapM (ofJson? depth))

end Outline

namespace Tree

def document? (text : String) : Option (Option Path × Outline) := do
  match ← (← Json.parse? text).fields? ["path", "root"] with
  | [path, some root] =>
    let path ← Json.fieldOrNull path Json.asString?
    return (path.map (⟨·⟩), ← Outline.ofJson? Json.maxDepth root)
  | _ => none

/-- The tree of a document; one that names no path is attributed to its origin. -/
def ofJson (text : String) (origin : Path) : Except TreeError Tree :=
  match document? text with
  | none => .error (.parse origin)
  | some (path, root) =>
    if root.kind = .file then .ok (ofOutline (path.getD origin) root)
    else .error (.notAFile origin root.kind)

def load (fs : FileSystem) (path : Path) : Except TreeError Tree := do
  ofJson (← (fs.read path).mapError .io) path

end Tree

end CodeAudit
