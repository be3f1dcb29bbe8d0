import CodeAudit.Baseline.Basic
import CodeAudit.Xml.Entity
import CodeAudit.Xml.Token

namespace CodeAudit.Baseline

def rootName : String := "Baseline"

def idName : String := "ID"

inductive Section where
  | manual
  | current
deriving DecidableEq, Repr

namespace Section

def name : Section → String
  | manual => "ManuallySuppressedIssues"
  | current => "CurrentIssues"

def ofName? (s : String) : Option Section :=
  if s == name manual then some manual else if s == name current then some current else none

end Section

inductive Defect where
  | malformed
  | unclosed (elements : List String)
  | missingRoot
  | unexpectedRoot (name : String)
  | unexpectedElement (name : String)
  | unexpectedText (text : String)
deriving DecidableEq, Repr

namespace Defect

def message : Defect → String
  | malformed => "the document is malformed"
  | unclosed elements => "unclosed element <" ++ "> <".intercalate elements ++ ">"
  | missingRoot => "missing <" ++ rootName ++ "> root element"
  | unexpectedRoot name => "unexpected root element <" ++ name ++ ">"
  | unexpectedElement name => "unexpected element <" ++ name ++ ">"
  | unexpectedText text => "unexpected text '" ++ text ++ "'"

def isMalformed : Defect → Bool
  | malformed | unclosed _ => true
  | _ => false

end Defect

/-- Adds an id to a section, trimmed, unless it is blank. -/
def record (b : Baseline) (s : Section) (text : String) : Baseline :=
  let id := Text.trim text
  if id.isEmpty then b
  else
    match s with
    | .manual => { b with manual := b.manual.insert id }
    | .current => { b with current := b.current.insert id }

/-- What the reading of a document keeps between two tokens. -/
structure Reading where
  found : Baseline := {}
  stack : List String := []
  kind? : Option Section := none
  id : String := ""
  seenRoot : Bool := false

namespace Reading

def openElement (r : Reading) (name : String) : Except Defect Reading := do
  let entered ←
    match r.stack.length with
    | 0 =>
      if name == rootName && !r.seenRoot then pure { r with seenRoot := true }
      else throw (.unexpectedRoot name)
    | 1 =>
      match Section.ofName? name with
      | some s => pure { r with kind? := some s }
      | none => throw (.unexpectedElement name)
    | 2 =>
      if name == idName && r.kind?.isSome then pure { r with id := "" }
      else throw (.unexpectedElement name)
    | _ => throw (.unexpectedElement name)
  return { entered with stack := r.stack ++ [name] }

/-- An element in one tag; it is not entered. -/
def emptyElement (r : Reading) (name : String) : Except Defect Reading :=
  match r.stack.length with
  | 0 =>
    if name == rootName && !r.seenRoot then .ok { r with seenRoot := true }
    else .error (.unexpectedElement name)
  | 1 => if (Section.ofName? name).isSome then .ok r else .error (.unexpectedElement name)
  | 2 => if name == idName then .ok r else .error (.unexpectedElement name)
  | _ => .error (.unexpectedElement name)

def readText (r : Reading) (text : String) : Except Defect Reading :=
  if r.stack.length == 3 then .ok { r with id := r.id ++ text }
  else if Text.isBlankText text then .ok r
  else .error (.unexpectedText (Text.trim text))

def recordId (r : Reading) : Reading :=
  match r.kind? with
  | some s => { r with found := record r.found s r.id }
  | none => r

/-- Leaves the innermost element. That it has the name is checked with the markup. -/
def closeElement (r : Reading) (name : String) : Except Defect Reading :=
  if r.stack.getLast? != some name then .error .malformed
  else
    let left := { r with stack := r.stack.dropLast }
    match left.stack.length with
    -- An id is complete when its element is left, and is recorded only then.
    | 2 => .ok (if name == idName then left.recordId else left)
    | 1 => .ok { left with kind? := none }
    | _ => .ok left

def step (r : Reading) (token : Xml.Token) : Except Defect Reading :=
  match token with
  | .start name => r.openElement name
  | .empty name => r.emptyElement name
  | .close name => r.closeElement name
  | .text raw =>
    match Xml.unescapeList? raw with
    | some text => r.readText (String.ofList text)
    | none => .error .malformed
  | .broken => .error .malformed

/-- The baseline when there are no more tokens. -/
def finish (r : Reading) : Except Defect Baseline :=
  if !r.seenRoot then .error .missingRoot
  else if !r.stack.isEmpty then .error (.unclosed r.stack)
  else .ok r.found

end Reading

def ofTokens (tokens : List Xml.Token) : Except Defect Baseline := do
  (← tokens.foldlM Reading.step {}).finish

def parse (document : String) : Except Defect Baseline := ofTokens (Xml.tokens document)

def sectionLines (s : Section) (ids : TextSet) : List String :=
  if ids.isEmpty then ["  <" ++ s.name ++ "/>"]
  else
    ["  <" ++ s.name ++ ">"] ++
      (ids.toList.map fun id =>
        "    <" ++ idName ++ ">" ++ Xml.escape id ++ "</" ++ idName ++ ">") ++
      ["  </" ++ s.name ++ ">"]

def render (b : Baseline) : String :=
  let lines :=
    ["<?xml version=\"1.0\" encoding=\"UTF-8\"?>", "<" ++ rootName ++ ">"] ++
      sectionLines .manual b.manual ++ sectionLines .current b.current ++
      ["</" ++ rootName ++ ">"]
  String.join (lines.map (· ++ "\n"))

end CodeAudit.Baseline
