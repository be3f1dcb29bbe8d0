import CodeAudit.Tree.Basic

namespace CodeAudit.Tree

def owner (t : Tree) (id : NodeId) : Option NodeId :=
  (t.parent? id).bind t.enclosingDeclaration

def isAnonymous (t : Tree) (id : NodeId) : Bool :=
  ((t.node? id).map Node.isAnonymousDeclaration).getD false

def anonymousOf (t : Tree) (holder : Option NodeId) : List NodeId :=
  let start := holder.getD rootId
  (t.walkFrom start).filter fun n =>
    (n != start || holder.isNone) && t.isAnonymous n && t.owner n == holder

/-- Position of an unnamed declaration among those with its owner. -/
def anonymousOrdinal (t : Tree) (id : NodeId) : Nat :=
  ((t.anonymousOf (t.owner id)).findIdx? (· == id)).getD 0

def parameterNames (t : Tree) (n : Node) : List String :=
  n.children.filterMap fun c =>
    match t.node? c with
    | some p => if p.kind = .parameter then some (p.name?.getD "_") else none
    | none => none

/-- What a declaration contributes to a signature. -/
def segment (t : Tree) (id : NodeId) : String :=
  match t.node? id with
  | none => ""
  | some n =>
    match n.name? with
    | none => "<anonymous#" ++ toString (t.anonymousOrdinal id) ++ ">"
    | some name =>
      if n.kind = .function then name ++ "(" ++ ", ".intercalate (t.parameterNames n) ++ ")"
      else name

/-- The declarations around a node, outermost first. -/
def declarationsAround (t : Tree) (id : NodeId) : List NodeId :=
  ((t.ancestors id).filter (t.kindIs NodeKind.isDeclaration)).reverse

/-- The signature of the declaration around a node; outside every declaration, the file name. -/
def signature (t : Tree) (id : NodeId) : String :=
  match t.declarationsAround id with
  | [] => t.fileName
  | ids => ".".intercalate (ids.map t.segment)

end CodeAudit.Tree
