import CodeAudit.Tree.Basic

namespace CodeAudit

/-- A node with its children inside it. -/
inductive Outline where
  | node (kind : NodeKind) (name : Option String) (marks : List Mark) (span : Span)
      (children : List Outline)
deriving Inhabited

namespace Outline

def kind : Outline → NodeKind
  | node k _ _ _ _ => k

def children : Outline → List Outline
  | node _ _ _ _ cs => cs

def content : Outline → Node
  | node kind name marks span _ => { kind, givenName := name, marks, span }

end Outline

namespace Tree

mutual

def graft (t : Tree) (parent : NodeId) : Outline → Tree
  | .node kind name marks span children =>
    graftAll (t.attach parent { kind, givenName := name, marks, span }) t.size children

def graftAll (t : Tree) (parent : NodeId) : List Outline → Tree
  | [] => t
  | o :: rest => graftAll (graft t parent o) parent rest

end

def ofOutline (path : Path) : Outline → Tree
  | .node _ name marks span children =>
    graftAll
      { path, nodes := #[{ kind := .file, givenName := name, marks, span }] }
      rootId children

end Tree

end CodeAudit
