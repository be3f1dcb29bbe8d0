import CodeAudit.Location
import CodeAudit.Tree.Kind

namespace CodeAudit

structure Mark where
  name : String
  args : List String := []
deriving DecidableEq, Repr

abbrev NodeId := Nat

structure Node where
  kind : NodeKind
  /-- The name as given, which may be empty. -/
  givenName : Option String := none
  marks : List Mark := []
  span : Span := {}
  parent : Option NodeId := none
  children : List NodeId := []
deriving DecidableEq, Repr

namespace Node

def name? (n : Node) : Option String := n.givenName.filter fun s => !s.isEmpty

def hasMark (n : Node) (name : String) : Bool := n.marks.any fun a => a.name == name

def isAnonymousDeclaration (n : Node) : Bool := n.kind.isDeclaration && n.name?.isNone

def shownName (n : Node) : String := n.name?.getD "<anonymous>"

/-- What the node is called: by its name, or else its kind. -/
def label (n : Node) : String := n.name?.getD n.kind.text

end Node

structure Tree where
  path : Path
  nodes : Array Node

namespace Tree

def rootId : NodeId := 0

def node? (t : Tree) (id : NodeId) : Option Node := t.nodes[id]?

def size (t : Tree) : Nat := t.nodes.size

def isBare (t : Tree) : Bool := t.size ≤ 1

def fileName (t : Tree) : String := t.path.fileNameOrText

def parent? (t : Tree) (id : NodeId) : Option NodeId := (t.node? id).bind (·.parent)

def childrenOf (t : Tree) (id : NodeId) : List NodeId := ((t.node? id).map (·.children)).getD []

def kindIs (t : Tree) (p : NodeKind → Bool) (id : NodeId) : Bool :=
  ((t.node? id).map fun n => p n.kind).getD false

/-- Follows parents for at most `steps` nodes. -/
def climb (t : Tree) : Nat → Option NodeId → List NodeId
  | _, none => []
  | 0, some _ => []
  | steps + 1, some id => id :: climb t steps (t.parent? id)

/-- The node and every node around it, innermost first. A climb that meets each node at most once
has no more steps than the tree has nodes. -/
def ancestors (t : Tree) (id : NodeId) : List NodeId :=
  t.climb t.size ((t.node? id).map fun _ => id)

/-- Visits the nodes of a stack, each followed by its children in order, for at most `steps`
nodes. -/
def visit (t : Tree) : Nat → List NodeId → List NodeId
  | 0, _ => []
  | _, [] => []
  | steps + 1, id :: rest => id :: visit t steps (t.childrenOf id ++ rest)

def walkFrom (t : Tree) (id : NodeId) : List NodeId :=
  if id < t.size then t.visit t.size [id] else []

def walk (t : Tree) : List NodeId := t.walkFrom rootId

def enclosingDeclaration (t : Tree) (id : NodeId) : Option NodeId :=
  (t.ancestors id).find? (t.kindIs NodeKind.isDeclaration)

def location (t : Tree) (id : NodeId) : Location :=
  { path := t.path, span := ((t.node? id).map (·.span)).getD {} }

def lineCount (t : Tree) : Nat := ((t.node? rootId).map (·.span.lineCount)).getD 0

/-! ### Building -/

def start (path : Path) (span : Span) : Tree :=
  { path, nodes := #[{ kind := .file, span }] }

def modify (t : Tree) (id : NodeId) (f : Node → Node) : Tree :=
  { t with nodes := t.nodes.modify id f }

def attach (t : Tree) (parent : NodeId) (n : Node) : Tree :=
  ({ t with nodes := t.nodes.push { n with parent := some parent } }).modify parent fun p =>
    { p with children := p.children ++ [t.size] }

/-- Appends a node; the parent must be a node once the new one is there. -/
def add? (t : Tree) (parent : NodeId) (n : Node) : Option Tree :=
  if parent ≤ t.size then some (t.attach parent n) else none

/-- Adds a marker to a node, which must exist. -/
def mark? (t : Tree) (id : NodeId) (a : Mark) : Option Tree :=
  if id < t.size then some (t.modify id fun n => { n with marks := n.marks ++ [a] })
  else none

end Tree

end CodeAudit
