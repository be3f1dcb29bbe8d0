import CodeAudit.Text.Pieces

/-!
File paths. A path is its text, which is what is printed; two paths are the same when their
components are, so doubled slashes, inner dots and a trailing slash make no difference.
-/

namespace CodeAudit

/-- One step of a path. A dot counts only at the start of a relative path. -/
inductive Component where
  | root
  | here
  | parent
  | name (text : String)
deriving DecidableEq, Repr

namespace Component

def rank : Component → Nat
  | root => 0
  | here => 1
  | parent => 2
  | name _ => 3

def label : Component → String
  | root => "/"
  | here => "."
  | parent => ".."
  | name s => s

/-- The root first, then dots, then names in the order of their characters. -/
def order (a b : Component) : Ordering :=
  (compare a.rank b.rank).then (compare a.label b.label)

end Component

structure Path where
  text : String
deriving DecidableEq, Repr, Inhabited

namespace Path

/-- A piece between slashes; an empty piece is no step, and a dot only is one where `leading`. -/
def stepOf (leading : Bool) (piece : String) : Option Component :=
  if piece.isEmpty then none
  else if piece == "." then (if leading then some .here else none)
  else if piece == ".." then some .parent
  else some (.name piece)

def isAbsolute (p : Path) : Bool := p.text.toList.head? == some '/'

def components (p : Path) : List Component :=
  let pieces := Text.splitOnChar '/' p.text
  if p.isAbsolute then .root :: pieces.filterMap (stepOf false)
  else
    match pieces with
    | [] => []
    | first :: rest => (stepOf true first).toList ++ rest.filterMap (stepOf false)

def order (a b : Path) : Ordering :=
  List.compareLex Component.order a.components b.components

def same (a b : Path) : Bool := a.components == b.components

def fileName? (p : Path) : Option String :=
  match p.components.getLast? with
  | some (.name s) => some s
  | _ => none

def fileNameOrText (p : Path) : String := p.fileName?.getD p.text

/-- What follows the last dot of the file name; a dot at its start does not count. -/
def extension? (p : Path) : Option String := do
  let name ← p.fileName?
  let back := name.toList.reverse
  let ext := back.takeWhile (· != '.')
  let stem := (back.drop ext.length).drop 1
  if stem.isEmpty then none else return String.ofList ext.reverse

/-- A path below another; an absolute one stands for itself. -/
def join (a b : Path) : Path :=
  if b.isAbsolute then b
  else if a.text.isEmpty || a.text.toList.getLast? == some '/' then ⟨a.text ++ b.text⟩
  else ⟨a.text ++ "/" ++ b.text⟩

end Path

end CodeAudit
